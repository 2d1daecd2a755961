import Jukebox.Hub.Editing
import Jukebox.Queue.Flow
import Jukebox.Queue.Order
import Jukebox.Text.Segment

/-!
# Player reports

Every report of a player is folded into its queue: the position, the current and the next item.
What changed since the last report is published, and what follows from it is scheduled: handing
the player the next item, recording an item as played, adding radio tracks, and clearing a queue
that came to its end.
-/

namespace Jukebox.Hub

/-! ## The queue after a report -/

/-- The item a player renders, if it came from this queue: named by its id, or by the file name of
its uri. -/
def reportedItem? (queueId : String) (r : PlayerReport) (items : List QueueItem) :
    Option String :=
  match r.currentMedia with
  | none => none
  | some media =>
    if media.queueId.any (· ≠ queueId) then none
    else
      match media.queueItemId, media.uri with
      | some itemId, _ => some itemId
      | none, none => none
      | none, some uri =>
        if Text.occursIn queueId.toList uri.toList then
          let candidate := Text.fileStem uri
          if items.any (·.id = candidate) then some candidate else none
        else none

/-- The queue with the position that a playing player is at. -/
def atReportedPosition (q : Queue) (items : List QueueItem) (r : PlayerReport) (clock : Float) :
    Queue :=
  let elapsed := (r.elapsedAt clock).getD 0
  if q.flowMode then
    let p := Flow.streamPosition Number.floatOfNat q.currentIndex q.flowLog items elapsed
    { q with currentIndex := p.index, elapsed := p.elapsed }
  else
    let q := { q with elapsed := Number.floor elapsed }
    match reportedItem? r.playerId r items with
    | some itemId => { q with currentIndex := indexOf? items itemId }
    | none => q

/-- The queue with the state and the position that a player reports. -/
def afterReport (q : Queue) (items : List QueueItem) (r : PlayerReport) (clock : Float) : Queue :=
  let q :=
    if r.state = some .playing then
      { atReportedPosition q items r clock with state := .playing, elapsedUpdated := clock }
    else { q with state := r.state.getD .idle }
  let q :=
    { q with
      currentItem := q.currentIndex.bind (items[·]?)
      nextItem := nextPlayableItem items q.repeatMode q.currentIndex }
  if q.state = .playing ∧ !q.flowMode then
    let seek := ((q.currentItem.bind (·.stream)).map (·.seekPosition.toNat)).getD 0
    { q with elapsed := q.elapsed + Number.floatOfNat seek }
  else q

/-- What a report tells about its queue apart from playing. -/
def described (q : Queue) (items : List QueueItem) (r : PlayerReport) : Queue :=
  { q with
    displayName := r.displayName
    available := r.available
    itemCount := items.length
    active := r.activeSource.getD r.playerId = q.id }

/-! ## Handing over the next item -/

/-- The elapsed seconds before which nothing is preloaded. -/
def preloadAfter : Float := 2

/-- The seconds assumed of an item that tells no length when its half is awaited. -/
def preloadFallback : Nat := 10

/-- The length by which the half of an item is measured. -/
def trackLength (i : QueueItem) : Nat :=
  (((i.stream.bind (·.duration)).orElse fun _ => i.duration).map (·.toNat)).getD preloadFallback

/-- Whether the current item is far enough along for the next one to be handed over, and which
items these are. -/
def preloadDue? (q : Queue) (clock : Float) : Option (QueueItem × QueueItem) :=
  match q.currentItem, q.nextItem with
  | some current, some next =>
    let elapsed := q.elapsedAt clock
    if q.enqueuedNext = some next.id then none
    else if elapsed < preloadAfter then none
    else if elapsed < Number.floatOfNat (trackLength current) / 2 then none
    else some (current, next)
  | _, _ => none

/-- The next item is claimed and handed over by a job, unless another one is being loaded. -/
def schedulePreload (h : Hub) (o : Outside) (q : Queue) : Hub :=
  match preloadDue? q o.clock, h.queue? q.id with
  | some (current, next), some stored =>
    if stored.preloading.isSome then h
    else
      (h.modifyQueue q.id fun q => { q with preloading := some next.id }).later o
        (Job.preloadKey q.id) 0 (.preload q.id current.id)
  | _, _ => h

/-! ## Recording what was played -/

/-- The seconds assumed of an item that tells no length when it is recorded. -/
def playedFallback : Nat := 3600

/-- An item counts as fully played when fewer seconds than this remained. -/
def playedMargin : Nat := 5

/-- An item played for no longer is not recorded. -/
def leastPlayed : Nat := 2

/-- An item that a player left is recorded as played. -/
def recordPlayed (h : Hub) (o : Outside) (queueId : String) (item : QueueItem)
    (stream : StreamDetails) (elapsed : Int) : Hub :=
  let seconds := min elapsed.toNat (UInt32.size - 1)
  let length := ((stream.duration.orElse fun _ => item.duration).map (·.toNat)).getD playedFallback
  let fully : Bool := length - playedMargin ≤ seconds
  let h := h.spawn o (.streamed stream (UInt32.ofNat seconds) fully)
  match item.media with
  | none => h
  | some media =>
    if !fully ∧ seconds ≤ leastPlayed then h
    else
      let report : PlayedReport :=
        { mediaType := stream.mediaType.getD media.mediaType
          itemId := stream.itemId
          provider := stream.provider
          fullyPlayed := some fully
          seconds := some (UInt32.ofNat seconds) }
      (h.spawn o (.markPlayed report)).publish
        (.mediaPlayed ⟨queueId, item.id, media, UInt32.ofNat seconds, fully⟩)

/-! ## What follows -/

/-- A queue that stays finished is to be cleared. -/
def scheduleClearCheck (h : Hub) (o : Outside) (queueId : String) : Hub :=
  h.later o (Job.clearCheckKey queueId)
    (h.timings.clearCheckInterval * h.timings.clearCheckAttempts) (.clearCheck queueId)

/-- Radio tracks are added when fewer items than this remain. -/
def refillBelow : Nat := 5

/-- Another item became the current one: radio goes on, or begins when the queue is about to end
and may not stop. -/
def currentItemChanged (h : Hub) (o : Outside) (q : Queue) : Hub :=
  match q.remaining? with
  | none => h
  | some remaining =>
    let adopts := q.dontStop ∧ !q.requested.isEmpty ∧ remaining ≤ 1 ∧ h.contains q.id
    let h := if adopts then h.adoptRequests q.id else h
    if (!q.radioSource.isEmpty ∨ adopts) ∧ remaining < refillBelow then h.scheduleRadio o q.id
    else h

/-- The change since the last report is published, and the observation is remembered while the
queue is active. -/
def tellChange (h : Hub) (o : Outside) (queueId : String) (q : Queue) (change : Change)
    (new : Observation) : Hub :=
  let h :=
    if change.onlyElapsed then h.publish (.timeUpdated q.id q.elapsed)
    else h.signal o queueId change.affectsItems
  h.modifyEntry queueId fun e => { e with remembered := if q.active then some new else none }

/-- Whether a playing queue came to its end. -/
def endReached (old new : Observation) (q : Queue) : Bool :=
  old.state = .playing && new.state = .idle && q.currentItem.isSome && q.nextItem.isNone

/-- The item that was played until now is recorded when it was left or the queue ended. -/
def recordLeft (h : Hub) (o : Outside) (queueId : String) (items : List QueueItem)
    (old new : Observation) (ended : Bool) : Hub :=
  match old.currentItemId with
  | none => h
  | some itemId =>
    if new.currentItemId = some itemId ∧ !ended then h
    else
      match items.find? (fun i => i.id = itemId) with
      | none => h
      | some item =>
        match item.stream with
        | none => h
        | some stream => h.recordPlayed o queueId item stream old.elapsed

/-- All that follows from a report, given the queue after it. -/
def followReport (h : Hub) (o : Outside) (queueId : String) (items : List QueueItem)
    (old : Observation) (q : Queue) : Hub :=
  let new := Observation.ofQueue q
  let h :=
    if q.state = .playing ∧ (new.nextItemId ≠ old.nextItemId ∨ q.enqueuedNext.isNone) then
      h.schedulePreload o q
    else h
  let change := old.changeTo new
  if change.isEmpty then h
  else
    let h := h.tellChange o queueId q change new
    let ended := endReached old new q
    let h := h.recordLeft o queueId items old new ended
    let h := if ended then h.scheduleClearCheck o queueId else h
    if change.currentItem then h.currentItemChanged o q else h

/-- A report is folded into the queue of its player. During an announcement nothing changes. A
queue that does not feed its player is idle, and nothing more follows unless it did until now. -/
def onReport (h : Hub) (o : Outside) (r : PlayerReport) : Hub :=
  let queueId := r.playerId
  match h.entry? queueId with
  | none => h
  | some e =>
    if r.announcementInProgress then h
    else
      let q := described e.queue e.items r
      if !q.active ∧ e.remembered.isNone then
        h.modifyQueue queueId fun _ => { q with state := .idle }
      else
        let q := afterReport q e.items r o.clock
        (h.modifyQueue queueId fun _ => q).followReport o queueId e.items
          (e.remembered.getD {}) q

/-! ## Coming and going of players -/

/-- The queue of a new player is registered and announced. -/
def onRegister (h : Hub) (o : Outside) (r : PlayerReport) : Queue × Hub :=
  let (q, h) := h.register o r.playerId r.displayName r.available
  let h := h.onReport o r
  let q := (h.queue? r.playerId).getD q
  (q, h.publish (.queueAdded q))

/-- The queue of a player is dropped with the jobs that wait for it. -/
def onRemove (h : Hub) (o : Outside) (playerId : String) : Hub :=
  let h := { h with schedule := (h.schedule.cancelQueue playerId).2 }
  (h.deregister o playerId).2

end Jukebox.Hub
