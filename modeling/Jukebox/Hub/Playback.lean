import Jukebox.Program
import Jukebox.Queue.Order

/-!
# Playing

Loading an item and sending it to the player, skipping and seeking, stopping and resuming, and
moving a queue to another player. The stream of an item is looked up before it is sent, so that an
unplayable item fails at once; meanwhile the queue is buffering.
-/

namespace Jukebox

/-- The title of a continuous stream. -/
def flowTitle : String := "Queue Hub"

/-- A position at or below so many seconds is resumed from the start. -/
def leastResume : Float := 10

/-- What a player is handed for an item, at the address of its stream. -/
def PlayerMedia.ofItem (url : String) (i : QueueItem) (flow : Bool) : PlayerMedia :=
  if flow then
    { uri := url
      mediaType := .flowStream
      title := some flowTitle
      duration := i.duration
      queueId := some i.queueId
      queueItemId := some i.id }
  else
    { uri := url
      mediaType := i.mediaType
      title := some ((i.media.map (·.name)).getD i.name)
      artist := i.media.bind (·.artist)
      album := (i.media.bind (·.album)).map (·.name)
      imageUrl := i.image
      duration := i.duration
      queueId := some i.queueId
      queueItemId := some i.id }

/-- Whether two items are tracks of one album. -/
def QueueItem.sameAlbum (a b : QueueItem) : Bool :=
  match a.media.bind (·.album), b.media.bind (·.album) with
  | some x, some y => x.itemId = y.itemId
  | _, _ => false

/-- The second to resume media from: half a second early, in whole seconds. -/
def resumeSecond (ms : UInt64) : UInt32 := UInt32.ofNat ((ms.toNat - 500) / 1000)

/-- The queue buffering an item that is to be played. -/
def Queue.buffering (q : Queue) (index : Nat) (item : QueueItem) (flow : Bool) : Queue :=
  { q with
    resumePosition := 0
    currentIndex := some index
    bufferedIndex := some index
    flowLog := []
    flowMode := flow
    currentItem := some item
    enqueuedNext := none
    state := .buffering }

/-- The queue no longer buffering, unless a report said meanwhile what the player does. -/
def Queue.settle (q : Queue) (prior : PlayerState) : Queue :=
  if q.state = .buffering then { q with state := prior } else q

/-- The queue with the second it is at kept for resuming. -/
def Queue.keepPosition (q : Queue) (clock : Float) : Queue :=
  { q with resumePosition := Number.toUnsigned32 (q.elapsedAt clock) }

namespace Command

/-! ## Loading an item -/

/-- The media of an item as the library knows it; media without an image is looked up again. -/
def freshMedia (item : QueueItem) : Command (Option MediaItem) := do
  match item.media with
  | none => return none
  | some media =>
    match ← call (.libraryItem media) with
    | some known => return some known
    | none =>
      if media.image.isNone then
        match ← outcome (call (.itemByUri item.uri)) with
        | .ok full => return some full
        | .error _ => return some media
      else return some media

/-- An item of a list changed in place, and how it looks afterwards. -/
def updateItem (queueId itemId : String) (f : QueueItem → QueueItem) :
    Command (Option QueueItem) :=
  step fun _ h => h.updateItem queueId itemId f

/-- The stream of an item is looked up and kept with the item. -/
def loadItem (queueId : String) (item : QueueItem) (following : Option Nat) (isStart : Bool)
    (seek : UInt32) (fadeIn : Bool) : Command QueueItem := do
  let list ← items queueId
  let preferAlbumLoudness := (following.bind (list[·]?)).any item.sameAlbum
  let media ← freshMedia item
  let item := { item with media }
  let details ← call (.streamDetails item { seekPosition := seek, fadeIn, preferAlbumLoudness })
  let crossfade ← look fun _ h => h.config.crossfade queueId
  let details :=
    if crossfade then { details with stripSilenceEnd := true, stripSilenceBegin := !isStart }
    else details
  let item := { item with stream := some details }
  let _ ← updateItem queueId item.id fun i => { i with media := item.media, stream := item.stream }
  return item

/-- The item and the position that a key names. -/
def find (e : Entry) (key : ItemKey) : Command (Nat × QueueItem) := do
  let index ←
    match key with
    | .index index => pure index
    | .id id =>
      match indexOf? e.items id with
      | some index => pure index
      | none => throw (.unknownItem id)
  match e.items[index]? with
  | some item => return (index, item)
  | none => throw (.unknownIndex index)

/-- Media is sent to a player soon; a later request takes its place. -/
def dispatch (queueId : String) (item : QueueItem) (flow debounce : Bool) : Command Unit :=
  change fun o h =>
    let delay := if debounce then h.timings.playDebounce else h.timings.playDelay
    h.later o (Job.dispatchKey queueId) delay
      (.dispatch queueId (PlayerMedia.ofItem (o.streamUrl item flow) item flow))

/-- An item is loaded and sent to the player. -/
def playIndex (queueId : String) (key : ItemKey) (seek : UInt32) (fadeIn debounce : Bool) :
    Command Unit := do
  let e ← entry queueId
  let (index, item) ← find e key
  let flow ← look fun _ h => h.config.flowMode queueId
  let _ ← modifyQueue queueId (·.buffering index item flow)
  let seek :=
    if seek = 0 then ((item.media.bind (·.resumePositionMs)).map resumeSecond).getD 0 else seek
  let following := nextIndex e.items.length e.queue.repeatMode (some index) false false
  match ← outcome (loadItem queueId item following true seek fadeIn) with
  | .error failure =>
    let _ ← modifyQueue queueId (·.settle e.queue.state)
    if failure.isNotFound then
      let _ ← updateItem queueId item.id QueueItem.markUnavailable
    throw failure
  | .ok loaded =>
    let _ ← modifyQueue queueId fun q =>
      { q.settle e.queue.state with currentItem := some loaded }
    dispatch queueId loaded flow debounce
    signal queueId false

/-! ## Skipping -/

/-- The queue, if it is the one that feeds its player. -/
def activeQueue? (queueId : String) : Command (Option Queue) :=
  look fun _ h => (h.queue? queueId).filter (·.active)

/-- The following items are tried in turn, at most `tries` of them, until one plays. -/
def tryNext (queueId : String) (length : Nat) (mode : RepeatMode) :
    Nat → Option Nat → Command Unit
  | 0, _ => pure ()
  | tries + 1, cursor =>
    match nextIndex length mode cursor true true with
    | none => pure ()
    | some index => do
      match ← outcome (playIndex queueId (.index index) 0 false true) with
      | .ok () => pure ()
      | .error failure =>
        if failure.isNotFound then tryNext queueId length mode tries (some index)
        else throw failure

/-- The next item that can be played is played. -/
def next (queueId : String) : Command Unit := do
  match ← activeQueue? queueId with
  | none => pure ()
  | some q =>
    let length := (← items queueId).length
    tryNext queueId length q.repeatMode length q.currentIndex

/-- The item before the current one is played, or the first one again. -/
def previous (queueId : String) : Command Unit := do
  match (← activeQueue? queueId).bind (·.currentIndex) with
  | none => pure ()
  | some index => playIndex queueId (.index (index - 1)) 0 false true

/-- The current item is played from a second of it. -/
def seek (queueId : String) (position : Int) : Command Unit := do
  match ← look fun _ h => h.queue? queueId with
  | none => pure ()
  | some q =>
    match q.currentItem with
    | none => throw (.nothingLoaded q.displayName)
    | some item =>
      let duration := (item.duration.map UInt32.toNat).getD 0
      if duration = 0 then throw .seekWithoutDuration
      else if duration < position.toNat then throw .seekOutsideDuration
      else playIndex queueId (.id item.id) (UInt32.ofNat position.toNat) false false

/-- The current item is played from so many seconds later, or earlier. The sum wraps around at 64
bits. -/
def skip (queueId : String) (seconds : Int) : Command Unit := do
  match ← activeQueue? queueId with
  | none => pure ()
  | some q => seek queueId ((Number.toSigned64 q.elapsed + seconds).bmod UInt64.size)

/-! ## Stopping and resuming -/

/-- The player is stopped; a queue that feeds it keeps its position. -/
def stop (queueId : String) : Command Unit := do
  let clock ← look fun o _ => o.clock
  let _ ← modifyQueue queueId fun q => if q.active then q.keepPosition clock else q
  call (.stop queueId)

def pause (queueId : String) : Command Unit := do
  let clock ← look fun o _ => o.clock
  let _ ← modifyQueue queueId (·.keepPosition clock)
  call (.pause queueId)

/-- The item to resume and the second to resume it from. -/
def resumePoint (e : Entry) (clock : Float) : Option (QueueItem × Float) :=
  let kept :=
    if e.queue.state = .playing then e.queue.elapsedAt clock else e.queue.resumePosition.toFloat
  match e.queue.currentItem with
  | some item => some (item, if kept ≤ leastResume then 0 else kept)
  | none => (e.items[e.queue.currentIndex.getD 0]?).map fun item => (item, 0)

/-- The queue goes on where it was left. A player that is turned on by it fades in; live radio has
no position. -/
def resume (queueId : String) (fadeIn : Option Bool) : Command Unit := do
  let e ← entry queueId
  let clock ← look fun o _ => o.clock
  match resumePoint e clock with
  | none => throw (.nothingToResume e.queue.displayName)
  | some (item, position) =>
    let powered := (← report? queueId).any (·.powered)
    let fadeIn := fadeIn.getD (!powered && 0 < position)
    let position := if item.mediaType = .radio then 0 else position
    playIndex queueId (.id item.id) (Number.toUnsigned32 position) fadeIn false

/-- A paused player goes on; any other one resumes its queue. -/
def play (queueId : String) : Command Unit := do
  match ← report? queueId with
  | none => throw (.noQueue queueId)
  | some r =>
    let q ← queue queueId
    if q.active ∧ r.state = some .paused then call (.play queueId)
    else resume queueId none

def playPause (queueId : String) : Command Unit := do
  if (← queue queueId).state = .playing then pause queueId else play queueId

/-! ## Moving a queue -/

/-- The queue of the target with the settings and the position of the source. -/
def takeOver (source target : Queue) (targetId : String) : Queue :=
  { target with
    repeatMode := source.repeatMode
    shuffle := source.shuffle
    dontStop := source.dontStop
    radioSource := source.radioSource
    requested := source.requested
    resumePosition := Number.toUnsigned32 source.elapsed
    currentIndex := source.currentIndex
    currentItem := (source.currentItem.map (·.inQueue targetId)).orElse fun _ => target.currentItem }

/-- A player that follows others is taken out of its group first. -/
def leaveGroup (playerId : String) : Command Unit := do
  match (← report? playerId).bind fun r => r.activeGroup.orElse fun _ => r.syncedTo with
  | none => pure ()
  | some group =>
    call (.power group false)
    sleep (← look fun _ h => h.timings.groupDissolveDelay)

/-- A queue is moved to another player with its settings and its items. -/
def transfer (sourceId targetId : String) (autoPlay : Option Bool) : Command Unit := do
  let source ← queue sourceId
  let _ ← queue targetId
  leaveGroup targetId
  let list := (← items sourceId).map (·.inQueue targetId)
  let _ ← modifyQueue targetId fun target => takeOver source target targetId
  step fun o h => h.clear o sourceId
  step fun o h => h.load o targetId list .replacing
  if autoPlay.getD (source.state = .playing) then resume targetId none

/-- Every queue that plays or is paused is stopped, and nothing waits any more. -/
def stopAll : List Queue → Command Unit
  | [] => pure ()
  | q :: more => do
    if q.state = .playing ∨ q.state = .paused then
      let _ ← outcome (stop q.id)
    stopAll more

def shutdown : Command Unit := do
  change fun _ h => { h with schedule := h.schedule.cancelAll }
  stopAll (← look fun _ h => h.allQueues)

end Command

end Jukebox
