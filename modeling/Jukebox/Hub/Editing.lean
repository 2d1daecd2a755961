import Jukebox.Hub.Registry

/-!
# Editing queues

The commands that change the items and the settings of a queue. Each takes effect at once, and is
published and stored when it changed something.
-/

namespace Jukebox.Hub

/-- What a command did: its outcome and the hub after it. -/
abbrev Outcome (α : Type) : Type := Except Failure α × Hub

/-- A list edited by `f`: a failure or nothing to do leave it alone. -/
def edit (h : Hub) (o : Outside) (queueId : String)
    (f : Queue → List QueueItem → Except Failure (Option (List QueueItem))) : Outcome Unit :=
  match h.entry? queueId with
  | none => (.error (.noQueue queueId), h)
  | some e =>
    match f e.queue e.items with
    | .error failure => (.error failure, h.putItems queueId e.queue e.items)
    | .ok none => (.ok (), h.putItems queueId e.queue e.items)
    | .ok (some items) => (.ok (), h.commit o queueId e.queue items)

/-- A batch is spliced into the list. -/
def load (h : Hub) (o : Outside) (queueId : String) (batch : List QueueItem)
    (options : LoadOptions) : Outcome Unit :=
  match h.entry? queueId with
  | none => (.error (.noQueue queueId), h)
  | some e =>
    let (items, draws) := Edit.splice h.draws e.items batch options
    (.ok (), { h with draws }.commit o queueId e.queue items)

def moveItem (h : Hub) (o : Outside) (queueId itemId : String) (shift : Int) : Outcome Unit :=
  h.edit o queueId fun q items => Edit.move q items itemId shift

def deleteItem (h : Hub) (o : Outside) (queueId : String) (key : ItemKey) : Outcome Unit :=
  h.edit o queueId fun q items => Edit.delete q items key

/-- A queue without items, position and radio. -/
def cleared (q : Queue) : Queue :=
  { q with
    radioSource := []
    currentIndex := none
    currentItem := none
    nextItem := none
    elapsed := 0
    bufferedIndex := none
    enqueuedNext := none }

/-- All items are dropped; tells what the queue did before. -/
def clearItems (h : Hub) (o : Outside) (queueId : String) : Outcome PlayerState :=
  match h.entry? queueId with
  | none => (.error (.noQueue queueId), h)
  | some e =>
    (.ok e.queue.state, (h.putItems queueId (cleared e.queue) []).signal o queueId true)

/-- All items are dropped, and a queue that was not idle is stopped soon after. -/
def clear (h : Hub) (o : Outside) (queueId : String) : Outcome Unit :=
  match h.clearItems o queueId with
  | (.error failure, h) => (.error failure, h)
  | (.ok .idle, h) => (.ok (), h)
  | (.ok _, h) => (.ok (), h.spawn o (.stop queueId))

/-- Shuffling the upcoming items on or off. -/
def setShuffle (h : Hub) (o : Outside) (queueId : String) (enabled : Bool) : Outcome Unit :=
  match h.entry? queueId with
  | none => (.error (.noQueue queueId), h)
  | some e =>
    if e.queue.shuffle = enabled then (.ok (), h.putItems queueId e.queue e.items)
    else
      let (items, draws) := Edit.reorder h.draws e.queue e.items enabled
      (.ok (), { h with draws }.commit o queueId { e.queue with shuffle := enabled } items)

def setRepeat (h : Hub) (o : Outside) (queueId : String) (mode : RepeatMode) : Outcome Unit :=
  match h.queue? queueId with
  | none => (.error (.noQueue queueId), h)
  | some q =>
    if q.repeatMode = mode then (.ok (), h)
    else
      (.ok (), (h.modifyQueue queueId fun q => { q with repeatMode := mode }).signal o queueId false)

/-- Radio tracks are to be added soon; asking again starts the wait over. -/
def scheduleRadio (h : Hub) (o : Outside) (queueId : String) : Hub :=
  h.later o (Job.fillRadioKey queueId) h.timings.radioFillDelay (.fillRadio queueId)

/-- The requests of a queue become what its radio starts from. -/
def adoptRequests (h : Hub) (queueId : String) : Hub :=
  h.modifyQueue queueId fun q => { q with radioSource := q.requested }

/-- Going on by itself is turned on or off; radio begins at once when the queue is about to end. -/
def setDontStop (h : Hub) (o : Outside) (queueId : String) (enabled : Bool) : Outcome Unit :=
  if enabled ∧ !o.similarSupported then (.error .dontStopUnsupported, h)
  else
    match h.queue? queueId with
    | none => (.error (.noQueue queueId), h)
    | some q =>
      let h := (h.modifyQueue queueId fun q => { q with dontStop := enabled }).signal o queueId false
      if enabled ∧ !q.requested.isEmpty ∧ q.remaining?.any (· ≤ 1) then
        (.ok (), (h.adoptRequests queueId).scheduleRadio o queueId)
      else (.ok (), h)

/-- A player began to load an item. -/
def trackLoaded (h : Hub) (o : Outside) (queueId itemId : String) : Outcome Unit :=
  match h.entry? queueId with
  | none => (.error (.noQueue queueId), h)
  | some e =>
    let index := indexOf? e.items itemId
    (.ok (), (h.modifyQueue queueId fun q => { q with bufferedIndex := index }).signal o queueId false)

/-- An entry is added to the log of the continuous stream; other queues keep none. -/
def logFlow (h : Hub) (queueId : String) (entry : FlowEntry Float) : Outcome Unit :=
  match h.queue? queueId with
  | none => (.error (.noQueue queueId), h)
  | some _ =>
    (.ok (), h.modifyQueue queueId fun q =>
      if q.flowMode then { q with flowLog := q.flowLog ++ [entry] } else q)

/-! ## Which queue feeds a player -/

/-- How many links between players are followed. -/
def linkLimit : Nat := 5

/-- The player that another one follows, if that is not itself. -/
def leader? (r : PlayerReport) (playerId : String) : Option String :=
  match r.syncedTo.filter (· ≠ playerId) with
  | some leader => some leader
  | none => r.activeGroup.filter (· ≠ playerId)

/-- A player's own queue. -/
def ownQueue? (h : Hub) (playerId : String) : Option String :=
  if h.contains playerId then some playerId else none

/-- The id of the queue that feeds a player, reached by at most `links` more links. -/
def activeQueueId? (h : Hub) (o : Outside) : Nat → String → Option String
  | links, playerId =>
    match o.report? playerId with
    | none => h.ownQueue? playerId
    | some r =>
      match links, leader? r playerId with
      | links + 1, some leader => h.activeQueueId? o links leader
      | _, _ =>
        match r.activeSource.filter h.contains with
        | some source => some source
        | none => h.ownQueue? playerId

/-- The queue that feeds a player. -/
def activeQueue? (h : Hub) (o : Outside) (playerId : String) : Option Queue :=
  (h.activeQueueId? o linkLimit playerId).bind h.queue?

end Jukebox.Hub
