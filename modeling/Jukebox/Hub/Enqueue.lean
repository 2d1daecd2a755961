import Jukebox.Hub.Playback
import Jukebox.Hub.Radio

/-!
# Enqueueing requested media

A request names media by uri or gives it directly. What it expands to goes into the queue as the
option says; what can not be resolved is left out, and the request fails when nothing is left.
-/

namespace Jukebox

/-- Requested media: the uri of an item of the catalog, or an item. -/
inductive MediaRef where
  | uri (uri : String)
  | item (item : MediaItem)
  deriving Repr, Inhabited

/-- What was gathered for a request: how it is enqueued, once that is known, the items, and the
seeds for radio. -/
structure Gathered where
  option : Option EnqueueOption
  media : List MediaItem := []
  seeds : List MediaItem := []
  deriving Inhabited

/-- Whether a queue came to its end: idle at or behind its last item, but not at the first. -/
def Queue.isFinished (q : Queue) (length : Nat) : Bool :=
  q.state = .idle && q.currentIndex.any fun index => 0 < index && length ≤ index + 1

/-- Whether an option adds to what a queue was asked for before. -/
def EnqueueOption.appends (o : EnqueueOption) : Bool := o = .add || o = .next

/-- The hub with an empty list in a queue that came to its end. -/
def Hub.startOver (h : Hub) (queueId : String) : Hub :=
  match h.entry? queueId with
  | none => h
  | some e =>
    if e.queue.isFinished e.items.length then
      h.putItems queueId { e.queue with currentIndex := none, currentItem := none } []
    else h

namespace Command

/-- New queue items for the available media. -/
def newItems (queueId : String) (media : List MediaItem) : Command (List QueueItem) :=
  step fun _ h =>
    let available := media.filter (·.available)
    let fresh := available.mapIdx fun n m =>
      QueueItem.ofMedia ("qi" ++ toString (h.nextItem + n)) queueId m
    (.ok fresh, { h with nextItem := h.nextItem + available.length })

/-- The media that a reference names, `none` when the catalog does not give it. -/
def resolve (ref : MediaRef) : Command (Option MediaItem) :=
  match ref with
  | .item m => return some m
  | .uri uri => do
    match ← outcome (itemByUri .interactive uri) with
    | .ok m => return some m
    | .error _ => return none

/-- How media is enqueued when the request does not say; replacing clears the queue at once. -/
def chooseOption (queueId : String) (m : MediaItem) : Option EnqueueOption → Command EnqueueOption
  | some option => return option
  | none => do
    let option ← look fun _ h => h.config.defaultOption m.mediaType
    if option = .replace then step fun o h => h.clear o queueId
    return option

/-- One item of a request: it is remembered, and expanded or taken as a seed for radio. -/
def gatherItem (queueId : String) (radio : Bool) (start : Option String) (g : Gathered)
    (m : MediaItem) : Command Gathered := do
  if m.seedsRadio then
    let _ ← modifyQueue queueId (·.remember m)
  let option ← chooseOption queueId m g.option
  let g := { g with option := some option }
  if radio then return { g with seeds := g.seeds ++ [m] }
  else
    match ← outcome (expand .interactive m start) with
    | .ok expanded => return { g with media := g.media ++ expanded }
    | .error _ => return g

/-- The references of a request in order; those that can not be resolved are left out. -/
def gather (queueId : String) (radio : Bool) (start : Option String) (g : Gathered) :
    List MediaRef → Command Gathered
  | [] => return g
  | ref :: more => do
    match ← resolve ref with
    | none => gather queueId radio start g more
    | some m => gather queueId radio start (← gatherItem queueId radio start g m) more

/-- A finished queue starts over. -/
def startOver (queueId : String) : Command Unit := change fun _ h => h.startOver queueId

def load (queueId : String) (batch : List QueueItem) (options : LoadOptions) : Command Unit :=
  step fun o h => h.load o queueId batch options

/-- The first item becomes the current one of a queue that has none. -/
def markFirst (queueId : String) : Command Unit := do
  let first := (← items queueId)[0]?
  let _ ← modifyQueue queueId fun q => { q with currentIndex := some 0, currentItem := first }
  signal queueId false

/-- New items are put into the list as the option says, and played if it says so. -/
def place (queueId : String) (option : EnqueueOption) (batch : List QueueItem) (radio : Bool) :
    Command Unit := do
  let e ← entry queueId
  let insertAt := e.queue.insertIndex (!e.items.isEmpty)
  let shuffle := e.queue.shuffle && decide (1 < batch.length) && !radio
  match option with
  | .replace =>
    load queueId batch { LoadOptions.replacing with shuffle }
    playIndex queueId (.index 0) 0 false false
  | .next => load queueId batch { insertAt, shuffle }
  | .replaceNext => load queueId batch { insertAt, keepRemaining := false, shuffle }
  | .play =>
    load queueId batch { insertAt, shuffle }
    let length := (← items queueId).length
    playIndex queueId (.index (min insertAt (length - 1))) 0 false false
  | .add =>
    let last := if e.queue.shuffle then insertAt else e.items.length
    load queueId batch { insertAt := last, shuffle := e.queue.shuffle }
    if e.queue.currentIndex.isNone then markFirst queueId

/-- The seeds of a request become, or join, what the radio of the queue starts from. -/
def withSeeds (q : Queue) (option : EnqueueOption) (seeds : List MediaItem) : Queue :=
  { q with radioSource := if option.appends then q.radioSource ++ seeds else seeds }

/-- Requested media is enqueued. During an announcement nothing happens. -/
def playMedia (queueId : String) (media : List MediaRef) (option : Option EnqueueOption)
    (radio : Bool) (start : Option String) : Command Unit := do
  let _ ← queue queueId
  match ← report? queueId with
  | none => throw (.noQueue queueId)
  | some r =>
    if r.announcementInProgress then return
    startOver queueId
    if option = some .replace then step fun o h => h.clear o queueId
    if !(option.any (·.appends)) then
      let _ ← modifyQueue queueId fun q => { q with requested := [] }
    let g ← gather queueId radio start { option } media
    let option := g.option.getD .play
    let q ← modifyQueue queueId fun q => withSeeds q option g.seeds
    let media ←
      if radio then radioBatch .interactive (withSeeds q option g.seeds).radioSource true
      else pure g.media
    let batch ← newItems queueId media
    if batch.isEmpty then throw .nothingPlayable
    place queueId option batch radio

/-- Radio tracks are added to the end of the list. -/
def fillRadio (queueId : String) : Command Unit := do
  let q ← queue queueId
  let tracks ← radioBatch .background q.radioSource false
  if tracks.isEmpty then return
  let batch ← newItems queueId tracks
  load queueId batch { insertAt := (← items queueId).length }

end Command

end Jukebox
