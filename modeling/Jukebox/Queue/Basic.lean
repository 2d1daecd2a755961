import Jukebox.Player
import Jukebox.Queue.Item
import Jukebox.Number.Binary

/-!
# Queues

The queue of a player: its position, its settings, and what it needs to go on by itself. The list
of its items is kept beside it.
-/

namespace Jukebox

/-- What follows the last item, and the current one. -/
inductive RepeatMode where
  | off
  | one
  | all
  deriving DecidableEq, Repr, Inhabited

def RepeatMode.name : RepeatMode → String
  | .off => "off"
  | .one => "one"
  | .all => "all"

def RepeatMode.cases : List RepeatMode := [.off, .one, .all]

instance : Coded RepeatMode where
  encode m := .text m.name
  decode := Json.decodeName (RepeatMode.cases.map fun m => (m.name, m))

/-- Where requested media goes and whether it starts to play. -/
inductive EnqueueOption where
  | play
  | replace
  | next
  | replaceNext
  | add
  deriving DecidableEq, Repr, Inhabited

def EnqueueOption.name : EnqueueOption → String
  | .play => "play"
  | .replace => "replace"
  | .next => "next"
  | .replaceNext => "replace_next"
  | .add => "add"

def EnqueueOption.cases : List EnqueueOption := [.play, .replace, .next, .replaceNext, .add]

def EnqueueOption.named : List (String × EnqueueOption) :=
  EnqueueOption.cases.map fun o => (o.name, o)

instance : Coded EnqueueOption where
  encode o := .text o.name
  decode := Json.decodeName EnqueueOption.named

/-- An item put into a continuous stream: its nominal length and the seconds really streamed, once
they are known. The seconds are floats in a queue and may be exact elsewhere. -/
structure FlowEntry (τ : Type) where
  itemId : String
  duration : Option UInt32 := none
  streamed : Option τ := none
  deriving Repr, Inhabited

instance : Coded (FlowEntry Float) where
  encode e := .object [("queue_item_id", encode e.itemId), ("duration", encode e.duration),
    ("seconds_streamed", encode e.streamed)]
  decode j := do
    match ← Json.parts ["queue_item_id", "duration", "seconds_streamed"] j with
    | [itemId, duration, streamed] =>
      return {
        itemId := ← itemId.required
        duration := ← duration.optional
        streamed := ← streamed.optional }
    | _ => none

/-- The queue of a player. -/
structure Queue where
  id : String
  /-- Whether the queue feeds its player. -/
  active : Bool := false
  displayName : String
  available : Bool
  state : PlayerState := .idle
  shuffle : Bool := false
  repeatMode : RepeatMode := .off
  currentIndex : Option Nat := none
  /-- The furthest position whose stream started to load into the player. -/
  bufferedIndex : Option Nat := none
  currentItem : Option QueueItem := none
  nextItem : Option QueueItem := none
  /-- The seconds played of the current item. -/
  elapsed : Float := 0
  /-- When the elapsed time was taken, in seconds of the wall clock. -/
  elapsedUpdated : Float := 0
  /-- The second to resume from. -/
  resumePosition : UInt32 := 0
  /-- Whether the player renders one continuous stream. -/
  flowMode : Bool := false
  flowLog : List (FlowEntry Float) := []
  /-- The item that the player was already handed to go on with. -/
  enqueuedNext : Option String := none
  /-- The item that a running preload is claimed for; it is not stored. -/
  preloading : Option String := none
  radioSource : List MediaItem := []
  /-- The latest requests, the oldest first. -/
  requested : List MediaItem := []
  dontStop : Bool := false
  itemCount : Nat := 0
  deriving Repr, Inhabited

instance : Coded Queue where
  encode q := .object [("queue_id", encode q.id), ("active", encode q.active),
    ("display_name", encode q.displayName), ("available", encode q.available),
    ("state", encode q.state), ("shuffle_enabled", encode q.shuffle),
    ("repeat_mode", encode q.repeatMode), ("current_index", encode q.currentIndex),
    ("index_in_buffer", encode q.bufferedIndex), ("current_item", encode q.currentItem),
    ("next_item", encode q.nextItem), ("elapsed_time", encode q.elapsed),
    ("elapsed_time_last_updated", encode q.elapsedUpdated),
    ("resume_pos", encode q.resumePosition), ("flow_mode", encode q.flowMode),
    ("flow_mode_stream_log", encode q.flowLog), ("next_track_enqueued", encode q.enqueuedNext),
    ("radio_source", encode q.radioSource), ("enqueued_media_items", encode q.requested),
    ("dont_stop_the_music_enabled", encode q.dontStop), ("items", encode q.itemCount)]
  decode j := do
    match ← Json.parts ["queue_id", "active", "display_name", "available", "state",
      "shuffle_enabled", "repeat_mode", "current_index", "index_in_buffer", "current_item",
      "next_item", "elapsed_time", "elapsed_time_last_updated", "resume_pos", "flow_mode",
      "flow_mode_stream_log", "next_track_enqueued", "radio_source", "enqueued_media_items",
      "dont_stop_the_music_enabled", "items"] j with
    | [id, active, displayName, available, state, shuffle, repeatMode, currentIndex,
        bufferedIndex, currentItem, nextItem, elapsed, elapsedUpdated, resumePosition, flowMode,
        flowLog, enqueuedNext, radioSource, requested, dontStop, itemCount] =>
      return {
        id := ← id.required
        active := ← active.required
        displayName := ← displayName.required
        available := ← available.required
        state := ← state.orElse .idle
        shuffle := ← shuffle.required
        repeatMode := ← repeatMode.required
        currentIndex := ← currentIndex.optional
        bufferedIndex := ← bufferedIndex.optional
        currentItem := ← currentItem.optional
        nextItem := ← nextItem.orElse none
        elapsed := ← elapsed.required
        elapsedUpdated := ← elapsedUpdated.required
        resumePosition := ← resumePosition.required
        flowMode := ← flowMode.required
        flowLog := ← flowLog.orElse []
        enqueuedNext := ← enqueuedNext.orElse none
        radioSource := ← radioSource.required
        requested := ← requested.required
        dontStop := ← dontStop.required
        itemCount := ← itemCount.required }
    | _ => none

/-- How many requests a queue remembers. -/
def requestLimit : Nat := 10

namespace Queue

/-- An empty queue for a player. -/
def empty (id displayName : String) (available : Bool) : Queue := { id, displayName, available }

/-- The elapsed seconds at a time: while playing they went on since they were taken. -/
def elapsedAt (q : Queue) (now : Float) : Float :=
  if q.state = .playing ∧ 0 < q.elapsedUpdated then
    let since := now - q.elapsedUpdated
    q.elapsed + (if 0 < since then since else 0)
  else q.elapsed

/-- The queue with a request remembered; the oldest ones beyond the limit are forgotten. -/
def remember (q : Queue) (media : MediaItem) : Queue :=
  let requested := q.requested ++ [media]
  { q with requested := requested.drop (requested.length - requestLimit) }

/-- The number of items from the current one to the end. -/
def remaining? (q : Queue) : Option Nat := q.currentIndex.map (q.itemCount - ·)

/-- Whether a position was played or handed to the player. -/
def isBuffered (q : Queue) (index : Nat) : Bool := q.bufferedIndex.any (index ≤ ·)

/-- Where new items go: right behind the playing or buffered item. -/
def insertIndex (q : Queue) (hasItems : Bool) : Nat :=
  if hasItems then
    match q.state with
    | .playing => q.bufferedIndex.getD 0 + 1
    | .paused => q.bufferedIndex.getD 0 + 1
    | _ => q.currentIndex.getD 0 + 1
  else 0

theorem length_requested_remember (q : Queue) (media : MediaItem) :
    (q.remember media).requested.length ≤ requestLimit := by
  simp [remember]; omega

end Queue

end Jukebox
