import Jukebox.Queue.Basic

/-!
# Events

What the hub tells about its queues, and the channel on which listeners hear it. A listener hears
what was published after it subscribed; the channel keeps the latest events only, and a listener
that falls behind misses the older ones.
-/

namespace Jukebox

/-- An item that a player finished or left. -/
structure Played where
  queueId : String
  itemId : String
  media : MediaItem
  seconds : UInt32
  /-- Whether it was played but for the last few seconds. -/
  fully : Bool
  deriving Repr, Inhabited

inductive Event where
  | queueAdded (queue : Queue)
  | queueUpdated (queue : Queue)
  | itemsUpdated (queueId : String) (count : Nat)
  | timeUpdated (queueId : String) (elapsed : Float)
  | mediaPlayed (played : Played)
  deriving Repr, Inhabited

namespace Event

/-- The queue that an event is about. -/
def queueId : Event → String
  | queueAdded q => q.id
  | queueUpdated q => q.id
  | itemsUpdated id _ => id
  | timeUpdated id _ => id
  | mediaPlayed p => p.queueId

/-- The record that is sent to listeners outside the program. -/
def toJson : Event → Json
  | queueAdded q => .object [("kind", .text "queue_added"), ("queue_id", encode q.id),
      ("queue", encode q)]
  | queueUpdated q => .object [("kind", .text "queue_updated"), ("queue_id", encode q.id),
      ("queue", encode q)]
  | itemsUpdated id count => .object [("kind", .text "items_updated"), ("queue_id", encode id),
      ("items", encode count)]
  | timeUpdated id elapsed => .object [("kind", .text "time_updated"), ("queue_id", encode id),
      ("elapsed_time", encode elapsed)]
  | mediaPlayed p => .object [("kind", .text "media_item_played"), ("queue_id", encode p.queueId),
      ("queue_item_id", encode p.itemId), ("media_item", encode p.media),
      ("seconds_played", encode p.seconds), ("fully_played", encode p.fully)]

end Event

/-- A channel with all events published on it, and how many of them each listener has passed. -/
structure Channel where
  published : List Event := []
  listeners : List Nat := []
  deriving Inhabited

namespace Channel

/-- How many events are kept for listeners. -/
def capacity : Nat := 64

def publish (c : Channel) (e : Event) : Channel := { c with published := c.published ++ [e] }

/-- The channel with one more listener, numbered in order from zero. -/
def subscribe (c : Channel) : Channel :=
  { c with listeners := c.listeners ++ [c.published.length] }

/-- The events that wait for a listener, and the channel after it heard them. -/
def hear (c : Channel) (listener : Nat) : List Event × Channel :=
  match c.listeners[listener]? with
  | none => ([], c)
  | some passed =>
    let waiting := c.published.drop passed
    (waiting.drop (waiting.length - capacity),
      { c with listeners := c.listeners.set listener c.published.length })

end Channel

end Jukebox
