import Jukebox.Collaborator
import Jukebox.Config
import Jukebox.Draws
import Jukebox.Event
import Jukebox.Queue.Observation
import Jukebox.Schedule
import Jukebox.Store
import Jukebox.Throttle

/-!
# The state of the hub

Everything the hub keeps: the queues with their items, what was published, the jobs that wait, and
the stored snapshots. It is plain data, and every step of the hub is a function on it.
-/

namespace Jukebox

/-- Work that the hub does by itself. -/
inductive Job where
  /-- Sends media to a player. -/
  | dispatch (queueId : String) (media : PlayerMedia)
  /-- Hands a player the item behind its current one. -/
  | preload (queueId currentItemId : String)
  | fillRadio (queueId : String)
  /-- Clears a queue that stays finished. -/
  | clearCheck (queueId : String)
  | stop (queueId : String)
  | markPlayed (report : PlayedReport)
  | streamed (details : StreamDetails) (seconds : UInt32) (fully : Bool)
  deriving Repr, Inhabited

namespace Job

/-! ## Keys of the jobs that wait -/

def dispatchKey (queueId : String) : String := "play_media_" ++ queueId

def preloadKey (queueId : String) : String := "preload_next_item_" ++ queueId

def fillRadioKey (queueId : String) : String := "fill_radio_tracks_" ++ queueId

def clearCheckKey (queueId : String) : String := "clear_queue_" ++ queueId

end Job

/-- A registered queue with its items and what was last seen of it. -/
structure Entry where
  queue : Queue
  items : List QueueItem := []
  remembered : Option Observation := none
  deriving Repr, Inhabited

/-- What a step of the hub can see of the world at its instant. -/
structure Outside where
  /-- Milliseconds since the start. -/
  now : Nat
  /-- The wall clock in seconds. -/
  clock : Float
  /-- The latest report of each known player. -/
  report? : String → Option PlayerReport
  /-- Whether any source knows similar tracks. -/
  similarSupported : Bool
  /-- Where a player fetches an item, or the continuous stream that begins with it. -/
  streamUrl : QueueItem → Bool → String
  faults : StoreFaults

structure Hub where
  config : Config := {}
  queues : Table Entry := {}
  /-- All events published so far, the oldest first. -/
  events : List Event := []
  schedule : Schedule Job := {}
  throttle : Throttle := ⟨0, none⟩
  store : Store := {}
  draws : Draws
  /-- The number of the next item made. -/
  nextItem : Nat := 1
  deriving Inhabited

namespace Hub

/-- A hub without queues. -/
def start (config : Config) (store : Store) (draws : Draws) (nextItem : Nat) : Hub :=
  { config, store, draws, nextItem, throttle := ⟨config.timings.catalogInterval, none⟩ }

def timings (h : Hub) : Timings := h.config.timings

/-! ## Looking up -/

def entry? (h : Hub) (queueId : String) : Option Entry := h.queues.get? queueId

def queue? (h : Hub) (queueId : String) : Option Queue := (h.entry? queueId).map (·.queue)

def contains (h : Hub) (queueId : String) : Bool := (h.entry? queueId).isSome

/-- The items of a queue, none for an unknown one. -/
def items (h : Hub) (queueId : String) : List QueueItem :=
  ((h.entry? queueId).map (·.items)).getD []

def remembered? (h : Hub) (queueId : String) : Option Observation :=
  (h.entry? queueId).bind (·.remembered)

/-- All queues, ordered by the ids that they hold. -/
def allQueues (h : Hub) : List Queue :=
  (h.queues.values.map (·.queue)).mergeSort fun a b => !(b.id < a.id)

/-- A page of the items of a queue. -/
def itemsPage (h : Hub) (queueId : String) (limit offset : Nat) : List QueueItem :=
  ((h.items queueId).drop offset).take limit

/-! ## Changing -/

def putEntry (h : Hub) (queueId : String) (e : Entry) : Hub :=
  { h with queues := h.queues.insert queueId e }

/-- An entry changed in place; nothing happens to an unknown queue. -/
def modifyEntry (h : Hub) (queueId : String) (f : Entry → Entry) : Hub :=
  match h.entry? queueId with
  | some e => h.putEntry queueId (f e)
  | none => h

def modifyQueue (h : Hub) (queueId : String) (f : Queue → Queue) : Hub :=
  h.modifyEntry queueId fun e => { e with queue := f e.queue }

def publish (h : Hub) (e : Event) : Hub := { h with events := h.events ++ [e] }

/-- A job scheduled under a key after a delay. -/
def later (h : Hub) (o : Outside) (key : String) (delay : Nat) (job : Job) : Hub :=
  { h with schedule := h.schedule.later key (o.now + delay) job }

/-- A job that is to start now. -/
def spawn (h : Hub) (o : Outside) (job : Job) : Hub :=
  { h with schedule := h.schedule.spawn o.now job }

end Hub

end Jukebox
