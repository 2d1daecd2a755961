import Jukebox.Proofs.Entries

/-!
# Acts

All that can happen to a hub at one instant, with the data that decides what it does: a change of
one queue or of one of its items, an edit of its list, a job that begins to wait or starts, a
report, a player that comes or goes. A command is a sequence of acts with waits in between, so a
property that every act keeps holds throughout every run. Acts, calls and jobs tell the queue that
they are for, if it is one only (`Act.target?`, `Call.player?`, `Job.queueId?`).
-/

namespace Jukebox

/-- A change of a queue by a command or a job; the items stay. -/
inductive QueueChange where
  /-- The queue buffers an item that is to be played. -/
  | buffer (index : Nat) (item : QueueItem) (flow : Bool)
  /-- The queue no longer buffers. -/
  | settle (prior : PlayerState)
  /-- The queue no longer buffers, and its current item was loaded. -/
  | arrive (prior : PlayerState) (loaded : QueueItem)
  | keepPosition (clock : Float) (onlyActive : Bool)
  /-- The settings and the position of another queue. -/
  | takeOver (source : Queue) (targetId : String)
  | remember (media : MediaItem)
  /-- All requests are forgotten. -/
  | forget
  | seed (option : EnqueueOption) (seeds : List MediaItem)
  | markFirst (first : Option QueueItem)
  /-- The player was handed an item to go on with. -/
  | handOver (itemId : String)
  /-- The claim on a preload ends. -/
  | release

def QueueChange.apply : QueueChange → Queue → Queue
  | buffer index item flow, q => q.buffering index item flow
  | settle prior, q => q.settle prior
  | arrive prior loaded, q => { q.settle prior with currentItem := some loaded }
  | keepPosition clock onlyActive, q =>
    if onlyActive && !q.active then q else q.keepPosition clock
  | takeOver source targetId, q => Command.takeOver source q targetId
  | remember media, q => q.remember media
  | forget, q => { q with requested := [] }
  | seed option seeds, q => Command.withSeeds q option seeds
  | markFirst first, q => { q with currentIndex := some 0, currentItem := first }
  | handOver itemId, q => { q with enqueuedNext := some itemId }
  | release, q => { q with preloading := none }

/-- A change of an item of a list. -/
inductive ItemChange where
  /-- The media and the stream of the item were looked up. -/
  | loaded (media : Option MediaItem) (stream : Option StreamDetails)
  | unavailable

def ItemChange.apply : ItemChange → QueueItem → QueueItem
  | loaded media stream, i => { i with media, stream }
  | unavailable, i => i.markUnavailable

inductive Act where
  | modify (queueId : String) (change : QueueChange)
  | updateItem (queueId itemId : String) (change : ItemChange)
  | load (queueId : String) (batch : List QueueItem) (options : LoadOptions)
  | moveItem (queueId itemId : String) (shift : Int)
  | deleteItem (queueId : String) (key : ItemKey)
  | clear (queueId : String)
  | startOver (queueId : String)
  | setShuffle (queueId : String) (enabled : Bool)
  | setRepeat (queueId : String) (mode : RepeatMode)
  | setDontStop (queueId : String) (enabled : Bool)
  | trackLoaded (queueId itemId : String)
  | logFlow (queueId : String) (entry : FlowEntry Float)
  | signal (queueId : String) (itemsChanged : Bool)
  | dispatch (queueId : String) (delay : Nat) (media : PlayerMedia)
  | recordContainer (media : MediaItem)
  | redraw (draws : Draws)
  | count (nextItem : Nat)
  | takeTurn
  | cancelAll
  /-- A waiting job starts. -/
  | begin (number : Nat)
  | report (r : PlayerReport)
  | register (r : PlayerReport)
  | remove (playerId : String)

/-- The hub after an act. -/
def Act.apply (o : Outside) (h : Hub) : Act → Hub
  | modify queueId change => h.modifyQueue queueId change.apply
  | updateItem queueId itemId change => (h.updateItem queueId itemId change.apply).2
  | load queueId batch options => (h.load o queueId batch options).2
  | moveItem queueId itemId shift => (h.moveItem o queueId itemId shift).2
  | deleteItem queueId key => (h.deleteItem o queueId key).2
  | clear queueId => (h.clear o queueId).2
  | startOver queueId => h.startOver queueId
  | setShuffle queueId enabled => (h.setShuffle o queueId enabled).2
  | setRepeat queueId mode => (h.setRepeat o queueId mode).2
  | setDontStop queueId enabled => (h.setDontStop o queueId enabled).2
  | trackLoaded queueId itemId => (h.trackLoaded o queueId itemId).2
  | logFlow queueId entry => (h.logFlow queueId entry).2
  | signal queueId itemsChanged => h.signal o queueId itemsChanged
  | dispatch queueId delay media =>
    h.later o (Job.dispatchKey queueId) delay (.dispatch queueId media)
  | recordContainer media => h.spawn o (.markPlayed (.ofContainer media))
  | redraw draws => { h with draws }
  | count nextItem => { h with nextItem }
  | takeTurn => { h with throttle := (h.throttle.acquire .background o.now).2 }
  | cancelAll => { h with schedule := h.schedule.cancelAll }
  | begin number => { h with schedule := h.schedule.remove number }
  | report r => h.onReport o r
  | register r => (h.onRegister o r).2
  | remove playerId => h.onRemove o playerId

/-! ## What acts, calls and jobs are for -/

/-- The queue or the player that an act names. -/
def Act.target? : Act → Option String
  | modify queueId _ => some queueId
  | updateItem queueId _ _ => some queueId
  | load queueId _ _ => some queueId
  | moveItem queueId _ _ => some queueId
  | deleteItem queueId _ => some queueId
  | clear queueId => some queueId
  | startOver queueId => some queueId
  | setShuffle queueId _ => some queueId
  | setRepeat queueId _ => some queueId
  | setDontStop queueId _ => some queueId
  | trackLoaded queueId _ => some queueId
  | logFlow queueId _ => some queueId
  | signal queueId _ => some queueId
  | dispatch queueId _ _ => some queueId
  | report r => some r.playerId
  | register r => some r.playerId
  | remove playerId => some playerId
  | _ => none

/-- The player that a call tells to do something. -/
def Call.player? : Call → Option String
  | playMedia playerId _ => some playerId
  | enqueueNext playerId _ => some playerId
  | play playerId => some playerId
  | pause playerId => some playerId
  | stop playerId => some playerId
  | power playerId _ => some playerId
  | _ => none

/-- The queue that a job is for. -/
def Job.queueId? : Job → Option String
  | dispatch queueId _ => some queueId
  | preload queueId _ => some queueId
  | fillRadio queueId => some queueId
  | clearCheck queueId => some queueId
  | stop queueId => some queueId
  | _ => none

/-- Whether no other queue than a certain one is named. -/
def NamesOnly (queueId : String) : Option String → Prop
  | some named => named = queueId
  | none => True

theorem exists_namesOnly (named? : Option String) : ∃ queueId, NamesOnly queueId named? := by
  cases named? with
  | some named => exact ⟨named, rfl⟩
  | none => exact ⟨"", trivial⟩

end Jukebox
