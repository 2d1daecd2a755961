import Jukebox.Hub.Jobs
import Jukebox.Hub.Reports

/-!
# Entries and jobs after an operation

What the operations of the hub do to its entries and to the jobs that wait. The entries are seen
through `entry?`, one equation for an operation; later proofs rewrite with these and do not open
the operations.
-/

namespace Jukebox

/-! ## Stores -/

namespace Store

theorem get?_set (s : Store) (base key value other name : String) :
    (s.set base key value).get? other name =
      if other = base ∧ name = key then some value else s.get? other name := by
  unfold get? set
  rw [Table.get?_insert]
  by_cases hother : other = base
  · rw [if_pos hother, Option.bind_some, Table.get?_insert, hother]
    by_cases hname : name = key
    · simp [hname]
    · cases s.bases.get? base <;> simp [hname]
  · simp [hother]

theorem get?_delete (s : Store) (base other name : String) :
    (s.delete base).get? other name = if other = base then none else s.get? other name := by
  unfold get? delete
  by_cases hother : other = base <;> simp [hother]

end Store

/-! ## Lists -/

theorem lt_length_of_indexOf? {items : List QueueItem} {itemId : String} {index : Nat}
    (h : indexOf? items itemId = some index) : index < items.length :=
  (List.findIdx?_eq_some_iff_getElem.1 h).1

/-- An item that is found by its id is at the place that is found for it. -/
theorem getElem?_of_indexOf? {items : List QueueItem} {itemId : String} {index : Nat}
    {item : QueueItem} (hindex : indexOf? items itemId = some index)
    (hitem : items.find? (fun i => i.id = itemId) = some item) : items[index]? = some item := by
  rw [List.find?_eq_getElem?_findIdx, List.findIdx_eq_getD_findIdx?] at hitem
  unfold indexOf? at hindex
  rw [hindex] at hitem
  exact hitem

/-! ## A quiet world -/

/-- A world in which no player is known and nothing fails. -/
def Outside.quiet : Outside :=
  { now := 0
    clock := 0
    report? := fun _ => none
    similarSupported := false
    streamUrl := fun _ _ => ""
    faults := .none }

namespace Hub

variable (h : Hub) (o : Outside) (queueId other : String)

/-! ## Entries -/

@[simp] theorem entry?_putEntry (e : Entry) :
    entry? (h.putEntry queueId e) other = if other = queueId then some e else h.entry? other :=
  Table.get?_insert h.queues queueId other e

@[simp] theorem entry?_modifyEntry (f : Entry → Entry) :
    entry? (h.modifyEntry queueId f) other =
      if other = queueId then (h.entry? other).map f else h.entry? other := by
  unfold modifyEntry
  by_cases ho : other = queueId
  · subst ho
    cases he : h.entry? other <;> simp [he]
  · cases he : h.entry? queueId <;> simp [ho]

@[simp] theorem entry?_modifyQueue (f : Queue → Queue) :
    entry? (h.modifyQueue queueId f) other =
      if other = queueId then (h.entry? other).map fun e => { e with queue := f e.queue }
      else h.entry? other :=
  h.entry?_modifyEntry queueId other _

@[simp] theorem entry?_draws (d : Draws) :
    entry? ({ h with draws := d }) other = h.entry? other := rfl

@[simp] theorem entry?_publish (e : Event) : entry? (h.publish e) other = h.entry? other := rfl

@[simp] theorem entry?_later (key : String) (delay : Nat) (job : Job) :
    entry? (h.later o key delay job) other = h.entry? other := rfl

@[simp] theorem entry?_spawn (job : Job) : entry? (h.spawn o job) other = h.entry? other := rfl

@[simp] theorem entry?_persist (itemsChanged : Bool) :
    entry? (h.persist o queueId itemsChanged) other = h.entry? other := by
  unfold persist
  cases h.entry? queueId <;> rfl

@[simp] theorem entry?_signal (itemsChanged : Bool) :
    entry? (h.signal o queueId itemsChanged) other = h.entry? other := by
  unfold signal
  cases h.queue? queueId
  · rfl
  · cases itemsChanged <;> simp

@[simp] theorem entry?_putItems (q : Queue) (items : List QueueItem) :
    entry? (h.putItems queueId q items) other =
      if other = queueId then
        (h.entry? other).map fun e =>
          { e with queue := { q with itemCount := items.length }, items }
      else h.entry? other :=
  h.entry?_modifyEntry queueId other _

@[simp] theorem entry?_commit (q : Queue) (items : List QueueItem) :
    entry? (h.commit o queueId q items) other =
      if other = queueId then
        (h.entry? other).map fun e =>
          { e with queue := { q with enqueuedNext := none, itemCount := items.length }, items }
      else h.entry? other := by
  simp [commit]

theorem queue?_eq_map : h.queue? queueId = (h.entry? queueId).map (·.queue) := rfl

theorem items_eq_of_entry {e : Entry} (he : h.entry? queueId = some e) :
    h.items queueId = e.items := by
  simp [items, he]

/-! ## Jobs that wait -/

@[simp] theorem schedule_modifyEntry (f : Entry → Entry) :
    (h.modifyEntry queueId f).schedule = h.schedule := by
  unfold modifyEntry
  cases h.entry? queueId <;> rfl

@[simp] theorem schedule_modifyQueue (f : Queue → Queue) :
    (h.modifyQueue queueId f).schedule = h.schedule :=
  h.schedule_modifyEntry queueId _

@[simp] theorem schedule_publish (e : Event) : (h.publish e).schedule = h.schedule := rfl

@[simp] theorem schedule_later (key : String) (delay : Nat) (job : Job) :
    (h.later o key delay job).schedule = h.schedule.later key (o.now + delay) job := rfl

@[simp] theorem schedule_spawn (job : Job) :
    (h.spawn o job).schedule = h.schedule.spawn o.now job := rfl

@[simp] theorem schedule_persist (itemsChanged : Bool) :
    (h.persist o queueId itemsChanged).schedule = h.schedule := by
  unfold persist
  cases h.entry? queueId <;> rfl

@[simp] theorem schedule_signal (itemsChanged : Bool) :
    (h.signal o queueId itemsChanged).schedule = h.schedule := by
  unfold signal
  cases h.queue? queueId
  · rfl
  · cases itemsChanged <;> simp

@[simp] theorem schedule_putItems (q : Queue) (items : List QueueItem) :
    (h.putItems queueId q items).schedule = h.schedule :=
  h.schedule_modifyEntry queueId _

@[simp] theorem schedule_commit (q : Queue) (items : List QueueItem) :
    (h.commit o queueId q items).schedule = h.schedule := by
  simp [commit]

end Hub

end Jukebox
