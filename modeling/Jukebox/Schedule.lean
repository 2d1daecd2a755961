/-!
# Schedules

Jobs that wait for their time. A job waits under a key, and another one under the same key takes
its place; a job without a key starts as soon as it can. Each job has a number, and of the jobs due
at one time the one with the least number starts first.
-/

namespace Jukebox

/-- A job that waits. -/
structure Waiting (J : Type) where
  key : Option String
  number : Nat
  due : Nat
  job : J
  deriving Repr, Inhabited

/-- Whether a key ends in an underscore and the id of a queue. -/
def keyOfQueue (queueId key : String) : Bool :=
  ('_' :: queueId.toList).isSuffixOf key.toList

namespace Waiting

/-- Whether a waiting job is found by the id of a queue. -/
def ofQueue {J : Type} (queueId : String) (w : Waiting J) : Bool := w.key.any (keyOfQueue queueId)

/-- Whether a job is to start before another one. -/
def before {J : Type} (a b : Waiting J) : Bool :=
  a.due < b.due || (a.due == b.due && a.number < b.number)

end Waiting

/-- The jobs that wait, in the order in which they were scheduled. -/
structure Schedule (J : Type) where
  waiting : List (Waiting J) := []
  nextNumber : Nat := 0
  deriving Repr, Inhabited

namespace Schedule

variable {J : Type}

/-- A number that no job has. -/
def fresh (s : Schedule J) : Nat × Schedule J :=
  (s.nextNumber, { s with nextNumber := s.nextNumber + 1 })

/-- The schedule without the job that waits under a key. -/
def without (s : Schedule J) (key : String) : Schedule J :=
  { s with waiting := s.waiting.filter fun w => w.key ≠ some key }

/-- The schedule with a job due at a time, in place of one that waits under the same key. -/
def later (s : Schedule J) (key : String) (due : Nat) (job : J) : Schedule J :=
  let s := s.without key
  { waiting := s.waiting ++ [⟨some key, s.nextNumber, due, job⟩]
    nextNumber := s.nextNumber + 1 }

/-- The schedule with a job that is to start now and can not be cancelled. -/
def spawn (s : Schedule J) (now : Nat) (job : J) : Schedule J :=
  { waiting := s.waiting ++ [⟨none, s.nextNumber, now, job⟩]
    nextNumber := s.nextNumber + 1 }

/-- Whether a job waits under a key. -/
def isPending (s : Schedule J) (key : String) : Bool := s.waiting.any fun w => w.key = some key

/-- Whether a job waited under a key, and the schedule without it. -/
def cancel (s : Schedule J) (key : String) : Bool × Schedule J := (s.isPending key, s.without key)

/-- The number of waiting jobs whose keys end in the id of a queue, and the schedule without
them. -/
def cancelQueue (s : Schedule J) (queueId : String) : Nat × Schedule J :=
  ((s.waiting.filter (Waiting.ofQueue queueId)).length,
    { s with waiting := s.waiting.filter fun w => !(Waiting.ofQueue queueId w) })

/-- The schedule without any job that waits under a key. -/
def cancelAll (s : Schedule J) : Schedule J :=
  { s with waiting := s.waiting.filter fun w => w.key.isNone }

/-- The job that is to start first. -/
def first? (s : Schedule J) : Option (Waiting J) :=
  s.waiting.foldl (fun best w =>
    match best with
    | none => some w
    | some b => if w.before b then some w else some b) none

/-- The schedule without the job of a number. -/
def remove (s : Schedule J) (number : Nat) : Schedule J :=
  { s with waiting := s.waiting.filter fun w => w.number ≠ number }

end Schedule

end Jukebox
