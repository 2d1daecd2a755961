import Jukebox.Schedule.Run
import Jukebox.Table

/-!
# Schedulers

How jobs come to start at their times. A job that is to start later is a task that sleeps until
then. A table holds, for each key, the task whose job waits under it, with the number that this call
had (its generation). A task that wakes looks itself up and starts its job only if it finds its own
generation, and then it takes itself off the table, so that nothing that is done to the table
later concerns the job that runs. A task that is taken off the table before is aborted.

Aborting a task takes effect when it would go on. Whether it does is up to the surroundings: a task
that had begun to wake when it was aborted still looks itself up.
-/

namespace Jukebox

/-- The task whose job waits under a key. -/
structure Pending where
  generation : UInt64
  task : Nat
  deriving DecidableEq, Repr, Inhabited

/-- What a task does when it wakes. -/
inductive Errand (J : Type) where
  | lookUp (key : String) (generation : UInt64) (job : J)
  | start (job : J)
  | finish (job : J)
  deriving Repr, Inhabited

/-- A task that sleeps. Of those that wake at one time the one with the least number goes on
first. -/
structure Sleeper (J : Type) where
  task : Nat
  number : Nat
  wakes : Nat
  errand : Errand J
  aborted : Bool := false
  deriving Repr, Inhabited

/-- Whether a task wakes before another one. -/
def Sleeper.before {J : Type} (a b : Sleeper J) : Bool :=
  a.wakes < b.wakes || (a.wakes == b.wakes && a.number < b.number)

/-- The tasks that sleep, and those of them whose jobs wait under keys. The count of generations
begins again after the last number of 64 bits. -/
structure Scheduler (J : Type) where
  pending : Table Pending := {}
  generation : UInt64 := 0
  asleep : List (Sleeper J) := []
  nextNumber : Nat := 0
  deriving Inhabited

namespace Scheduler

variable {J : Type}

/-- A task goes to sleep. -/
def sleep (s : Scheduler J) (task wakes : Nat) (errand : Errand J) : Scheduler J :=
  { s with
    asleep := s.asleep ++ [{ task, number := s.nextNumber, wakes, errand }]
    nextNumber := s.nextNumber + 1 }

section Sleep

variable (s : Scheduler J) (task wakes : Nat) (errand : Errand J)

@[simp] theorem sleep_pending : (s.sleep task wakes errand).pending = s.pending := rfl

@[simp] theorem sleep_generation : (s.sleep task wakes errand).generation = s.generation := rfl

@[simp] theorem sleep_asleep :
    (s.sleep task wakes errand).asleep =
      s.asleep ++ [{ task, number := s.nextNumber, wakes, errand }] := rfl

@[simp] theorem sleep_nextNumber :
    (s.sleep task wakes errand).nextNumber = s.nextNumber + 1 := rfl

end Sleep

/-- A task wakes. -/
def rouse (s : Scheduler J) (number : Nat) : Scheduler J :=
  { s with asleep := s.asleep.filter fun x => x.number ≠ number }

/-- A task is aborted, whatever it does. -/
def abort (s : Scheduler J) (task : Nat) : Scheduler J :=
  { s with asleep := s.asleep.map fun x => if x.task = task then { x with aborted := true } else x }

/-- A job is to start at a time, and a key is to stand for it. -/
def enter (s : Scheduler J) (key : String) (due : Nat) (job : J) : Scheduler J :=
  { s.sleep s.nextNumber due (.lookUp key s.generation job) with
    pending := s.pending.insert key ⟨s.generation, s.nextNumber⟩
    generation := s.generation + 1 }

/-- A job is to start at a time, in place of one that waits under the same key. -/
def later (s : Scheduler J) (key : String) (due : Nat) (job : J) : Scheduler J :=
  match s.pending.get? key with
  | none => s.enter key due job
  | some previous => (s.enter key due job).abort previous.task

/-- A job is to start now. Nothing refers to its task. -/
def spawn (s : Scheduler J) (now : Nat) (job : J) : Scheduler J :=
  s.sleep s.nextNumber now (.start job)

/-- Whether a job waits under a key. -/
def isPending (s : Scheduler J) (key : String) : Bool := s.pending.contains key

/-- Whether a job waited under a key, and the scheduler after it is cancelled. -/
def cancel (s : Scheduler J) (key : String) : Bool × Scheduler J :=
  match s.pending.get? key with
  | none => (false, s)
  | some p => (true, { s with pending := s.pending.erase key }.abort p.task)

/-- The number of waiting jobs whose keys end in the id of a queue, and the scheduler after they are
cancelled. -/
def cancelQueue (s : Scheduler J) (queueId : String) : Nat × Scheduler J :=
  let keys := s.pending.names.filter (keyOfQueue queueId)
  (keys.length, keys.foldl (fun s key => (s.cancel key).2) s)

/-- The scheduler after all waiting jobs are cancelled. -/
def cancelAll (s : Scheduler J) : Scheduler J :=
  s.pending.values.foldl (fun s p => s.abort p.task) { s with pending := {} }

/-- A task looks itself up: the scheduler with the task taken off, if it is still the one whose job
waits under its key. -/
def take? (s : Scheduler J) (key : String) (generation : UInt64) : Option (Scheduler J) :=
  match s.pending.get? key with
  | none => none
  | some p =>
    if p.generation = generation then some { s with pending := s.pending.erase key } else none

/-- The task that wakes first. -/
def first? (s : Scheduler J) : Option (Sleeper J) :=
  s.asleep.foldl (fun best x =>
    match best with
    | none => some x
    | some b => if x.before b then some x else some b) none

/-- A scheduler, the time, and all that happened so far. -/
structure Clock (J : Type) where
  now : Nat := 0
  scheduler : Scheduler J := {}
  log : List (Schedule.Entry J) := []
  deriving Inhabited

namespace Clock

/-- A task starts its job, which ends at once or after it has slept. -/
def start (duration : J → Nat) (c : Clock J) (task : Nat) (job : J) : Clock J :=
  let log := c.log ++ [⟨c.now, .started, job⟩]
  if duration job = 0 then { c with log := log ++ [⟨c.now, .ended, job⟩] }
  else
    { c with log, scheduler := c.scheduler.sleep task (c.now + duration job) (.finish job) }

/-- A task wakes and goes on, unless it was aborted and heeds that. -/
def wake (duration : J → Nat) (heeds : Nat → Bool) (c : Clock J) (x : Sleeper J) : Clock J :=
  let c := { c with now := x.wakes, scheduler := c.scheduler.rouse x.number }
  if x.aborted && heeds x.task then c
  else
    match x.errand with
    | .lookUp key generation job =>
      match c.scheduler.take? key generation with
      | none => c
      | some scheduler => { c with scheduler }.start duration x.task job
    | .start job => c.start duration x.task job
    | .finish job => { c with log := c.log ++ [⟨c.now, .ended, job⟩] }

/-- The task that wakes next goes on, if it wakes by a time. -/
def step? (duration : J → Nat) (heeds : Nat → Bool) (c : Clock J) (time : Nat) :
    Option (Clock J) :=
  match c.scheduler.first? with
  | none => none
  | some x => if x.wakes ≤ time then some (c.wake duration heeds x) else none

/-- At most `turns` tasks go on that wake by a time. -/
def steps (duration : J → Nat) (heeds : Nat → Bool) (time : Nat) : Nat → Clock J → Clock J
  | 0, c => c
  | turns + 1, c =>
    match c.step? duration heeds time with
    | none => c
    | some c => steps duration heeds time turns c

/-- The clock at a later time. A task wakes at most twice, to start its job and to end it. -/
def advance (duration : J → Nat) (heeds : Nat → Bool) (c : Clock J) (time : Nat) : Clock J :=
  { steps duration heeds time (2 * c.scheduler.asleep.length) c with now := time }

end Clock

end Scheduler

end Jukebox
