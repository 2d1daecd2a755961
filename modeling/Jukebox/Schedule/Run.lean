import Jukebox.Schedule

/-!
# Running a schedule

A clock that starts the jobs of a schedule at their due times. A job that has started runs for a
time of its own and ends, whatever is scheduled or cancelled meanwhile.
-/

namespace Jukebox.Schedule

/-- A job that has started. -/
structure Running (J : Type) where
  number : Nat
  ends : Nat
  job : J
  deriving Repr, Inhabited

/-- What becomes of a job. -/
inductive Mark where
  | started
  | ended
  deriving DecidableEq, Repr, Inhabited

/-- Something that became of a job, and when. -/
structure Entry (J : Type) where
  time : Nat
  mark : Mark
  job : J
  deriving Repr, Inhabited

/-- A schedule, the jobs that have started and have not ended, and all that happened so far. -/
structure Run (J : Type) where
  now : Nat := 0
  schedule : Schedule J := {}
  running : List (Running J) := []
  log : List (Entry J) := []
  deriving Inhabited

namespace Run

variable {J : Type}

/-- The running job that ends first. -/
def firstEnd? (r : Run J) : Option (Running J) :=
  r.running.foldl (fun best x =>
    match best with
    | none => some x
    | some b =>
      if x.ends < b.ends || (x.ends == b.ends && x.number < b.number) then some x
      else some b) none

/-- A job starts; one that takes no time ends at once. -/
def start (duration : J → Nat) (r : Run J) (w : Waiting J) : Run J :=
  let schedule := r.schedule.remove w.number
  let log := r.log ++ [⟨w.due, .started, w.job⟩]
  if duration w.job = 0 then
    { r with now := w.due, schedule, log := log ++ [⟨w.due, .ended, w.job⟩] }
  else
    let (number, schedule) := schedule.fresh
    { now := w.due, schedule, log
      running := r.running ++ [⟨number, w.due + duration w.job, w.job⟩] }

/-- A job ends. -/
def finish (r : Run J) (x : Running J) : Run J :=
  { r with
    now := x.ends
    running := r.running.filter fun y => y.number ≠ x.number
    log := r.log ++ [⟨x.ends, .ended, x.job⟩] }

/-- The next start or end that is due at a time. -/
def step? (duration : J → Nat) (r : Run J) (time : Nat) : Option (Run J) :=
  match r.schedule.first?, r.firstEnd? with
  | none, none => none
  | some w, none => if w.due ≤ time then some (r.start duration w) else none
  | none, some x => if x.ends ≤ time then some (r.finish x) else none
  | some w, some x =>
    if w.due < x.ends || (w.due == x.ends && w.number < x.number) then
      if w.due ≤ time then some (r.start duration w) else none
    else if x.ends ≤ time then some (r.finish x) else none

/-- At most `steps` starts and ends that are due at a time. -/
def steps (duration : J → Nat) (time : Nat) : Nat → Run J → Run J
  | 0, r => r
  | n + 1, r =>
    match r.step? duration time with
    | none => r
    | some r => steps duration time n r

/-- The run at a later time; each waiting job starts and ends at most once until then. -/
def advance (duration : J → Nat) (r : Run J) (time : Nat) : Run J :=
  { steps duration time (2 * r.schedule.waiting.length + r.running.length) r with now := time }

end Run

end Jukebox.Schedule
