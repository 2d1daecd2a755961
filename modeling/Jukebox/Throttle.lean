/-!
# Throttling

Background calls to the catalog are spaced out: each is granted at the later of its call and the
previous grant plus an interval, in the order of the calls. Calls that a listener waits for are
never delayed.
-/

namespace Jukebox

/-- Whether a listener waits for a call. -/
inductive Pace where
  | interactive
  | background
  deriving DecidableEq, Repr, Inhabited

/-- The spacing of background calls, and the earliest time of the next one. -/
structure Throttle where
  interval : Nat
  nextSlot : Option Nat := none
  deriving DecidableEq, Repr, Inhabited

namespace Throttle

/-- When a call made now is granted, and the throttle after it. -/
def acquire (t : Throttle) (pace : Pace) (now : Nat) : Nat × Throttle :=
  match pace with
  | .interactive => (now, t)
  | .background =>
    if t.interval = 0 then (now, t)
    else
      let granted := max now (t.nextSlot.getD now)
      (granted, { t with nextSlot := some (granted + t.interval) })

/-- The times at which calls are granted, in the order of the calls. -/
def grants (t : Throttle) : List (Pace × Nat) → List Nat
  | [] => []
  | (pace, now) :: more =>
    let (granted, t) := t.acquire pace now
    granted :: grants t more

end Throttle

end Jukebox
