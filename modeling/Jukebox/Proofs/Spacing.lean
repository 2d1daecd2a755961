import Jukebox.Throttle
import Mathlib.Data.List.Chain

/-!
# The spacing of background calls

Background calls wait for one slot. They get it one after another, in the order in which they
called, and the one that holds it sleeps until the next grant is due (`Turnstile`). Time passes only
when no call can go on. In every run a call is granted at the later of its turn and the last grant
plus the interval (`Orderly.step`, `Orderly.run`), which is when the throttle says that it is
(`Orderly.forecast_run`). Calls for which a listener waits leave no trace in the slot: without them
the rest of a run goes as before (`run?_quiet`).
-/

namespace Jukebox

/-! ## Scopes -/

namespace Pace

/-- The pace inside of a scope for whose calls a listener waits. -/
def enter : Pace → Pace
  | interactive => interactive
  | background => interactive

/-- The pace of a call inside of so many scopes. -/
def within : Nat → Pace
  | 0 => background
  | depth + 1 => (within depth).enter

theorem enter_eq (pace : Pace) : pace.enter = interactive := by cases pace <;> rfl

theorem within_eq_interactive_iff (depth : Nat) : within depth = interactive ↔ 0 < depth := by
  cases depth with
  | zero => simp [within]
  | succ depth => simp [within, enter_eq]

end Pace

/-! ## The slot -/

/-- A call of a task, and when it was made. -/
structure Ticket where
  task : Nat
  called : Nat
  deriving DecidableEq

structure Grant where
  pace : Pace
  ticket : Ticket
  /-- Since when the call held the slot; one that does not wait for it has its turn at once. -/
  turn : Nat
  time : Nat
  deriving DecidableEq

/-- The calls that wait for the slot of a throttle, and all grants so far. -/
structure Turnstile where
  throttle : Throttle
  now : Nat := 0
  /-- The call that holds the slot, and since when. -/
  holder : Option (Ticket × Nat) := none
  /-- The calls that wait for the slot, in the order in which they get it. -/
  waiting : List Ticket := []
  grants : List Grant := []
  deriving DecidableEq

namespace Turnstile

/-- What can happen at a turnstile. -/
inductive Event where
  /-- A task makes a call inside of so many scopes. -/
  | acquire (task depth : Nat)
  /-- The slot is free, and the first call that waits gets it. -/
  | take
  /-- The call that holds the slot is granted and gives the slot back. -/
  | grant
  | pass (ms : Nat)
  deriving DecidableEq

/-- Whether an event is a call for which a listener waits. -/
def Event.isInteractive : Event → Bool
  | acquire _ depth => decide (0 < depth)
  | _ => false

variable {interval : Nat} {s t : Turnstile} {e : Event} {events : List Event}

/-- The call is granted at once. -/
def serve (s : Turnstile) (pace : Pace) (task : Nat) : Turnstile :=
  { s with grants := s.grants ++ [⟨pace, ⟨task, s.now⟩, s.now, s.now⟩] }

/-- The call that has held the slot for a while is granted and gives it back. -/
def release (s : Turnstile) (w : Ticket) (turn : Nat) : Turnstile :=
  { s with
    throttle := { s.throttle with nextSlot := some (s.now + s.throttle.interval) }
    holder := none
    grants := s.grants ++ [⟨.background, w, turn, s.now⟩] }

/-- Whether no call can go on for so long: none waits for the slot, or the one that holds it
sleeps. -/
def mayPass (s : Turnstile) (ms : Nat) : Bool :=
  match s.holder with
  | none => s.waiting.isEmpty
  | some _ => s.throttle.nextSlot.any (s.now + ms ≤ ·)

def step? (s : Turnstile) : Event → Option Turnstile
  | .acquire task depth =>
    if Pace.within depth = .interactive ∨ s.throttle.interval = 0 then
      some (s.serve (Pace.within depth) task)
    else some { s with waiting := s.waiting ++ [⟨task, s.now⟩] }
  | .take =>
    match s.holder, s.waiting with
    | none, w :: more => some { s with holder := some (w, s.now), waiting := more }
    | _, _ => none
  | .grant =>
    match s.holder with
    | some (w, turn) =>
      if s.throttle.nextSlot.all (· ≤ s.now) then some (s.release w turn) else none
    | none => none
  | .pass ms => if s.mayPass ms then some { s with now := s.now + ms } else none

/-- The turnstile after a number of events, `none` when one of them cannot happen. -/
def run? (s : Turnstile) : List Event → Option Turnstile
  | [] => some s
  | e :: more => (s.step? e).bind fun s => s.run? more

/-- A turnstile that no call was made to. -/
def start (interval : Nat) : Turnstile := { throttle := ⟨interval, none⟩ }

/-- The grants of background calls. -/
def granted (s : Turnstile) : List Grant := s.grants.filter (·.pace = .background)

/-- The calls that have or wait for the slot. -/
def pending (s : Turnstile) : List Ticket := (s.holder.map (·.1)).toList ++ s.waiting

/-! ## Calls -/

/-- The call that an event makes. -/
def Event.call? (now : Nat) : Event → Option (Pace × Ticket)
  | acquire task depth => some (Pace.within depth, ⟨task, now⟩)
  | _ => none

/-- How long an event lasts. -/
def Event.lasts : Event → Nat
  | pass ms => ms
  | _ => 0

/-- The calls that events make from a time on. -/
def calls : Nat → List Event → List (Pace × Ticket)
  | _, [] => []
  | now, e :: more => (e.call? now).toList ++ calls (now + e.lasts) more

/-- The background calls among some calls. -/
def background (calls : List (Pace × Ticket)) : List Ticket :=
  (calls.filter (·.1 = .background)).map (·.2)

/-! ## Steps -/

/-- What a turnstile becomes by an event that can happen. -/
inductive Steps (s : Turnstile) : Event → Turnstile → Prop
  | serve (task depth : Nat)
      (hfree : Pace.within depth = .interactive ∨ s.throttle.interval = 0) :
      Steps s (.acquire task depth) (s.serve (Pace.within depth) task)
  | wait (task depth : Nat) (hpace : Pace.within depth = .background) :
      Steps s (.acquire task depth) { s with waiting := s.waiting ++ [⟨task, s.now⟩] }
  | take {w : Ticket} {more : List Ticket} (hfree : s.holder = none)
      (hwaits : s.waiting = w :: more) :
      Steps s .take { s with holder := some (w, s.now), waiting := more }
  | grant {w : Ticket} {turn : Nat} (hholds : s.holder = some (w, turn))
      (hdue : ∀ slot ∈ s.throttle.nextSlot, slot ≤ s.now) :
      Steps s .grant (s.release w turn)
  | pass (ms : Nat) (hidle : s.mayPass ms) : Steps s (.pass ms) { s with now := s.now + ms }

theorem steps_of_step? (h : s.step? e = some t) : s.Steps e t := by
  cases e with
  | acquire task depth =>
    simp only [step?] at h
    split at h
    · next hfree =>
      cases h
      exact .serve task depth hfree
    · next hbusy =>
      cases h
      refine .wait task depth ?_
      cases hpace : Pace.within depth with
      | background => rfl
      | interactive => exact absurd (.inl hpace) hbusy
  | take =>
    simp only [step?] at h
    split at h
    · next hfree hwaits =>
      cases h
      exact .take hfree hwaits
    · cases h
  | grant =>
    simp only [step?] at h
    split at h
    · next hholds =>
      split at h
      · next hdue =>
        cases h
        refine .grant hholds fun slot hslot => ?_
        rw [Option.mem_def.1 hslot] at hdue
        exact of_decide_eq_true hdue
      · cases h
    · cases h
  | pass ms =>
    simp only [step?] at h
    split at h
    · next hidle =>
      cases h
      exact .pass ms hidle
    · cases h

theorem now_of_steps (h : s.Steps e t) : t.now = s.now + e.lasts := by
  cases h <;> rfl

/-! ## What every run keeps -/

/-- Whether a grant is the next one after another. -/
structure Follows (interval : Nat) (a b : Grant) : Prop where
  turn_le : a.time ≤ b.turn
  time_eq : b.time = max b.turn (a.time + interval)

/-- Whether the grants of a turnstile are as they should be, and the call that is next in turn is
not overdue. -/
structure Orderly (interval : Nat) (s : Turnstile) : Prop where
  interval_eq : s.throttle.interval = interval
  first : ∀ g ∈ s.granted.head?, g.time = g.turn
  follows : s.granted.IsChain (Follows interval)
  called : ∀ g ∈ s.granted, g.ticket.called ≤ g.turn
  slot_eq : s.throttle.nextSlot = s.granted.getLast?.map (·.time + interval)
  past : ∀ g ∈ s.granted.getLast?, g.time ≤ s.now
  calls_past : ∀ w ∈ s.pending, w.called ≤ s.now
  held : ∀ w turn, s.holder = some (w, turn) → w.called ≤ turn ∧ turn ≤ s.now ∧
    ∀ g ∈ s.granted.getLast?, g.time ≤ turn
  prompt : ∀ w ∈ s.pending.head?, s.now ≤ max w.called (s.throttle.nextSlot.getD 0)

theorem orderly_start (interval : Nat) : (start interval).Orderly interval where
  interval_eq := rfl
  first := fun _ hg => nomatch hg
  follows := .nil
  called := fun _ hg => nomatch hg
  slot_eq := rfl
  past := fun _ hg => nomatch hg
  calls_past := fun _ hw => nomatch hw
  held := fun _ _ hholds => nomatch hholds
  prompt := fun _ hw => nomatch hw

@[simp] theorem granted_serve (s : Turnstile) (task : Nat) :
    (s.serve .interactive task).granted = s.granted := by
  simp [granted, serve]

@[simp] theorem granted_release (s : Turnstile) (w : Ticket) (turn : Nat) :
    (s.release w turn).granted = s.granted ++ [⟨.background, w, turn, s.now⟩] := by
  simp [granted, release]

@[simp] theorem pending_release (s : Turnstile) (w : Ticket) (turn : Nat) :
    (s.release w turn).pending = s.waiting := rfl

/-- When a call that holds the slot can be granted, it is neither early nor late. -/
theorem Orderly.now_eq (hs : s.Orderly interval) {w : Ticket} {turn : Nat}
    (hholds : s.holder = some (w, turn)) (hdue : ∀ slot ∈ s.throttle.nextSlot, slot ≤ s.now) :
    s.now = max w.called (s.throttle.nextSlot.getD 0) := by
  have hprompt := hs.prompt w (by simp [pending, hholds])
  have hcalled := hs.calls_past w (by simp [pending, hholds])
  have hslot : s.throttle.nextSlot.getD 0 ≤ s.now := by
    cases hslot : s.throttle.nextSlot with
    | none => exact Nat.zero_le _
    | some slot => exact hdue slot hslot
  omega

theorem Orderly.serve (hs : s.Orderly interval) (task : Nat) :
    (s.serve .interactive task).Orderly interval := by
  constructor
  case interval_eq => exact hs.interval_eq
  case calls_past => exact hs.calls_past
  case prompt => exact hs.prompt
  all_goals rw [granted_serve]
  case first => exact hs.first
  case follows => exact hs.follows
  case called => exact hs.called
  case slot_eq => exact hs.slot_eq
  case past => exact hs.past
  case held => exact hs.held

/-- A call that waits is next in turn only if none was before. -/
theorem Orderly.wait (hs : s.Orderly interval) (task : Nat) :
    Orderly interval { s with waiting := s.waiting ++ [⟨task, s.now⟩] } := by
  have hpending : pending { s with waiting := s.waiting ++ [⟨task, s.now⟩] } =
      s.pending ++ [⟨task, s.now⟩] := by
    simp [pending]
  refine ⟨hs.interval_eq, hs.first, hs.follows, hs.called, hs.slot_eq, hs.past, ?_, hs.held, ?_⟩
  · intro w hw
    rw [hpending] at hw
    rcases List.mem_append.1 hw with hw | hw
    · exact hs.calls_past w hw
    · rw [List.mem_singleton.1 hw]
  · intro w hw
    rw [hpending] at hw
    cases hbefore : s.pending with
    | nil =>
      rw [hbefore] at hw
      cases hw
      exact Nat.le_max_left _ _
    | cons first more =>
      rw [hbefore] at hw
      exact hs.prompt w (by rw [hbefore]; exact hw)

theorem Orderly.take (hs : s.Orderly interval) {w : Ticket} {more : List Ticket}
    (hfree : s.holder = none) (hwaits : s.waiting = w :: more) :
    Orderly interval { s with holder := some (w, s.now), waiting := more } := by
  have hpending : pending { s with holder := some (w, s.now), waiting := more } = s.pending := by
    simp [pending, hfree, hwaits]
  refine ⟨hs.interval_eq, hs.first, hs.follows, hs.called, hs.slot_eq, hs.past, ?_, ?_, ?_⟩
  · rw [hpending]
    exact hs.calls_past
  · intro w' turn hholds
    cases hholds
    exact ⟨hs.calls_past w (by simp [pending, hfree, hwaits]), Nat.le_refl _, hs.past⟩
  · rw [hpending]
    exact hs.prompt

/-- The call that holds the slot is granted at the later of its turn and the last grant plus the
interval. -/
theorem Orderly.release (hs : s.Orderly interval) {w : Ticket} {turn : Nat}
    (hholds : s.holder = some (w, turn)) (hdue : ∀ slot ∈ s.throttle.nextSlot, slot ≤ s.now) :
    (s.release w turn).Orderly interval := by
  obtain ⟨hcalled, hturn, hafter⟩ := hs.held w turn hholds
  have hnow : s.now = max turn (s.throttle.nextSlot.getD 0) := by
    have := hs.now_eq hholds hdue
    omega
  have hpending : s.pending = w :: s.waiting := by simp [pending, hholds]
  have hslot := hs.slot_eq
  constructor
  case interval_eq => exact hs.interval_eq
  case held => exact fun _ _ h => nomatch h
  case calls_past =>
    intro w' hw'
    exact hs.calls_past w' (by rw [hpending]; exact List.mem_cons_of_mem _ hw')
  case prompt =>
    intro w' hw'
    exact Nat.le_trans (Nat.le_add_right _ _) (Nat.le_max_right _ _)
  all_goals rw [granted_release]
  case first =>
    intro g hg
    cases hgranted : s.granted with
    | nil =>
      rw [hgranted] at hg hslot
      cases hg
      rw [hslot] at hnow
      simpa using hnow
    | cons first more =>
      rw [hgranted] at hg
      cases hg
      exact hs.first _ (by rw [hgranted]; rfl)
  case follows =>
    refine List.isChain_append.2 ⟨hs.follows, .singleton _, ?_⟩
    rintro a ha b hb
    cases hb
    rw [hslot, Option.mem_def.1 ha] at hnow
    exact ⟨hafter a ha, hnow⟩
  case called =>
    intro g hg
    rcases List.mem_append.1 hg with hg | hg
    · exact hs.called g hg
    · rw [List.mem_singleton.1 hg]
      exact hcalled
  case slot_eq =>
    rw [List.getLast?_concat, ← hs.interval_eq]
    rfl
  case past =>
    intro g hg
    rw [List.getLast?_concat] at hg
    cases hg
    exact Nat.le_refl _

/-- While time passes, no call that is next in turn becomes overdue. -/
theorem Orderly.pass (hs : s.Orderly interval) {ms : Nat} (hidle : s.mayPass ms) :
    Orderly interval { s with now := s.now + ms } := by
  refine ⟨hs.interval_eq, hs.first, hs.follows, hs.called, hs.slot_eq, ?_, ?_, ?_, ?_⟩
  · exact fun g hg => Nat.le_add_right_of_le (hs.past g hg)
  · exact fun w hw => Nat.le_add_right_of_le (hs.calls_past w hw)
  · intro w turn hholds
    obtain ⟨hcalled, hturn, hafter⟩ := hs.held w turn hholds
    exact ⟨hcalled, Nat.le_add_right_of_le hturn, hafter⟩
  · intro w hw
    unfold mayPass at hidle
    split at hidle
    · next hfree =>
      rw [pending, hfree, List.isEmpty_iff.1 hidle] at hw
      cases hw
    · obtain ⟨slot, hslot, hle⟩ := (Option.any_eq_true _ _).1 hidle
      rw [hslot]
      exact Nat.le_trans (of_decide_eq_true hle) (Nat.le_max_right _ _)

theorem Orderly.step (hs : s.Orderly interval) (hpositive : 0 < interval) (h : s.Steps e t) :
    t.Orderly interval := by
  cases h with
  | serve task depth hfree =>
    have hpace := hfree.resolve_right (by rw [hs.interval_eq]; omega)
    rw [hpace]
    exact hs.serve task
  | wait task depth hpace => exact hs.wait task
  | take hfree hwaits => exact hs.take hfree hwaits
  | grant hholds hdue => exact hs.release hholds hdue
  | pass ms hidle => exact hs.pass hidle

theorem Orderly.run (hs : s.Orderly interval) (hpositive : 0 < interval)
    (hrun : s.run? events = some t) : t.Orderly interval := by
  induction events generalizing s with
  | nil =>
    cases hrun
    exact hs
  | cons e more ih =>
    obtain ⟨s', hstep, hmore⟩ := Option.bind_eq_some_iff.1 hrun
    exact ih (hs.step hpositive (steps_of_step? hstep)) hmore

/-- Whether a grant comes at least the interval after another one. -/
def Apart (interval : Nat) (a b : Grant) : Prop := a.time + interval ≤ b.time

instance (interval : Nat) : Trans (Apart interval) (Apart interval) (Apart interval) :=
  ⟨fun hab hbc => Nat.le_trans (Nat.le_add_right_of_le hab) hbc⟩

theorem Orderly.apart (hs : s.Orderly interval) : s.granted.Pairwise (Apart interval) := by
  refine (hs.follows.imp fun a b hnext => ?_).pairwise
  rw [Apart, hnext.time_eq]
  exact Nat.le_max_right _ _

/-! ## What the throttle says -/

/-- When a throttle says that each of some calls is granted. -/
def foretold (throttle : Throttle) (calls : List (Pace × Ticket)) : List ((Pace × Ticket) × Nat) :=
  calls.zip (throttle.grants (calls.map fun c => (c.1, c.2.called)))

theorem foretold_cons (throttle : Throttle) (c : Pace × Ticket) (more : List (Pace × Ticket)) :
    foretold throttle (c :: more) =
      (c, (throttle.acquire c.1 c.2.called).1) ::
        foretold (throttle.acquire c.1 c.2.called).2 more := rfl

/-- The throttle grants calls for which a listener waits when they are made. -/
theorem foretold_interactive {throttle : Throttle} {calls : List (Pace × Ticket)}
    {f : (Pace × Ticket) × Nat} (hf : f ∈ foretold throttle calls)
    (hpace : f.1.1 = .interactive) : f.2 = f.1.2.called := by
  induction calls generalizing throttle with
  | nil => cases hf
  | cons c more ih =>
    rw [foretold_cons] at hf
    rcases List.mem_cons.1 hf with rfl | hf
    · dsimp only at hpace ⊢
      rw [hpace]
      rfl
    · exact ih hf

/-- What the throttle says of background calls it says without the other ones, too. -/
theorem foretold_background (throttle : Throttle) (calls : List (Pace × Ticket)) :
    ((foretold throttle calls).filter (·.1.1 = .background)).map (·.2) =
      throttle.grants ((background calls).map fun w => (.background, w.called)) := by
  induction calls generalizing throttle with
  | nil => rfl
  | cons c more ih =>
    obtain ⟨pace, w⟩ := c
    rw [foretold_cons]
    cases pace with
    | interactive => simpa [background, Throttle.acquire] using ih throttle
    | background => simpa [background, Throttle.grants] using ih _

/-- When the throttle says that background calls are granted, the earlier ones first. -/
def forecast (s : Turnstile) (later : List Ticket) : List Nat :=
  s.granted.map (·.time) ++
    s.throttle.grants ((s.pending ++ later).map fun w => (.background, w.called))

theorem forecast_start (interval : Nat) (later : List Ticket) :
    (start interval).forecast later =
      Throttle.grants ⟨interval, none⟩ (later.map fun w => (.background, w.called)) := rfl

/-- A call is granted when the throttle says so. -/
theorem Orderly.acquire_eq (hs : s.Orderly interval) (hpositive : 0 < interval) {w : Ticket}
    {turn : Nat} (hholds : s.holder = some (w, turn))
    (hdue : ∀ slot ∈ s.throttle.nextSlot, slot ≤ s.now) :
    s.throttle.acquire .background w.called = (s.now, (s.release w turn).throttle) := by
  have hgranted : max w.called (s.throttle.nextSlot.getD w.called) = s.now := by
    rw [hs.now_eq hholds hdue]
    cases s.throttle.nextSlot <;> simp
  rw [Throttle.acquire]
  dsimp only
  rw [if_neg (by rw [hs.interval_eq]; omega), hgranted]
  rfl

/-- What happens at a turnstile changes no forecast but by the calls that are made. -/
theorem Orderly.forecast_eq (hs : s.Orderly interval) (hpositive : 0 < interval) (h : s.Steps e t)
    (later : List Ticket) :
    t.forecast later = s.forecast (background (e.call? s.now).toList ++ later) := by
  cases h with
  | serve task depth hfree =>
    have hpace := hfree.resolve_right (by rw [hs.interval_eq]; omega)
    rw [hpace, forecast, granted_serve]
    simp [forecast, background, Event.call?, hpace, Turnstile.serve, pending]
  | wait task depth hpace =>
    simp [forecast, background, Event.call?, hpace, pending, granted]
  | take hfree hwaits =>
    simp [forecast, background, Event.call?, pending, granted, hfree, hwaits]
  | @grant w turn hholds hdue =>
    have hacquire := hs.acquire_eq hpositive hholds hdue
    have hpending : s.pending = w :: s.waiting := by simp [pending, hholds]
    rw [forecast, granted_release, forecast, hpending]
    simp only [background, Event.call?, Option.toList_none, List.filter_nil, List.map_nil,
      List.nil_append, List.cons_append, List.map_cons, Throttle.grants, hacquire]
    simp
  | pass ms hidle => rfl

/-- The grants so far and those to come are the ones that the throttle gives for the calls, in the
order of the calls. -/
theorem Orderly.forecast_run (hs : s.Orderly interval) (hpositive : 0 < interval)
    (hrun : s.run? events = some t) (later : List Ticket) :
    t.forecast later = s.forecast (background (calls s.now events) ++ later) := by
  induction events generalizing s with
  | nil =>
    cases hrun
    rfl
  | cons e more ih =>
    obtain ⟨s', hstep, hmore⟩ := Option.bind_eq_some_iff.1 hrun
    have hsteps := steps_of_step? hstep
    rw [ih (hs.step hpositive hsteps) hmore, hs.forecast_eq hpositive hsteps, now_of_steps hsteps]
    simp [calls, background]

/-- Calls are granted in the order in which they are made, and none is lost. -/
theorem Orderly.tickets_eq (hs : s.Orderly interval) (hpositive : 0 < interval)
    (h : s.Steps e t) : t.granted.map (·.ticket) ++ t.pending =
      s.granted.map (·.ticket) ++ s.pending ++ background (e.call? s.now).toList := by
  cases h with
  | serve task depth hfree =>
    have hpace := hfree.resolve_right (by rw [hs.interval_eq]; omega)
    rw [hpace, granted_serve]
    simp [background, Event.call?, hpace, Turnstile.serve, pending]
  | wait task depth hpace => simp [background, Event.call?, hpace, pending, granted]
  | take hfree hwaits => simp [background, Event.call?, pending, granted, hfree, hwaits]
  | @grant w turn hholds hdue =>
    have hpending : s.pending = w :: s.waiting := by simp [pending, hholds]
    rw [granted_release, pending_release, hpending]
    simp [background, Event.call?]
  | pass ms hidle => simp [background, Event.call?, pending, granted]

theorem Orderly.tickets_run (hs : s.Orderly interval) (hpositive : 0 < interval)
    (hrun : s.run? events = some t) : t.granted.map (·.ticket) ++ t.pending =
      s.granted.map (·.ticket) ++ s.pending ++ background (calls s.now events) := by
  induction events generalizing s with
  | nil =>
    cases hrun
    simp [background, calls]
  | cons e more ih =>
    obtain ⟨s', hstep, hmore⟩ := Option.bind_eq_some_iff.1 hrun
    have hsteps := steps_of_step? hstep
    rw [ih (hs.step hpositive hsteps) hmore, hs.tickets_eq hpositive hsteps, now_of_steps hsteps]
    simp [calls, background]

/-! ## Calls for which a listener waits -/

/-- The calls among some calls for which a listener waits, each granted at once. -/
def grantedAtOnce (calls : List (Pace × Ticket)) : List Grant :=
  (calls.filter (·.1 = .interactive)).map fun c => ⟨c.1, c.2, c.2.called, c.2.called⟩

theorem interactive_of_steps (h : s.Steps e t) :
    t.grants.filter (·.pace = .interactive) =
      s.grants.filter (·.pace = .interactive) ++ grantedAtOnce (e.call? s.now).toList := by
  cases h with
  | serve task depth hfree =>
    cases hpace : Pace.within depth with
    | interactive => simp [grantedAtOnce, Event.call?, hpace, serve]
    | background => simp [grantedAtOnce, Event.call?, hpace, serve]
  | wait task depth hpace => simp [grantedAtOnce, Event.call?, hpace]
  | grant hholds hdue => simp [grantedAtOnce, Event.call?, release]
  | _ => simp [grantedAtOnce, Event.call?]

theorem interactive_of_run (hrun : s.run? events = some t) :
    t.grants.filter (·.pace = .interactive) =
      s.grants.filter (·.pace = .interactive) ++ grantedAtOnce (calls s.now events) := by
  induction events generalizing s with
  | nil =>
    cases hrun
    simp [grantedAtOnce, calls]
  | cons e more ih =>
    obtain ⟨s', hstep, hmore⟩ := Option.bind_eq_some_iff.1 hrun
    have hsteps := steps_of_step? hstep
    rw [ih hmore, interactive_of_steps hsteps, now_of_steps hsteps]
    simp [calls, grantedAtOnce]

/-- A turnstile without the grants for which listeners wait. -/
def quiet (s : Turnstile) : Turnstile := { s with grants := s.granted }

@[simp] theorem quiet_serve_interactive (s : Turnstile) (task : Nat) :
    (s.serve .interactive task).quiet = s.quiet := by
  simp [quiet, granted, serve]

@[simp] theorem quiet_serve_background (s : Turnstile) (task : Nat) :
    (s.serve .background task).quiet = s.quiet.serve .background task := by
  simp [quiet, granted, serve]

@[simp] theorem quiet_release (s : Turnstile) (w : Ticket) (turn : Nat) :
    (s.release w turn).quiet = s.quiet.release w turn := by
  simp [quiet, granted, release]

theorem step?_quiet (s : Turnstile) (hevent : e.isInteractive = false) :
    s.quiet.step? e = (s.step? e).map quiet := by
  cases e with
  | acquire task depth =>
    have hpace : Pace.within depth = .background := by
      cases hpace : Pace.within depth with
      | background => rfl
      | interactive =>
        exact absurd ((Pace.within_eq_interactive_iff depth).1 hpace) (of_decide_eq_false hevent)
    simp only [step?, hpace, reduceCtorEq, false_or, quiet]
    split
    · exact congrArg some (quiet_serve_background s task).symm
    · rfl
  | take =>
    simp only [step?, quiet]
    split <;> rfl
  | grant =>
    simp only [step?]
    cases hholds : s.holder with
    | none => simp [quiet, hholds]
    | some held =>
      simp only [quiet, hholds]
      split
      · exact congrArg some (quiet_release s held.1 held.2).symm
      · rfl
  | pass ms =>
    have hidle : s.quiet.mayPass ms = s.mayPass ms := rfl
    simp only [step?, hidle]
    split <;> rfl

/-- A call for which a listener waits is always possible, and leaves no trace but its grant. -/
theorem quiet_of_interactive (s : Turnstile) (hevent : e.isInteractive = true) :
    ∃ t, s.step? e = some t ∧ t.quiet = s.quiet := by
  cases e with
  | acquire task depth =>
    have hpace : Pace.within depth = .interactive :=
      (Pace.within_eq_interactive_iff depth).2 (of_decide_eq_true hevent)
    refine ⟨s.serve .interactive task, ?_, quiet_serve_interactive s task⟩
    simp only [step?, hpace, true_or, if_true]
  | _ => cases hevent

/-- A run without the calls for which listeners wait goes as before. -/
theorem run?_quiet (s : Turnstile) (events : List Event) :
    s.quiet.run? (events.filter (!·.isInteractive)) = (s.run? events).map quiet := by
  induction events generalizing s with
  | nil => rfl
  | cons e more ih =>
    cases hevent : e.isInteractive with
    | true =>
      obtain ⟨s', hstep, hsame⟩ := quiet_of_interactive s hevent
      simp only [List.filter_cons, hevent, run?, hstep, Option.bind_some, Bool.not_true,
        Bool.false_eq_true, if_false]
      rw [← ih, hsame]
    | false =>
      simp only [List.filter_cons, hevent, run?, Bool.not_false, if_true,
        step?_quiet s hevent]
      cases s.step? e with
      | none => rfl
      | some s' => exact ih s'

/-! ## Nobody waits for ever -/

/-- The call that holds the slot is granted when its time has come. -/
theorem exists_run_of_holder (s : Turnstile) {w : Ticket} {turn : Nat}
    (hholds : s.holder = some (w, turn)) :
    ∃ events t, calls s.now events = [] ∧ s.run? events = some t ∧ t.pending = s.waiting := by
  by_cases hdue : s.throttle.nextSlot.all (· ≤ s.now)
  · refine ⟨[.grant], s.release w turn, rfl, ?_, rfl⟩
    simp [run?, step?, hholds, hdue]
  · obtain ⟨slot, hslot, hearly⟩ : ∃ slot, s.throttle.nextSlot = some slot ∧ s.now < slot := by
      cases hslot : s.throttle.nextSlot with
      | none => simp [hslot] at hdue
      | some slot => exact ⟨slot, rfl, by simpa [hslot] using hdue⟩
    refine ⟨[.pass (slot - s.now), .grant],
      release { s with now := slot } w turn, rfl, ?_, rfl⟩
    have hnow : s.now + (slot - s.now) = slot := by omega
    simp [run?, step?, mayPass, hholds, hslot, hnow]

theorem run?_append (s : Turnstile) (before after : List Event) :
    s.run? (before ++ after) = (s.run? before).bind fun t => t.run? after := by
  induction before generalizing s with
  | nil => rfl
  | cons e more ih =>
    simp only [List.cons_append, run?]
    cases s.step? e with
    | none => rfl
    | some s' => exact ih s'

theorem calls_append (hrun : s.run? events = some t) (after : List Event) :
    calls s.now (events ++ after) = calls s.now events ++ calls t.now after := by
  induction events generalizing s with
  | nil =>
    cases hrun
    rfl
  | cons e more ih =>
    obtain ⟨s', hstep, hmore⟩ := Option.bind_eq_some_iff.1 hrun
    rw [List.cons_append, calls, calls, ← now_of_steps (steps_of_step? hstep), ih hmore,
      List.append_assoc]

/-- A call that waits is the one that holds the slot, or takes it at once. -/
theorem exists_holder {w : Ticket} {more : List Ticket} (hpending : s.pending = w :: more) :
    ∃ events t turn, calls s.now events = [] ∧ s.run? events = some t ∧
      t.holder = some (w, turn) ∧ t.waiting = more := by
  cases hholder : s.holder with
  | none =>
    have hwaits : s.waiting = w :: more := by simpa [pending, hholder] using hpending
    refine ⟨[.take], { s with holder := some (w, s.now), waiting := more }, s.now, rfl, ?_, rfl,
      rfl⟩
    simp [run?, step?, hholder, hwaits]
  | some held =>
    obtain ⟨w', turn⟩ := held
    simp only [pending, hholder, Option.map_some, Option.toList_some, List.singleton_append,
      List.cons.injEq] at hpending
    obtain ⟨rfl, hmore⟩ := hpending
    exact ⟨[], s, turn, rfl, rfl, hholder, hmore⟩

/-- When nobody calls any more, all that have called are granted. -/
theorem exists_run_pending_nil (s : Turnstile) :
    ∃ events t, calls s.now events = [] ∧ s.run? events = some t ∧ t.pending = [] := by
  generalize hpending : s.pending = waiting
  induction waiting generalizing s with
  | nil => exact ⟨[], s, rfl, rfl, hpending⟩
  | cons w more ih =>
    obtain ⟨taking, s₁, turn, htaking, hruns₁, hholds, hmore⟩ := exists_holder hpending
    obtain ⟨granting, s₂, hgranting, hruns₂, hleft⟩ := exists_run_of_holder s₁ hholds
    obtain ⟨rest, t, hrest, hruns, hnone⟩ := ih s₂ (hleft.trans hmore)
    refine ⟨taking ++ (granting ++ rest), t, ?_, ?_, hnone⟩
    · rw [calls_append hruns₁, htaking, calls_append hruns₂, hgranting, hrest]
      rfl
    · rw [run?_append, hruns₁, Option.bind_some, run?_append, hruns₂, Option.bind_some, hruns]

end Turnstile

/-- In every run, background calls are granted one at a time in the order in which they are made:
each at the later of its turn and the last grant plus the interval, so that two grants are at least
the interval apart, and at the times that the throttle gives for these calls. When no more are made,
all of them are granted. Calls for which a listener waits are granted when they are made, and
without them everything else goes as before. -/
theorem background_calls_are_spaced {interval : Nat} (hpositive : 0 < interval)
    {events : List Turnstile.Event} {t : Turnstile}
    (hrun : (Turnstile.start interval).run? events = some t) :
    let calls := Turnstile.calls 0 events
    let called := Turnstile.background calls
    (∀ g ∈ t.granted.head?, g.time = g.turn) ∧
      (t.granted.IsChain fun a b => a.time ≤ b.turn ∧ b.time = max b.turn (a.time + interval)) ∧
      (t.granted.Pairwise fun a b => a.time + interval ≤ b.time) ∧
      (∀ g ∈ t.granted, g.ticket.called ≤ g.turn) ∧
      t.granted.map (·.ticket) ++ t.pending = called ∧
      t.granted.map (·.time) <+:
        ((Turnstile.foretold ⟨interval, none⟩ calls).filter (·.1.1 = .background)).map (·.2) ∧
      (∀ f ∈ Turnstile.foretold ⟨interval, none⟩ calls,
        f.1.1 = .interactive → f.2 = f.1.2.called) ∧
      (∃ more t', Turnstile.calls t.now more = [] ∧ t.run? more = some t' ∧ t'.pending = []) ∧
      t.grants.filter (·.pace = .interactive) =
        (calls.filter (·.1 = .interactive)).map (fun c => ⟨c.1, c.2, c.2.called, c.2.called⟩) ∧
      (Turnstile.start interval).run? (events.filter fun e => !e.isInteractive) =
        some { t with grants := t.granted } := by
  have hstart := Turnstile.orderly_start interval
  have ht := hstart.run hpositive hrun
  have htickets := hstart.tickets_run hpositive hrun
  have hforecast := hstart.forecast_run hpositive hrun []
  have hinteractive := Turnstile.interactive_of_run hrun
  have hquiet := Turnstile.run?_quiet (Turnstile.start interval) events
  rw [hrun] at hquiet
  refine ⟨ht.first, ht.follows.imp fun a b hnext => ⟨hnext.turn_le, hnext.time_eq⟩, ht.apart,
    ht.called, htickets, ?_, fun f hf => Turnstile.foretold_interactive hf,
    Turnstile.exists_run_pending_nil t, hinteractive, hquiet⟩
  rw [List.append_nil, Turnstile.forecast_start, ← Turnstile.foretold_background] at hforecast
  exact ⟨_, hforecast⟩

/-- Two background calls are made at once and a third one later, and two calls for which a listener
waits in between, while the second one sleeps. -/
theorem background_calls_are_spaced_five :
    let events : List Turnstile.Event :=
      [.acquire 1 0, .acquire 2 0, .take, .grant, .take, .pass 400, .acquire 3 1, .acquire 4 2,
        .pass 600, .grant, .pass 2500, .acquire 5 0, .take, .grant]
    ∃ t, 0 < 1000 ∧ (Turnstile.start 1000).run? events = some t ∧
      t.grants.map (fun g => (g.ticket.task, g.time)) =
        [(1, 0), (3, 400), (4, 400), (2, 1000), (5, 3500)] ∧
      (t.granted.Pairwise fun a b => a.time + 1000 ≤ b.time) ∧
      (Turnstile.start 1000).run? (events.filter fun e => !e.isInteractive) =
        some { t with grants := t.granted } := by
  intro events
  have hruns : (((Turnstile.start 1000).run? events).map fun t =>
      t.grants.map fun g => (g.ticket.task, g.time)) =
        some [(1, 0), (3, 400), (4, 400), (2, 1000), (5, 3500)] := by
    decide
  obtain ⟨t, hrun, hgrants⟩ := Option.map_eq_some_iff.1 hruns
  obtain ⟨-, -, hapart, -, -, -, -, -, -, hquiet⟩ := background_calls_are_spaced (by decide) hrun
  exact ⟨t, by decide, hrun, hgrants, hapart, hquiet⟩

end Jukebox
