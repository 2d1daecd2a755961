import Jukebox.Schedule.Run
import Mathlib.Data.List.Nodup
import Mathlib.Data.Prod.Lex

/-!
# Jobs in their order

What the clock of a run does at each step (`Run.step?_cases`): it starts the job that is due first
or ends the one that ends first, whichever comes first. When it can do neither, nothing is due
any more (`Run.step?_none`), and a run never needs more steps than `Run.advance` allows it
(`Run.step?_steps`).
-/

namespace Jukebox

/-! ## Lists whose entries have numbers of their own -/

section Numbered

variable {α : Type} (number : α → Nat) {l : List α} {a : α}

/-- A list is one of its entries and those with another number. -/
theorem perm_cons_filter_ne (hnodup : l.Pairwise fun b c => number b ≠ number c) (ha : a ∈ l) :
    l.Perm (a :: l.filter fun b => number b ≠ number a) := by
  induction l with
  | nil => cases ha
  | cons b l ih =>
    obtain ⟨hb, hl⟩ := List.pairwise_cons.1 hnodup
    rcases List.mem_cons.1 ha with rfl | ha
    · have hkept : l.filter (fun c => number c ≠ number a) = l :=
        List.filter_eq_self.2 fun c hc => by simpa using (hb c hc).symm
      rw [List.filter_cons_of_neg (by simp), hkept]
    · rw [List.filter_cons_of_pos (by simpa using hb a ha)]
      exact ((ih hl ha).cons b).trans (.swap a b _)

/-- A number names one entry. -/
theorem eq_of_number (hnodup : l.Pairwise fun b c => number b ≠ number c) {b : α} (hb : b ∈ l)
    (ha : a ∈ l) (heq : number b = number a) : b = a :=
  List.inj_on_of_nodup_map (List.pairwise_map.2 hnodup) hb ha heq

/-- Entries that an entry is not among stay when it goes. -/
theorem filter_filter_ne (hnodup : l.Pairwise fun b c => number b ≠ number c) (ha : a ∈ l)
    {p : α → Bool} (hp : p a = false) :
    (l.filter fun b => number b ≠ number a).filter p = l.filter p := by
  rw [List.filter_filter]
  refine List.filter_congr fun b hb => ?_
  by_cases heq : number b = number a
  · rw [eq_of_number number hnodup hb ha heq, hp]
    rfl
  · simp [heq]

end Numbered

/-! ## Searches for what comes first -/

section First

variable {α β : Type} [LinearOrder β] (place : α → β) (before : α → α → Bool)

/-- What a search has found, after it has seen one more entry. -/
def keepFirst (best : Option α) (a : α) : Option α :=
  match best with
  | none => some a
  | some b => if before a b then some a else some b

variable {before}

/-- A search finds an entry of its list that no other one comes before. -/
theorem foldl_keepFirst (hbefore : ∀ a b, before a b ↔ place a < place b) (l : List α) (best : α) :
    ∃ a, l.foldl (keepFirst before) (some best) = some a ∧ a ∈ best :: l ∧
      ∀ b ∈ best :: l, place a ≤ place b := by
  induction l generalizing best with
  | nil => exact ⟨best, rfl, List.mem_cons_self, by simp⟩
  | cons c l ih =>
    by_cases hcb : before c best
    · obtain ⟨a, hfound, hmem, hle⟩ := ih c
      have hc := hle c List.mem_cons_self
      refine ⟨a, ?_, List.mem_cons_of_mem best hmem, ?_⟩
      · rw [List.foldl_cons, keepFirst, if_pos hcb]
        exact hfound
      · exact List.forall_mem_cons.2 ⟨hc.trans ((hbefore c best).1 hcb).le, hle⟩
    · obtain ⟨a, hfound, hmem, hle⟩ := ih best
      obtain ⟨hbest, hl⟩ := List.forall_mem_cons.1 hle
      refine ⟨a, ?_, ?_, ?_⟩
      · rw [List.foldl_cons, keepFirst, if_neg hcb]
        exact hfound
      · rcases List.mem_cons.1 hmem with rfl | hmem
        · exact List.mem_cons_self
        · exact List.mem_cons_of_mem best (List.mem_cons_of_mem c hmem)
      · refine List.forall_mem_cons.2 ⟨hbest, List.forall_mem_cons.2 ⟨?_, hl⟩⟩
        exact hbest.trans (not_lt.1 fun hlt => hcb ((hbefore c best).2 hlt))

variable {l : List α} {a : α}

theorem foldl_keepFirst_none (hbefore : ∀ a b, before a b ↔ place a < place b)
    (h : l.foldl (keepFirst before) none = none) : l = [] := by
  cases l with
  | nil => rfl
  | cons a l =>
    obtain ⟨b, hfound, -⟩ := foldl_keepFirst place hbefore l a
    exact nomatch Eq.trans hfound.symm h

theorem foldl_keepFirst_some (hbefore : ∀ a b, before a b ↔ place a < place b)
    (h : l.foldl (keepFirst before) none = some a) : a ∈ l ∧ ∀ b ∈ l, place a ≤ place b := by
  cases l with
  | nil => cases h
  | cons c l =>
    obtain ⟨b, hfound, hb⟩ := foldl_keepFirst place hbefore l c
    cases Option.some.inj (Eq.trans hfound.symm h)
    exact hb

/-- A search finds the one entry that no other one comes before. -/
theorem foldl_keepFirst_eq_some (hbefore : ∀ a b, before a b ↔ place a < place b) (ha : a ∈ l)
    (hfirst : ∀ b ∈ l, place a ≤ place b) (hone : ∀ b ∈ l, place b = place a → b = a) :
    l.foldl (keepFirst before) none = some a := by
  cases hfound : l.foldl (keepFirst before) none with
  | none =>
    rw [foldl_keepFirst_none place hbefore hfound] at ha
    cases ha
  | some b =>
    obtain ⟨hb, hle⟩ := foldl_keepFirst_some place hbefore hfound
    rw [hone b hb (le_antisymm (hle a ha) (hfirst b hb))]

theorem time_le {time number time' number' : Nat}
    (h : toLex (time, number) ≤ toLex (time', number')) : time ≤ time' :=
  Prod.Lex.monotone_fst _ _ h

/-- The order by times and then by numbers. -/
theorem earlier_iff (time number time' number' : Nat) :
    (time < time' || (time == time' && number < number')) = true ↔
      toLex (time, number) < toLex (time', number') := by
  simp [Prod.Lex.toLex_lt_toLex]

end First

variable {J : Type}

/-! ## The job that starts first and the one that ends first -/

/-- When a job is to start, and which of those of that time it is. -/
def Waiting.place (w : Waiting J) : ℕ ×ₗ ℕ := toLex (w.due, w.number)

theorem Waiting.before_iff (a b : Waiting J) : a.before b ↔ a.place < b.place :=
  earlier_iff a.due a.number b.due b.number

namespace Schedule

theorem first?_eq (s : Schedule J) :
    s.first? = s.waiting.foldl (keepFirst Waiting.before) none := by
  unfold first?
  congr 1
  funext best w
  cases best <;> rfl

theorem first?_none {s : Schedule J} (h : s.first? = none) : s.waiting = [] :=
  foldl_keepFirst_none Waiting.place Waiting.before_iff (s.first?_eq.symm.trans h)

theorem first?_some {s : Schedule J} {w : Waiting J} (h : s.first? = some w) :
    w ∈ s.waiting ∧ ∀ v ∈ s.waiting, w.place ≤ v.place :=
  foldl_keepFirst_some Waiting.place Waiting.before_iff (s.first?_eq.symm.trans h)

/-- When a job is to end, and which of those of that time it is. -/
def Running.place (x : Running J) : ℕ ×ₗ ℕ := toLex (x.ends, x.number)

/-- Whether a running job is to end before another one. -/
def Running.before (a b : Running J) : Bool :=
  a.ends < b.ends || (a.ends == b.ends && a.number < b.number)

theorem Running.before_iff (a b : Running J) : a.before b ↔ a.place < b.place :=
  earlier_iff a.ends a.number b.ends b.number

namespace Run

theorem firstEnd?_eq (r : Run J) :
    r.firstEnd? = r.running.foldl (keepFirst Running.before) none := by
  unfold firstEnd?
  congr 1
  funext best x
  cases best <;> rfl

theorem firstEnd?_none {r : Run J} (h : r.firstEnd? = none) : r.running = [] :=
  foldl_keepFirst_none Running.place Running.before_iff (r.firstEnd?_eq.symm.trans h)

theorem firstEnd?_some {r : Run J} {x : Running J} (h : r.firstEnd? = some x) :
    x ∈ r.running ∧ ∀ y ∈ r.running, x.place ≤ y.place :=
  foldl_keepFirst_some Running.place Running.before_iff (r.firstEnd?_eq.symm.trans h)

/-! ## Steps -/

variable {duration : J → Nat} {r r' : Run J} {time : Nat}

/-- A step starts a job or ends one, and nothing comes before it. -/
theorem step?_cases (h : r.step? duration time = some r') :
    (∃ w ∈ r.schedule.waiting, w.due ≤ time ∧ (∀ v ∈ r.schedule.waiting, w.place ≤ v.place) ∧
      (∀ x ∈ r.running, w.place ≤ x.place) ∧ r' = r.start duration w) ∨
    ∃ x ∈ r.running, x.ends ≤ time ∧ (∀ w ∈ r.schedule.waiting, x.place ≤ w.place) ∧
      (∀ y ∈ r.running, x.place ≤ y.place) ∧ r' = r.finish x := by
  unfold step? at h
  cases hfirst : r.schedule.first? with
  | none =>
    have hwaiting := first?_none hfirst
    cases hend : r.firstEnd? with
    | none =>
      rw [hfirst, hend] at h
      cases h
    | some x =>
      obtain ⟨hx, hleast⟩ := firstEnd?_some hend
      rw [hfirst, hend] at h
      obtain ⟨hdue, heq⟩ := Option.ite_none_right_eq_some.1 h
      exact .inr ⟨x, hx, hdue, by simp [hwaiting], hleast, (Option.some.inj heq).symm⟩
  | some w =>
    obtain ⟨hw, hfirstDue⟩ := first?_some hfirst
    cases hend : r.firstEnd? with
    | none =>
      have hrunning := firstEnd?_none hend
      rw [hfirst, hend] at h
      obtain ⟨hdue, heq⟩ := Option.ite_none_right_eq_some.1 h
      exact .inl ⟨w, hw, hdue, hfirstDue, by simp [hrunning], (Option.some.inj heq).symm⟩
    | some x =>
      obtain ⟨hx, hfirstEnd⟩ := firstEnd?_some hend
      have hbefore := earlier_iff w.due w.number x.ends x.number
      rw [hfirst, hend] at h
      dsimp only at h
      split at h
      · rename_i hearlier
        obtain ⟨hdue, heq⟩ := Option.ite_none_right_eq_some.1 h
        refine .inl ⟨w, hw, hdue, hfirstDue, fun y hy => ?_, (Option.some.inj heq).symm⟩
        exact (hbefore.1 hearlier).le.trans (hfirstEnd y hy)
      · rename_i hlater
        obtain ⟨hdue, heq⟩ := Option.ite_none_right_eq_some.1 h
        refine .inr ⟨x, hx, hdue, fun v hv => ?_, hfirstEnd, (Option.some.inj heq).symm⟩
        exact (not_lt.1 fun hlt => hlater (hbefore.2 hlt)).trans (hfirstDue v hv)

/-- A job that is due starts when nothing comes before it. -/
theorem step?_start {w : Waiting J} (hw : w ∈ r.schedule.waiting) (hdue : w.due ≤ time)
    (hnodup : r.schedule.waiting.Pairwise fun u v => u.number ≠ v.number)
    (hfirst : ∀ v ∈ r.schedule.waiting, w.place ≤ v.place)
    (hends : ∀ x ∈ r.running, w.place < x.place) :
    r.step? duration time = some (r.start duration w) := by
  have hnext : r.schedule.first? = some w := by
    refine r.schedule.first?_eq.trans
      (foldl_keepFirst_eq_some Waiting.place Waiting.before_iff hw hfirst fun v hv heq => ?_)
    exact eq_of_number Waiting.number hnodup hv hw (congrArg Prod.snd (toLex_inj.1 heq))
  unfold step?
  rw [hnext]
  cases hend : r.firstEnd? with
  | none => exact if_pos hdue
  | some x =>
    have hbefore := (earlier_iff w.due w.number x.ends x.number).2 (hends x (firstEnd?_some hend).1)
    exact (if_pos hbefore).trans (if_pos hdue)

/-- A job that has taken its time ends when nothing comes before that. -/
theorem step?_finish {x : Running J} (hx : x ∈ r.running) (hdue : x.ends ≤ time)
    (hnodup : r.running.Pairwise fun y z => y.number ≠ z.number)
    (hfirst : ∀ w ∈ r.schedule.waiting, x.place < w.place)
    (hends : ∀ y ∈ r.running, x.place ≤ y.place) :
    r.step? duration time = some (r.finish x) := by
  have hnext : r.firstEnd? = some x := by
    refine r.firstEnd?_eq.trans
      (foldl_keepFirst_eq_some Running.place Running.before_iff hx hends fun y hy heq => ?_)
    exact eq_of_number Running.number hnodup hy hx (congrArg Prod.snd (toLex_inj.1 heq))
  unfold step?
  rw [hnext]
  cases hstart : r.schedule.first? with
  | none => exact if_pos hdue
  | some w =>
    have hlater : ¬ w.place < x.place := not_lt.2 (hfirst w (first?_some hstart).1).le
    have hbefore := mt (earlier_iff w.due w.number x.ends x.number).1 hlater
    exact (if_neg hbefore).trans (if_pos hdue)

/-- When there is no step, nothing is due. -/
theorem step?_none (h : r.step? duration time = none) :
    (∀ w ∈ r.schedule.waiting, time < w.due) ∧ ∀ x ∈ r.running, time < x.ends := by
  unfold step? at h
  cases hfirst : r.schedule.first? with
  | none =>
    have hwaiting := first?_none hfirst
    refine ⟨by simp [hwaiting], ?_⟩
    cases hend : r.firstEnd? with
    | none => simp [firstEnd?_none hend]
    | some x =>
      rw [hfirst, hend] at h
      have hlate : ¬ x.ends ≤ time := by simpa using h
      exact fun y hy => (not_le.1 hlate).trans_le (time_le ((firstEnd?_some hend).2 y hy))
  | some w =>
    have hleast := (first?_some hfirst).2
    cases hend : r.firstEnd? with
    | none =>
      rw [hfirst, hend] at h
      have hlate : ¬ w.due ≤ time := by simpa using h
      refine ⟨fun v hv => ?_, by simp [firstEnd?_none hend]⟩
      exact (not_le.1 hlate).trans_le (time_le (hleast v hv))
    | some x =>
      have hbefore := earlier_iff w.due w.number x.ends x.number
      rw [hfirst, hend] at h
      have hlate : time < w.due ∧ time < x.ends := by
        dsimp only at h
        split at h
        · rename_i hearlier
          have hw : time < w.due := by simpa using h
          exact ⟨hw, hw.trans_le (time_le (hbefore.1 hearlier).le)⟩
        · rename_i hlater
          have hx : time < x.ends := by simpa using h
          exact ⟨hx.trans_le (time_le (not_lt.1 fun hlt => hlater (hbefore.2 hlt))), hx⟩
      refine ⟨fun v hv => ?_, fun y hy => ?_⟩
      · exact hlate.1.trans_le (time_le (hleast v hv))
      · exact hlate.2.trans_le (time_le ((firstEnd?_some hend).2 y hy))

/-- When nothing is due, there is no step. -/
theorem step?_eq_none (hwaiting : ∀ w ∈ r.schedule.waiting, time < w.due)
    (hrunning : ∀ x ∈ r.running, time < x.ends) : r.step? duration time = none := by
  cases hstep : r.step? duration time with
  | none => rfl
  | some r' =>
    rcases step?_cases hstep with ⟨w, hw, hdue, -⟩ | ⟨x, hx, hdue, -⟩
    · exact absurd hdue (not_le.2 (hwaiting w hw))
    · exact absurd hdue (not_le.2 (hrunning x hx))

/-! ## Numbers -/

/-- Whether the numbers tell the jobs of a run apart, those that wait and those that run. -/
structure Numbered (r : Run J) : Prop where
  waiting_lt : ∀ w ∈ r.schedule.waiting, w.number < r.schedule.nextNumber
  waiting_nodup : r.schedule.waiting.Pairwise fun v w => v.number ≠ w.number
  running_lt : ∀ x ∈ r.running, x.number < r.schedule.nextNumber
  running_nodup : r.running.Pairwise fun x y => x.number ≠ y.number
  apart : ∀ w ∈ r.schedule.waiting, ∀ x ∈ r.running, w.number ≠ x.number

theorem numbered_empty : ({} : Run J).Numbered where
  waiting_lt := by simp
  waiting_nodup := .nil
  running_lt := by simp
  running_nodup := .nil
  apart := by simp

theorem Numbered.start (hr : r.Numbered) (duration : J → Nat) (w : Waiting J) :
    (r.start duration w).Numbered := by
  have hkept : ∀ v ∈ (r.schedule.remove w.number).waiting, v ∈ r.schedule.waiting :=
    fun v hv => (List.mem_filter.1 hv).1
  unfold Run.start
  split
  · exact ⟨fun v hv => hr.waiting_lt v (hkept v hv), hr.waiting_nodup.filter _, hr.running_lt,
      hr.running_nodup, fun v hv => hr.apart v (hkept v hv)⟩
  · refine ⟨fun v hv => Nat.lt_succ_of_lt (hr.waiting_lt v (hkept v hv)),
      hr.waiting_nodup.filter _, List.forall_mem_append.2 ⟨?_, ?_⟩,
      List.pairwise_append.2 ⟨hr.running_nodup, List.pairwise_singleton _ _, ?_⟩,
      fun v hv => List.forall_mem_append.2 ⟨hr.apart v (hkept v hv), ?_⟩⟩
    · exact fun x hx => Nat.lt_succ_of_lt (hr.running_lt x hx)
    · exact List.forall_mem_singleton.2 (Nat.lt_succ_self _)
    · exact fun x hx => List.forall_mem_singleton.2 (Nat.ne_of_lt (hr.running_lt x hx))
    · exact List.forall_mem_singleton.2 (Nat.ne_of_lt (hr.waiting_lt v (hkept v hv)))

theorem Numbered.finish (hr : r.Numbered) (x : Running J) : (r.finish x).Numbered where
  waiting_lt := hr.waiting_lt
  waiting_nodup := hr.waiting_nodup
  running_lt y hy := hr.running_lt y (List.mem_filter.1 hy).1
  running_nodup := hr.running_nodup.filter _
  apart w hw y hy := hr.apart w hw y (List.mem_filter.1 hy).1

theorem Numbered.filter (hr : r.Numbered) (p : Waiting J → Bool) :
    Numbered { r with schedule := { r.schedule with waiting := r.schedule.waiting.filter p } } where
  waiting_lt w hw := hr.waiting_lt w (List.mem_filter.1 hw).1
  waiting_nodup := hr.waiting_nodup.filter p
  running_lt := hr.running_lt
  running_nodup := hr.running_nodup
  apart w hw := hr.apart w (List.mem_filter.1 hw).1

theorem Numbered.later (hr : r.Numbered) (key : String) (due : Nat) (job : J) :
    Numbered { r with schedule := r.schedule.later key due job } where
  waiting_lt := by
    refine List.forall_mem_append.2 ⟨fun w hw => ?_, List.forall_mem_singleton.2 ?_⟩
    · exact Nat.lt_succ_of_lt (hr.waiting_lt w (List.mem_filter.1 hw).1)
    · exact Nat.lt_succ_self _
  waiting_nodup := by
    refine List.pairwise_append.2 ⟨hr.waiting_nodup.filter _, List.pairwise_singleton _ _, ?_⟩
    intro v hv
    exact List.forall_mem_singleton.2 (Nat.ne_of_lt (hr.waiting_lt v (List.mem_filter.1 hv).1))
  running_lt x hx := Nat.lt_succ_of_lt (hr.running_lt x hx)
  running_nodup := hr.running_nodup
  apart := by
    refine List.forall_mem_append.2 ⟨fun w hw => hr.apart w (List.mem_filter.1 hw).1, ?_⟩
    exact List.forall_mem_singleton.2 fun x hx => (Nat.ne_of_lt (hr.running_lt x hx)).symm

/-! ## Coming to an end -/

/-- How many steps a run has left at most: each waiting job can start and end. -/
def stepsLeft (r : Run J) : Nat := 2 * r.schedule.waiting.length + r.running.length

theorem stepsLeft_step? (h : r.step? duration time = some r') : r'.stepsLeft < r.stepsLeft := by
  rcases step?_cases h with ⟨w, hw, -, -, -, rfl⟩ | ⟨x, hx, -, -, -, rfl⟩
  · have hfewer : (r.schedule.remove w.number).waiting.length < r.schedule.waiting.length := by
      unfold remove
      exact List.length_filter_lt_length_iff_exists.2 ⟨w, hw, by simp⟩
    unfold start stepsLeft
    dsimp only
    split
    · dsimp only
      omega
    · simp only [fresh, List.length_append, List.length_singleton]
      omega
  · have hfewer : (r.running.filter fun y => y.number ≠ x.number).length < r.running.length :=
      List.length_filter_lt_length_iff_exists.2 ⟨x, hx, by simp⟩
    unfold finish stepsLeft
    dsimp only
    omega

theorem steps_of_none (h : r.step? duration time = none) (fuel : Nat) :
    steps duration time fuel r = r := by
  cases fuel with
  | zero => rfl
  | succ fuel => rw [steps, h]

/-- After as many steps as a run has left, it has come to its end. -/
theorem step?_steps {fuel : Nat} (hfuel : r.stepsLeft ≤ fuel) :
    (steps duration time fuel r).step? duration time = none := by
  induction fuel generalizing r with
  | zero =>
    cases hstep : r.step? duration time with
    | none => exact hstep
    | some r' =>
      have hless := stepsLeft_step? hstep
      omega
  | succ fuel ih =>
    unfold steps
    cases hstep : r.step? duration time with
    | none => exact hstep
    | some r' =>
      have hless := stepsLeft_step? hstep
      exact ih (by omega)

/-- What every step keeps holds after any number of steps. -/
theorem steps_kept {P : Run J → Prop}
    (hstep : ∀ r r', P r → r.step? duration time = some r' → P r') (fuel : Nat) (hr : P r) :
    P (steps duration time fuel r) := by
  induction fuel generalizing r with
  | zero => exact hr
  | succ fuel ih =>
    unfold steps
    cases h : r.step? duration time with
    | none => exact hr
    | some r' => exact ih (hstep r r' hr h)

end Run

end Schedule

end Jukebox
