import Jukebox.Proofs.Waiting
import Jukebox.Scheduler

/-!
# Tasks and the schedule they keep

The jobs that wait are those of the tasks that sleep to start them and were not aborted
(`Scheduler.schedule`). As long as the table and the tasks agree (`Scheduler.Sound`), what is done
to a scheduler is done to that schedule:

1. a task that a key stands for is the only one that is not aborted and looks itself up under that
   key (`Sound.waits_iff`), so aborting it takes the one job off that waits there
   (`Sound.withdraws`);
2. a job that is entered under a key that stands for nothing joins the jobs that wait
   (`Sound.enter`); what replaces another job is entered after that one is cancelled
   (`Sound.later_eq`);
3. hence each operation of a scheduler does to its schedule what the operation of that name does,
   and gives the same answer.

An aborted task that still looks itself up finds another generation than its own, or none. This
needs a generation that no such task has when a job is entered (`Fresh`).
-/

namespace Jukebox

variable {J : Type}

/-! ## What can be seen of a task -/

/-- How often a task still wakes at most. -/
def Errand.turns : Errand J → Nat
  | finish _ => 1
  | _ => 2

namespace Sleeper

/-- A task that is to start its job, as a job that waits. -/
def waiting? (x : Sleeper J) : Option (Waiting J) :=
  if x.aborted then none
  else
    match x.errand with
    | .lookUp key _ job => some ⟨some key, x.number, x.wakes, job⟩
    | .start job => some ⟨none, x.number, x.wakes, job⟩
    | .finish _ => none

/-- A task whose job runs, as a running job. -/
def running? (x : Sleeper J) : Option (Schedule.Running J) :=
  match x.errand with
  | .finish job => some ⟨x.number, x.wakes, job⟩
  | _ => none

/-- When a task wakes, and which of those of that time it is. -/
def place (x : Sleeper J) : ℕ ×ₗ ℕ := toLex (x.wakes, x.number)

theorem before_iff (a b : Sleeper J) : a.before b ↔ a.place < b.place :=
  earlier_iff a.wakes a.number b.wakes b.number

variable {x : Sleeper J} {w : Waiting J} {y : Schedule.Running J}

theorem waiting?_of_aborted (h : x.aborted) : x.waiting? = none := if_pos h

theorem waiting?_some (h : x.waiting? = some w) :
    x.aborted = false ∧ w.number = x.number ∧ w.due = x.wakes := by
  unfold waiting? at h
  split at h
  · cases h
  · rename_i hlive
    refine ⟨by simpa using hlive, ?_⟩
    split at h
    · cases h
      exact ⟨rfl, rfl⟩
    · cases h
      exact ⟨rfl, rfl⟩
    · cases h

theorem running?_some (h : x.running? = some y) : y.number = x.number ∧ y.ends = x.wakes := by
  unfold running? at h
  split at h
  · cases h
    exact ⟨rfl, rfl⟩
  · cases h

theorem place_of_waiting? (h : x.waiting? = some w) : w.place = x.place := by
  obtain ⟨-, hnumber, hdue⟩ := waiting?_some h
  rw [Waiting.place, place, hnumber, hdue]

theorem place_of_running? (h : x.running? = some y) : y.place = x.place := by
  obtain ⟨hnumber, hends⟩ := running?_some h
  rw [Schedule.Running.place, place, hnumber, hends]

/-- A job does not run while it waits. -/
theorem running?_of_waiting? (h : x.waiting? = some w) : x.running? = none := by
  unfold running?
  split
  · rename_i herrand
    simp [waiting?, herrand] at h
  · rfl

/-- A task whose job waits wakes to start it and wakes to end it. -/
theorem turns_of_waiting? (h : x.waiting? = some w) : x.errand.turns = 2 := by
  unfold Errand.turns
  split
  · rename_i herrand
    simp [waiting?, herrand] at h
  · rfl

/-- A task whose job waits under a key looks itself up under that key. -/
theorem errand_of_key {key : String} (h : x.waiting? = some w) (hkey : w.key = some key) :
    ∃ generation job, x.errand = .lookUp key generation job := by
  unfold waiting? at h
  split at h
  · cases h
  · split at h
    · rename_i herrand
      cases h
      cases hkey
      exact ⟨_, _, herrand⟩
    · cases h
      cases hkey
    · cases h

end Sleeper

namespace Scheduler

/-- The jobs that wait. -/
def schedule (s : Scheduler J) : Schedule J := ⟨s.asleep.filterMap Sleeper.waiting?, s.nextNumber⟩

/-- The jobs that run. -/
def running (s : Scheduler J) : List (Schedule.Running J) := s.asleep.filterMap Sleeper.running?

/-- Whether numbers tell the tasks apart. -/
structure Numbered (s : Scheduler J) : Prop where
  task_lt : ∀ x ∈ s.asleep, x.task < s.nextNumber
  number_lt : ∀ x ∈ s.asleep, x.number < s.nextNumber
  task_nodup : s.asleep.Pairwise fun x y => x.task ≠ y.task
  number_nodup : s.asleep.Pairwise fun x y => x.number ≠ y.number

/-- Whether numbers tell the tasks apart, a key stands for a task exactly when that task, not
aborted, sleeps to look itself up under it, and no aborted task finds itself. -/
structure Sound (heeds : Nat → Bool) (s : Scheduler J) : Prop extends Numbered s where
  sorted : s.pending.Sorted
  held : ∀ key p, s.pending.get? key = some p → ∃ x ∈ s.asleep, x.task = p.task ∧
    x.aborted = false ∧ ∃ job, x.errand = .lookUp key p.generation job
  listed : ∀ x ∈ s.asleep, x.aborted = false → ∀ key generation job,
    x.errand = .lookUp key generation job → s.pending.get? key = some ⟨generation, x.task⟩
  stale : ∀ x ∈ s.asleep, x.aborted → ∃ key generation job,
    x.errand = .lookUp key generation job ∧
      (heeds x.task ∨ ∀ p, s.pending.get? key = some p → p.generation ≠ generation)

/-- Whether no task that would not heed being aborted has the generation that comes next. -/
def Fresh (heeds : Nat → Bool) (s : Scheduler J) : Prop :=
  ∀ x ∈ s.asleep, heeds x.task ∨
    ∀ key generation job, x.errand = .lookUp key generation job → generation ≠ s.generation

theorem sound_empty (heeds : Nat → Bool) : Sound heeds ({} : Scheduler J) where
  task_lt := by simp
  number_lt := by simp
  task_nodup := .nil
  number_nodup := .nil
  sorted := Table.sorted_empty
  held _ _ hp := nomatch hp
  listed := by simp
  stale := by simp

variable {heeds : Nat → Bool} {s : Scheduler J} {key : String} {p : Pending} {x : Sleeper J}

/-- The one task that a key stands for. -/
theorem Sound.of_task (hs : s.Sound heeds) (hp : s.pending.get? key = some p) (hx : x ∈ s.asleep)
    (htask : x.task = p.task) :
    x.aborted = false ∧ ∃ job, x.errand = .lookUp key p.generation job := by
  obtain ⟨y, hy, hsame, hlive, herrand⟩ := hs.held key p hp
  have heq : y = x :=
    eq_of_number Sleeper.task hs.task_nodup hy hx (hsame.trans htask.symm)
  exact heq ▸ ⟨hlive, herrand⟩

/-- The job that waits under a key is that of the task that the key stands for. -/
theorem Sound.waits_iff (hs : s.Sound heeds) (hp : s.pending.get? key = some p) (hx : x ∈ s.asleep)
    {w : Waiting J} (hw : x.waiting? = some w) : w.key = some key ↔ x.task = p.task := by
  obtain ⟨hlive, -, -⟩ := Sleeper.waiting?_some hw
  refine ⟨fun hkey => ?_, fun htask => ?_⟩
  · obtain ⟨generation, job, herrand⟩ := Sleeper.errand_of_key hw hkey
    have hlisted := hs.listed x hx hlive key generation job herrand
    exact congrArg Pending.task (Option.some.inj (hlisted.symm.trans hp))
  · obtain ⟨-, job, herrand⟩ := hs.of_task hp hx htask
    rw [Sleeper.waiting?, hlive, herrand] at hw
    cases hw
    rfl

/-- Jobs wait under those keys only that stand for tasks. -/
theorem Sound.isPending_of_key (hs : s.Sound heeds) {w : Waiting J} (hw : w ∈ s.schedule.waiting)
    (hkey : w.key = some key) : s.isPending key := by
  obtain ⟨x, hx, hwaits⟩ := List.mem_filterMap.1 hw
  obtain ⟨generation, job, herrand⟩ := Sleeper.errand_of_key hwaits hkey
  have hlisted := hs.listed x hx (Sleeper.waiting?_some hwaits).1 key generation job herrand
  rw [isPending, Table.contains, hlisted]
  rfl

theorem Sound.isPending_schedule (hs : s.Sound heeds) (key : String) :
    s.isPending key = s.schedule.isPending key := by
  rw [Bool.eq_iff_iff]
  refine ⟨fun hpending => ?_, fun hwaits => ?_⟩
  · obtain ⟨p, hp⟩ := Option.isSome_iff_exists.1 hpending
    obtain ⟨x, hx, -, hlive, job, herrand⟩ := hs.held key p hp
    refine List.any_eq_true.2 ⟨⟨some key, x.number, x.wakes, job⟩, ?_, by simp⟩
    exact List.mem_filterMap.2 ⟨x, hx, by rw [Sleeper.waiting?, hlive, herrand]; rfl⟩
  · obtain ⟨w, hw, hkey⟩ := List.any_eq_true.1 hwaits
    exact hs.isPending_of_key hw (by simpa using hkey)

end Scheduler

/-! ## Taking keys off -/

namespace Sleeper

/-- A task after some tasks were aborted. -/
def mark (tasks : List Nat) (x : Sleeper J) : Sleeper J :=
  if x.task ∈ tasks then { x with aborted := true } else x

variable (tasks : List Nat) (x : Sleeper J)

@[simp] theorem mark_task : (x.mark tasks).task = x.task := by
  unfold mark
  split <;> rfl

@[simp] theorem mark_number : (x.mark tasks).number = x.number := by
  unfold mark
  split <;> rfl

@[simp] theorem mark_errand : (x.mark tasks).errand = x.errand := by
  unfold mark
  split <;> rfl

@[simp] theorem mark_running? : (x.mark tasks).running? = x.running? := by
  unfold mark
  split <;> rfl

theorem mark_aborted : (x.mark tasks).aborted = (x.aborted || decide (x.task ∈ tasks)) := by
  unfold mark
  split
  · rename_i htask
    simp [htask]
  · rename_i htask
    simp [htask]

theorem mark_waiting? :
    (x.mark tasks).waiting? = if x.task ∈ tasks then none else x.waiting? := by
  unfold mark
  split <;> rfl

theorem mark_mark (more : List Nat) : (x.mark tasks).mark more = x.mark (tasks ++ more) := by
  unfold mark
  by_cases hfirst : x.task ∈ tasks
  · simp [hfirst]
  · simp [hfirst]

end Sleeper

namespace Scheduler

/-- The tasks that some keys stand for. -/
def Names (P : String → Bool) (s : Scheduler J) (task : Nat) : Prop :=
  ∃ key p, P key ∧ s.pending.get? key = some p ∧ p.task = task

/-- Whether some keys were taken off a scheduler, and the tasks that they stand for aborted. -/
structure Withdraws (P : String → Bool) (s s' : Scheduler J) : Prop where
  pending : ∀ key, s'.pending.get? key = if P key then none else s.pending.get? key
  sorted : s.pending.Sorted → s'.pending.Sorted
  asleep : ∃ tasks, s'.asleep = s.asleep.map (Sleeper.mark tasks) ∧
    ∀ task, task ∈ tasks ↔ s.Names P task
  nextNumber : s'.nextNumber = s.nextNumber
  generation : s'.generation = s.generation

variable {heeds : Nat → Bool} {P Q : String → Bool} {s s' s'' : Scheduler J}

theorem abort_asleep (s : Scheduler J) (task : Nat) :
    (s.abort task).asleep = s.asleep.map (Sleeper.mark [task]) := by
  unfold abort Sleeper.mark
  simp

theorem Withdraws.trans (h : s.Withdraws P s') (h' : s'.Withdraws Q s'') :
    s.Withdraws (fun key => P key || Q key) s'' where
  pending key := by
    rw [h'.pending, h.pending]
    cases P key <;> cases Q key <;> rfl
  sorted hsorted := h'.sorted (h.sorted hsorted)
  asleep := by
    obtain ⟨tasks, hasleep, htasks⟩ := h.asleep
    obtain ⟨more, hasleep', hmore⟩ := h'.asleep
    refine ⟨tasks ++ more, ?_, fun task => ?_⟩
    · rw [hasleep', hasleep, List.map_map]
      exact List.map_congr_left fun x _ => x.mark_mark tasks more
    · rw [List.mem_append, htasks, hmore]
      refine ⟨?_, ?_⟩
      · rintro (⟨key, p, hkey, hp, htask⟩ | ⟨key, p, hkey, hp, htask⟩)
        · exact ⟨key, p, by simp [hkey], hp, htask⟩
        · rw [h.pending] at hp
          split at hp
          · cases hp
          · exact ⟨key, p, by simp [hkey], hp, htask⟩
      · rintro ⟨key, p, hkey, hp, htask⟩
        by_cases hfirst : P key
        · exact .inl ⟨key, p, hfirst, hp, htask⟩
        · have hsecond : Q key := by simpa [hfirst] using hkey
          exact .inr ⟨key, p, hsecond, by rw [h.pending, if_neg hfirst, hp], htask⟩
  nextNumber := h'.nextNumber.trans h.nextNumber
  generation := h'.generation.trans h.generation

theorem withdraws_cancel (s : Scheduler J) (key : String) :
    s.Withdraws (fun other => other = key) (s.cancel key).2 := by
  unfold cancel
  cases hp : s.pending.get? key with
  | none =>
    refine ⟨fun other => ?_, id, ⟨[], ?_, fun task => ?_⟩, rfl, rfl⟩
    · by_cases hother : other = key
      · simp [hother, hp]
      · simp [hother]
    · exact (List.map_id'' (fun x => by simp [Sleeper.mark]) _).symm
    · simp [Names, hp]
  | some p =>
    refine ⟨fun other => ?_, fun hsorted => hsorted.erase key, ⟨[p.task], ?_, fun task => ?_⟩,
      rfl, rfl⟩
    · simp [abort, Table.get?_erase]
    · exact abort_asleep _ _
    · simp [Names, hp, eq_comm]

/-- Taking keys off concerns those only that stand for tasks. -/
theorem Withdraws.congr (h : s.Withdraws P s')
    (hsame : ∀ key p, s.pending.get? key = some p → P key = Q key) : s.Withdraws Q s' := by
  obtain ⟨tasks, hasleep, htasks⟩ := h.asleep
  refine ⟨fun key => ?_, h.sorted, ⟨tasks, hasleep, fun task => (htasks task).trans ?_⟩,
    h.nextNumber, h.generation⟩
  · rw [h.pending]
    cases hp : s.pending.get? key with
    | none => simp
    | some p => rw [hsame key p hp]
  · refine exists_congr fun key => exists_congr fun p => ?_
    refine ⟨fun ⟨hkey, hp, htask⟩ => ⟨?_, hp, htask⟩, fun ⟨hkey, hp, htask⟩ => ⟨?_, hp, htask⟩⟩
    · rwa [← hsame key p hp]
    · rwa [hsame key p hp]

theorem withdraws_foldl_cancel (keys : List String) (s : Scheduler J) :
    s.Withdraws (fun key => key ∈ keys) (keys.foldl (fun s key => (s.cancel key).2) s) := by
  induction keys generalizing s with
  | nil =>
    refine ⟨fun key => by simp, id, ⟨[], ?_, by simp [Names]⟩, rfl, rfl⟩
    exact (List.map_id'' (fun x => by simp [Sleeper.mark]) _).symm
  | cons key keys ih =>
    refine ((withdraws_cancel s key).trans (ih (s.cancel key).2)).congr fun other p _ => ?_
    simp

theorem withdraws_cancelQueue (s : Scheduler J) (queueId : String) :
    s.Withdraws (keyOfQueue queueId) (s.cancelQueue queueId).2 := by
  refine (withdraws_foldl_cancel _ s).congr fun key p hp => ?_
  have hname : key ∈ s.pending.names := (s.pending.mem_names key).2 (by simp [Table.contains, hp])
  simp [hname]

theorem foldl_abort (removed : List Pending) (s : Scheduler J) :
    removed.foldl (fun s p => s.abort p.task) s =
      { s with asleep := s.asleep.map (Sleeper.mark (removed.map Pending.task)) } := by
  induction removed generalizing s with
  | nil => rw [List.map_nil, List.map_id'' fun x => by simp [Sleeper.mark]]; rfl
  | cons p removed ih =>
    have hmarks : (s.abort p.task).asleep.map (Sleeper.mark (removed.map Pending.task)) =
        s.asleep.map (Sleeper.mark ((p :: removed).map Pending.task)) := by
      rw [abort_asleep, List.map_map]
      exact List.map_congr_left fun x _ => x.mark_mark [p.task] _
    rw [List.foldl_cons, ih, hmarks]
    rfl

theorem withdraws_cancelAll (hsorted : s.pending.Sorted) :
    s.Withdraws (fun _ => true) s.cancelAll := by
  unfold cancelAll
  rw [foldl_abort]
  refine ⟨fun key => rfl, fun _ => Table.sorted_empty, ⟨_, rfl, fun task => ?_⟩, rfl, rfl⟩
  have hmem : ∀ p, p ∈ s.pending.values ↔ ∃ key, s.pending.get? key = some p := by
    intro p
    simp [Table.values, hsorted.get?_eq_some_iff]
  rw [List.mem_map]
  refine ⟨fun ⟨p, hp, htask⟩ => ?_, fun ⟨key, p, _, hp, htask⟩ => ⟨p, (hmem p).2 ⟨key, hp⟩, htask⟩⟩
  obtain ⟨key, hkey⟩ := (hmem p).1 hp
  exact ⟨key, p, rfl, hkey, htask⟩

/-- A task that is aborted when keys are taken off looks itself up under one of them. -/
theorem Sound.of_names (hs : s.Sound heeds) {x : Sleeper J} (hx : x ∈ s.asleep)
    (hnames : s.Names P x.task) :
    ∃ key generation job, P key ∧ x.errand = .lookUp key generation job := by
  obtain ⟨key, p, hkey, hp, htask⟩ := hnames
  obtain ⟨-, job, herrand⟩ := hs.of_task hp hx htask.symm
  exact ⟨key, p.generation, job, hkey, herrand⟩

/-- What sleeps after keys are taken off slept before. -/
theorem exists_mark {tasks : List Nat}
    (hasleep : s'.asleep = s.asleep.map (Sleeper.mark tasks)) {y : Sleeper J}
    (hy : y ∈ s'.asleep) : ∃ x ∈ s.asleep, x.mark tasks = y := by
  rw [hasleep] at hy
  exact List.mem_map.1 hy

theorem Numbered.withdraws (hs : s.Numbered) (h : s.Withdraws P s') : s'.Numbered := by
  obtain ⟨tasks, hasleep, -⟩ := h.asleep
  refine ⟨?_, ?_, ?_, ?_⟩
  · intro y hy
    obtain ⟨x, hx, rfl⟩ := exists_mark hasleep hy
    rw [Sleeper.mark_task, h.nextNumber]
    exact hs.task_lt x hx
  · intro y hy
    obtain ⟨x, hx, rfl⟩ := exists_mark hasleep hy
    rw [Sleeper.mark_number, h.nextNumber]
    exact hs.number_lt x hx
  · rw [hasleep, List.pairwise_map]
    simpa using hs.task_nodup
  · rw [hasleep, List.pairwise_map]
    simpa using hs.number_nodup

theorem Sound.withdraws (hs : s.Sound heeds) (h : s.Withdraws P s') : s'.Sound heeds := by
  obtain ⟨tasks, hasleep, htasks⟩ := h.asleep
  refine ⟨hs.toNumbered.withdraws h, h.sorted hs.sorted, ?_, ?_, ?_⟩
  · intro key p hp
    rw [h.pending] at hp
    obtain ⟨hkey, hp⟩ := Option.ite_none_left_eq_some.1 hp
    obtain ⟨x, hx, htask, hlive, job, herrand⟩ := hs.held key p hp
    -- a task that keeps its key is not aborted: it would look itself up under another one
    have hkept : x.task ∉ tasks := by
      intro hmem
      obtain ⟨other, _, _, hother, herrand'⟩ := hs.of_names hx ((htasks _).1 hmem)
      rw [herrand] at herrand'
      cases herrand'
      exact hkey hother
    refine ⟨x.mark tasks, ?_, by simpa using htask, ?_, job, by simpa using herrand⟩
    · rw [hasleep]
      exact List.mem_map_of_mem hx
    · simp [Sleeper.mark_aborted, hlive, hkept]
  · intro y hy hlive key generation job herrand
    obtain ⟨x, hx, rfl⟩ := exists_mark hasleep hy
    obtain ⟨hbefore, hkept⟩ : x.aborted = false ∧ x.task ∉ tasks := by
      simpa [Sleeper.mark_aborted] using hlive
    rw [Sleeper.mark_errand] at herrand
    have hlisted := hs.listed x hx hbefore key generation job herrand
    have hkey : ¬ P key := fun hkey => hkept ((htasks _).2 ⟨key, _, hkey, hlisted, rfl⟩)
    rw [h.pending, if_neg hkey, Sleeper.mark_task]
    exact hlisted
  · intro y hy habort
    obtain ⟨x, hx, rfl⟩ := exists_mark hasleep hy
    rw [Sleeper.mark_errand, Sleeper.mark_task]
    by_cases hmem : x.task ∈ tasks
    · obtain ⟨key, generation, job, hkey, herrand⟩ := hs.of_names hx ((htasks _).1 hmem)
      refine ⟨key, generation, job, herrand, .inr fun p hp => ?_⟩
      rw [h.pending, if_pos hkey] at hp
      cases hp
    · have hbefore : x.aborted := by simpa [Sleeper.mark_aborted, hmem] using habort
      obtain ⟨key, generation, job, herrand, hstale⟩ := hs.stale x hx hbefore
      refine ⟨key, generation, job, herrand, hstale.imp_right fun hother p hp => ?_⟩
      rw [h.pending] at hp
      exact hother p (Option.ite_none_left_eq_some.1 hp).2

/-- Taking keys off takes the jobs off that wait under them. -/
theorem Withdraws.schedule (h : s.Withdraws P s') (hs : s.Sound heeds) :
    s'.schedule =
      { s.schedule with waiting := s.schedule.waiting.filter fun w => !w.key.any P } := by
  obtain ⟨tasks, hasleep, htasks⟩ := h.asleep
  have hwaiting : s'.asleep.filterMap Sleeper.waiting? =
      (s.asleep.filterMap Sleeper.waiting?).filter fun w => !w.key.any P := by
    rw [hasleep, List.filterMap_map, List.filter_filterMap]
    refine List.filterMap_congr fun x hx => ?_
    rw [Function.comp_apply, Sleeper.mark_waiting?]
    cases hw : x.waiting? with
    | none => simp
    | some w =>
      have hiff : x.task ∈ tasks ↔ w.key.any P := by
        rw [htasks]
        refine ⟨fun ⟨key, p, hkey, hp, htask⟩ => ?_, fun hany => ?_⟩
        · rw [(hs.waits_iff hp hx hw).2 htask.symm]
          exact hkey
        · obtain ⟨key, hsome, hkey⟩ := Option.any_eq_true _ _ |>.1 hany
          obtain ⟨generation, job, herrand⟩ := Sleeper.errand_of_key hw hsome
          have hlive := (Sleeper.waiting?_some hw).1
          exact ⟨key, _, hkey, hs.listed x hx hlive key generation job herrand, rfl⟩
      by_cases hmem : x.task ∈ tasks
      · rw [if_pos hmem, Option.filter_some, hiff.1 hmem]
        rfl
      · have hnone : w.key.any P = false := by simpa using mt hiff.2 hmem
        rw [if_neg hmem, Option.filter_some, hnone]
        rfl
  unfold Scheduler.schedule
  rw [hwaiting, h.nextNumber]

theorem Withdraws.running (h : s.Withdraws P s') : s'.running = s.running := by
  obtain ⟨tasks, hasleep, -⟩ := h.asleep
  unfold Scheduler.running
  rw [hasleep, List.filterMap_map]
  exact List.filterMap_congr fun x _ => x.mark_running? tasks

/-! ## Going to sleep -/

/-- A task that does not sleep may go to sleep. -/
theorem Numbered.sleep (hs : s.Numbered) {task : Nat} (wakes : Nat) (errand : Errand J)
    (htask : task ≤ s.nextNumber) (hawake : ∀ x ∈ s.asleep, x.task ≠ task) :
    (s.sleep task wakes errand).Numbered where
  task_lt := by
    refine List.forall_mem_append.2 ⟨fun x hx => Nat.lt_succ_of_lt (hs.task_lt x hx), ?_⟩
    simpa using Nat.lt_succ_of_le htask
  number_lt := by
    refine List.forall_mem_append.2 ⟨fun x hx => Nat.lt_succ_of_lt (hs.number_lt x hx), ?_⟩
    simp
  task_nodup :=
    List.pairwise_append.2 ⟨hs.task_nodup, List.pairwise_singleton _ _, by simpa using hawake⟩
  number_nodup := by
    refine List.pairwise_append.2 ⟨hs.number_nodup, List.pairwise_singleton _ _, ?_⟩
    simpa using fun x hx => Nat.ne_of_lt (hs.number_lt x hx)

/-- A task that does not look itself up does not concern the table. -/
theorem Sound.sleep (hs : s.Sound heeds) {task wakes : Nat} {errand : Errand J}
    (htask : task ≤ s.nextNumber) (hawake : ∀ x ∈ s.asleep, x.task ≠ task)
    (herrand : ∀ key generation job, errand ≠ .lookUp key generation job) :
    (s.sleep task wakes errand).Sound heeds where
  toNumbered := hs.toNumbered.sleep wakes errand htask hawake
  sorted := hs.sorted
  held key p hp := by
    obtain ⟨x, hx, hsome⟩ := hs.held key p hp
    exact ⟨x, List.mem_append_left _ hx, hsome⟩
  listed := by
    refine List.forall_mem_append.2 ⟨hs.listed, ?_⟩
    simpa using fun key generation job heq => absurd heq (herrand key generation job)
  stale := by
    refine List.forall_mem_append.2 ⟨hs.stale, ?_⟩
    simp

theorem schedule_sleep_finish (s : Scheduler J) (task wakes : Nat) (job : J) :
    (s.sleep task wakes (.finish job)).schedule = s.schedule.fresh.2 := by
  simp [schedule, Schedule.fresh, Sleeper.waiting?]

theorem running_sleep_finish (s : Scheduler J) (task wakes : Nat) (job : J) :
    (s.sleep task wakes (.finish job)).running =
      s.running ++ [⟨s.schedule.nextNumber, wakes, job⟩] := by
  simp [running, Sleeper.running?, schedule]

/-! ## Entering a job -/

variable {key : String} {due : Nat} {job : J}

theorem Numbered.enter (hs : s.Numbered) (key : String) (due : Nat) (job : J) :
    (s.enter key due job).Numbered := by
  have hsleep := hs.sleep due (.lookUp key s.generation job) (Nat.le_refl s.nextNumber) fun x hx =>
    Nat.ne_of_lt (hs.task_lt x hx)
  exact ⟨hsleep.task_lt, hsleep.number_lt, hsleep.task_nodup, hsleep.number_nodup⟩

theorem Sound.enter (hs : s.Sound heeds) (hfree : s.pending.get? key = none)
    (hfresh : s.Fresh heeds) : (s.enter key due job).Sound heeds where
  toNumbered := hs.toNumbered.enter key due job
  sorted := hs.sorted.insert key _
  held other p hp := by
    rw [Scheduler.enter, Table.get?_insert] at hp
    split at hp
    · rename_i hother
      cases hp
      refine ⟨_, List.mem_append_right _ (List.mem_singleton.2 rfl), rfl, rfl, job, ?_⟩
      rw [hother]
    · obtain ⟨x, hx, hsome⟩ := hs.held other p hp
      exact ⟨x, List.mem_append_left _ hx, hsome⟩
  listed := by
    refine List.forall_mem_append.2 ⟨fun x hx hlive other generation job' herrand => ?_, ?_⟩
    · have hlisted := hs.listed x hx hlive other generation job' herrand
      have hother : other ≠ key := fun heq => by simp [← heq, hlisted] at hfree
      rw [Scheduler.enter, Table.get?_insert, if_neg hother]
      exact hlisted
    · simp [Scheduler.enter]
  stale := by
    refine List.forall_mem_append.2 ⟨fun x hx habort => ?_, by simp⟩
    obtain ⟨other, generation, job', herrand, hstale⟩ := hs.stale x hx habort
    refine ⟨other, generation, job', herrand, ?_⟩
    rcases hfresh x hx with hheeds | hnew
    · exact .inl hheeds
    · refine hstale.imp_right fun hbefore p hp => ?_
      rw [Scheduler.enter, Table.get?_insert] at hp
      split at hp
      · cases hp
        exact (hnew other generation job' herrand).symm
      · exact hbefore p hp

theorem running_enter (s : Scheduler J) (key : String) (due : Nat) (job : J) :
    (s.enter key due job).running = s.running := by
  simp [running, Scheduler.enter, Sleeper.running?]

theorem Fresh.withdraws (hfresh : s.Fresh heeds) (h : s.Withdraws P s') : s'.Fresh heeds := by
  obtain ⟨tasks, hasleep, -⟩ := h.asleep
  intro y hy
  obtain ⟨x, hx, rfl⟩ := exists_mark hasleep hy
  rw [Sleeper.mark_task, Sleeper.mark_errand, h.generation]
  exact hfresh x hx

/-- A job that takes the place of another one is entered after that one is cancelled. -/
theorem Sound.later_eq (hs : s.Sound heeds) (key : String) (due : Nat) (job : J) :
    s.later key due job = (s.cancel key).2.enter key due job := by
  unfold later cancel
  cases hp : s.pending.get? key with
  | none => rfl
  | some p =>
    have hother : s.nextNumber ≠ p.task := by
      obtain ⟨x, hx, htask, -⟩ := hs.held key p hp
      exact htask ▸ (Nat.ne_of_lt (hs.task_lt x hx)).symm
    have hpending : (s.pending.erase key).insert key ⟨s.generation, s.nextNumber⟩ =
        s.pending.insert key ⟨s.generation, s.nextNumber⟩ := Table.insert_erase hs.sorted
    simp [Scheduler.enter, abort, hother, hpending]

theorem Sound.later (hs : s.Sound heeds) (hfresh : s.Fresh heeds) (key : String) (due : Nat)
    (job : J) : (s.later key due job).Sound heeds := by
  have hcancel := withdraws_cancel s key
  rw [hs.later_eq]
  exact (hs.withdraws hcancel).enter (by simp [hcancel.pending]) (hfresh.withdraws hcancel)

/-! ## Each operation is that of the schedule -/

theorem Sound.schedule_cancel (hs : s.Sound heeds) (key : String) :
    (s.cancel key).2.schedule = (s.schedule.cancel key).2 := by
  have hsame : ∀ w : Waiting J,
      (!w.key.any fun other => other = key) = decide (w.key ≠ some key) := by
    intro w
    cases w.key <;> simp
  refine ((withdraws_cancel s key).schedule hs).trans ?_
  simp only [hsame]
  rfl

theorem Sound.cancel_fst (hs : s.Sound heeds) (key : String) :
    (s.cancel key).1 = (s.schedule.cancel key).1 := by
  refine Eq.trans ?_ (hs.isPending_schedule key)
  unfold cancel isPending Table.contains
  cases s.pending.get? key <;> rfl

theorem Sound.schedule_later (hs : s.Sound heeds) (key : String) (due : Nat) (job : J) :
    (s.later key due job).schedule = s.schedule.later key due job := by
  have hcancel := hs.schedule_cancel key
  rw [hs.later_eq]
  unfold Schedule.later
  rw [show s.schedule.without key = (s.cancel key).2.schedule from hcancel.symm]
  simp [schedule, Scheduler.enter, Sleeper.waiting?]

theorem schedule_spawn (s : Scheduler J) (now : Nat) (job : J) :
    (s.spawn now job).schedule = s.schedule.spawn now job := by
  simp [schedule, spawn, Schedule.spawn, Sleeper.waiting?]

theorem Sound.schedule_cancelQueue (hs : s.Sound heeds) (queueId : String) :
    (s.cancelQueue queueId).2.schedule = (s.schedule.cancelQueue queueId).2 :=
  (withdraws_cancelQueue s queueId).schedule hs

theorem Sound.schedule_cancelAll (hs : s.Sound heeds) :
    s.cancelAll.schedule = s.schedule.cancelAll := by
  have hsame : ∀ w : Waiting J, (!w.key.any fun _ => true) = w.key.isNone := by
    intro w
    cases w.key <;> rfl
  refine ((withdraws_cancelAll hs.sorted).schedule hs).trans ?_
  simp only [hsame]
  rfl

/-- The keys under which jobs wait, each once, are those that stand for tasks. -/
theorem Sound.names_perm (hs : s.Sound heeds) :
    s.pending.names.Perm (s.schedule.waiting.filterMap Waiting.key) := by
  have hnodup : (s.schedule.waiting.filterMap Waiting.key).Nodup := by
    unfold Scheduler.schedule
    rw [List.filterMap_filterMap, List.Nodup, List.pairwise_filterMap]
    refine hs.task_nodup.imp_of_mem fun {x y} hx hy hne key hkey other hother heq => hne ?_
    obtain ⟨v, hv, hvkey⟩ := Option.bind_eq_some_iff.1 hkey
    obtain ⟨w, hw, hwkey⟩ := Option.bind_eq_some_iff.1 hother
    have hpending : s.isPending key :=
      hs.isPending_of_key (List.mem_filterMap.2 ⟨x, hx, hv⟩) hvkey
    obtain ⟨p, hp⟩ := Option.isSome_iff_exists.1 hpending
    exact ((hs.waits_iff hp hx hv).1 hvkey).trans ((hs.waits_iff hp hy hw).1 (heq ▸ hwkey)).symm
  refine (List.perm_ext_iff_of_nodup hs.sorted.nodup_names hnodup).2 fun key => ?_
  rw [Table.mem_names, List.mem_filterMap]
  refine ⟨fun hpending => ?_, fun ⟨w, hw, hkey⟩ => hs.isPending_of_key hw hkey⟩
  have hwaits := (hs.isPending_schedule key).symm.trans hpending
  obtain ⟨w, hw, hkey⟩ := List.any_eq_true.1 hwaits
  exact ⟨w, hw, by simpa using hkey⟩

theorem Sound.cancelQueue_fst (hs : s.Sound heeds) (queueId : String) :
    (s.cancelQueue queueId).1 = (s.schedule.cancelQueue queueId).1 := by
  have hkeys : ((s.schedule.waiting.filterMap Waiting.key).filter (keyOfQueue queueId)).length =
      (s.schedule.waiting.filter (Waiting.ofQueue queueId)).length := by
    induction s.schedule.waiting with
    | nil => rfl
    | cons w waiting ih =>
      cases hkey : w.key with
      | none => simp [Waiting.ofQueue, hkey, ih]
      | some key => by_cases hof : keyOfQueue queueId key <;> simp [Waiting.ofQueue, hkey, hof, ih]
  exact (hs.names_perm.filter _).length_eq.trans hkeys

/-! ## Generations -/

/-- Whether so many generations were given, and each task that looks itself up has one of them. -/
structure Issued (n : Nat) (s : Scheduler J) : Prop where
  generation_eq : s.generation = .ofNat n
  given : ∀ x ∈ s.asleep, ∀ key generation job, x.errand = .lookUp key generation job →
    ∃ m < n, generation = .ofNat m

variable {n : Nat}

theorem issued_empty : Issued 0 ({} : Scheduler J) := ⟨rfl, by simp⟩

/-- No generation comes back before all numbers of 64 bits were given. -/
theorem Issued.fresh (hs : s.Issued n) (hn : n < UInt64.size) : s.Fresh heeds := by
  refine fun x hx => .inr fun key generation job herrand heq => ?_
  obtain ⟨m, hm, hgiven⟩ := hs.given x hx key generation job herrand
  have hsame := congrArg UInt64.toNat (hgiven.symm.trans (heq.trans hs.generation_eq))
  rw [UInt64.toNat_ofNat_of_lt' (hm.trans hn), UInt64.toNat_ofNat_of_lt' hn] at hsame
  omega

/-- What the tasks are that look themselves up is what matters for the generations. -/
theorem Issued.of_subset (hs : s.Issued n)
    (hgeneration : s'.generation = s.generation)
    (hold : ∀ y ∈ s'.asleep, (∃ x ∈ s.asleep, y.errand = x.errand) ∨
      ∀ key generation job, y.errand ≠ .lookUp key generation job) : s'.Issued n := by
  refine ⟨hgeneration.trans hs.generation_eq, fun y hy key generation job herrand => ?_⟩
  rcases hold y hy with ⟨x, hx, hsame⟩ | hother
  · exact hs.given x hx key generation job (hsame.symm.trans herrand)
  · exact absurd herrand (hother key generation job)

theorem Issued.withdraws (hs : s.Issued n)
    (h : s.Withdraws P s') : s'.Issued n := by
  obtain ⟨tasks, hasleep, -⟩ := h.asleep
  refine hs.of_subset h.generation fun y hy => .inl ?_
  obtain ⟨x, hx, rfl⟩ := exists_mark hasleep hy
  exact ⟨x, hx, x.mark_errand tasks⟩

theorem Issued.enter (hs : s.Issued n) (key : String) (due : Nat) (job : J) :
    (s.enter key due job).Issued (n + 1) := by
  refine ⟨?_, List.forall_mem_append.2 ⟨fun x hx other generation job' herrand => ?_, ?_⟩⟩
  · rw [Scheduler.enter, hs.generation_eq, UInt64.ofNat_add]
    rfl
  · obtain ⟨m, hm, hgiven⟩ := hs.given x hx other generation job' herrand
    exact ⟨m, Nat.lt_succ_of_lt hm, hgiven⟩
  · refine List.forall_mem_singleton.2 fun other generation job' herrand => ?_
    cases herrand
    exact ⟨n, Nat.lt_succ_self n, hs.generation_eq⟩

end Scheduler

end Jukebox
