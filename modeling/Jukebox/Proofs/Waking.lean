import Jukebox.Proofs.Punctuality
import Jukebox.Proofs.Tasks
import Mathlib.Algebra.BigOperators.Group.List.Basic

/-!
# Tasks start jobs when they are due

A task that wakes does what the run of the schedule does next, or nothing that can be seen of the
schedule: then it was aborted, and either heeds that or does not find itself
(`Clock.step?_mirrors`). So the clock of a scheduler goes on as the run of its schedule does, and
what is known of the run holds of the tasks (`jobs_punctual`): each key stands for the last job
that was entered under it as long as that job waits, each job starts as often as it is to, when it
is due, and a job that started is not concerned by what is done later.
-/

namespace Jukebox.Scheduler

open Schedule (Run Running Use Booking)

variable {J : Type} {heeds : Nat → Bool} {s : Scheduler J} {x : Sleeper J}

/-! ## The task that wakes first -/

theorem first?_eq (s : Scheduler J) :
    s.first? = s.asleep.foldl (keepFirst Sleeper.before) none := by
  unfold first?
  congr 1
  funext best x
  cases best <;> rfl

theorem first?_none (h : s.first? = none) : s.asleep = [] :=
  foldl_keepFirst_none Sleeper.place Sleeper.before_iff (s.first?_eq.symm.trans h)

theorem first?_some (h : s.first? = some x) :
    x ∈ s.asleep ∧ ∀ y ∈ s.asleep, x.place ≤ y.place :=
  foldl_keepFirst_some Sleeper.place Sleeper.before_iff (s.first?_eq.symm.trans h)

/-! ## A task wakes -/

/-- What is seen of the tasks when one wakes. -/
theorem filterMap_rouse {β : Type} (view : Sleeper J → Option β) (number : β → Nat)
    (hview : ∀ x b, view x = some b → number b = x.number) (s : Scheduler J) (n : Nat) :
    (s.rouse n).asleep.filterMap view =
      (s.asleep.filterMap view).filter fun b => number b ≠ n := by
  unfold rouse
  rw [List.filterMap_filter, List.filter_filterMap]
  refine List.filterMap_congr fun x _ => ?_
  cases hx : view x with
  | none => simp
  | some b => simp [Option.filter_some, hview x b hx]

theorem schedule_rouse (s : Scheduler J) (n : Nat) :
    (s.rouse n).schedule = s.schedule.remove n := by
  have hwaiting := filterMap_rouse Sleeper.waiting? Waiting.number
    (fun x w hw => (Sleeper.waiting?_some hw).2.1) s n
  unfold schedule
  rw [hwaiting]
  rfl

theorem running_rouse (s : Scheduler J) (n : Nat) :
    (s.rouse n).running = s.running.filter fun y => y.number ≠ n :=
  filterMap_rouse Sleeper.running? Running.number (fun _ _ hy => (Sleeper.running?_some hy).1) s n

/-- A task that is not seen does not hide what is seen of others. -/
theorem Sound.filterMap_ne (hs : s.Sound heeds) (hx : x ∈ s.asleep) {β : Type}
    {view : Sleeper J → Option β} {number : β → Nat}
    (hview : ∀ x b, view x = some b → number b = x.number) (hnone : view x = none) :
    (s.asleep.filterMap view).filter (fun b => number b ≠ x.number) =
      s.asleep.filterMap view := by
  refine List.filter_eq_self.2 fun b hb => decide_eq_true fun heq => ?_
  obtain ⟨y, hy, hsome⟩ := List.mem_filterMap.1 hb
  have hsame : y = x := eq_of_number Sleeper.number hs.number_nodup hy hx
    ((hview y b hsome).symm.trans heq)
  rw [hsame, hnone] at hsome
  cases hsome

theorem Sound.remove_eq (hs : s.Sound heeds) (hx : x ∈ s.asleep) (hnone : x.waiting? = none) :
    s.schedule.remove x.number = s.schedule := by
  have hwaiting := hs.filterMap_ne hx (fun x w hw => (Sleeper.waiting?_some hw).2.1) hnone
  unfold schedule Schedule.remove
  rw [hwaiting]

theorem Sound.running_ne_eq (hs : s.Sound heeds) (hx : x ∈ s.asleep) (hnone : x.running? = none) :
    (s.running.filter fun y => y.number ≠ x.number) = s.running :=
  hs.filterMap_ne hx (fun _ _ hy => (Sleeper.running?_some hy).1) hnone

/-- The tasks that still sleep when one wakes are others. -/
theorem Sound.task_ne (hs : s.Sound heeds) (hx : x ∈ s.asleep) :
    ∀ y ∈ (s.rouse x.number).asleep, y.task ≠ x.task := by
  intro y hy htask
  obtain ⟨hy, hnumber⟩ := List.mem_filter.1 hy
  rw [eq_of_number Sleeper.task hs.task_nodup hy hx htask] at hnumber
  simp at hnumber

/-- Of the tasks that wake no earlier than one of them, the others wake after it. -/
theorem Sound.place_lt (hs : s.Sound heeds) (hx : x ∈ s.asleep) {y : Sleeper J}
    (hy : y ∈ s.asleep) (hle : x.place ≤ y.place) (hne : y ≠ x) : x.place < y.place := by
  refine lt_of_le_of_ne hle fun heq => hne ?_
  exact eq_of_number Sleeper.number hs.number_nodup hy hx (congrArg Prod.snd (toLex_inj.1 heq)).symm

theorem Sound.waiting_nodup (hs : s.Sound heeds) :
    s.schedule.waiting.Pairwise fun v w => v.number ≠ w.number := by
  refine List.pairwise_filterMap.2 (hs.number_nodup.imp fun hne v hv w hw => ?_)
  rwa [(Sleeper.waiting?_some hv).2.1, (Sleeper.waiting?_some hw).2.1]

theorem Sound.running_nodup (hs : s.Sound heeds) :
    s.running.Pairwise fun y z => y.number ≠ z.number := by
  refine List.pairwise_filterMap.2 (hs.number_nodup.imp fun hne y hy z hz => ?_)
  rwa [(Sleeper.running?_some hy).1, (Sleeper.running?_some hz).1]

theorem Numbered.rouse (hs : s.Numbered) (n : Nat) : (s.rouse n).Numbered :=
  ⟨fun y hy => hs.task_lt y (List.mem_of_mem_filter hy),
    fun y hy => hs.number_lt y (List.mem_of_mem_filter hy), hs.task_nodup.filter _,
    hs.number_nodup.filter _⟩

/-- A task wakes, and the keys stand for the other tasks as before. -/
theorem Sound.leave (hs : s.Sound heeds) (hx : x ∈ s.asleep) {pending : Table Pending}
    (hsorted : pending.Sorted)
    (hkept : ∀ key p, pending.get? key = some p ↔ s.pending.get? key = some p ∧ p.task ≠ x.task) :
    Sound heeds { s.rouse x.number with pending } := by
  have hold : ∀ y ∈ (s.rouse x.number).asleep, y ∈ s.asleep ∧ y.task ≠ x.task :=
    fun y hy => ⟨(List.mem_filter.1 hy).1, hs.task_ne hx y hy⟩
  have hnumbered := hs.toNumbered.rouse x.number
  refine ⟨⟨hnumbered.task_lt, hnumbered.number_lt, hnumbered.task_nodup, hnumbered.number_nodup⟩,
    hsorted, ?_, ?_, ?_⟩
  · intro key p hp
    obtain ⟨hp, hother⟩ := (hkept key p).1 hp
    obtain ⟨y, hy, htask, hsome⟩ := hs.held key p hp
    refine ⟨y, List.mem_filter.2 ⟨hy, decide_eq_true fun hnumber => hother ?_⟩, htask, hsome⟩
    rw [← htask, eq_of_number Sleeper.number hs.number_nodup hy hx hnumber]
  · intro y hy hlive key generation job herrand
    obtain ⟨hy, hother⟩ := hold y hy
    exact (hkept key _).2 ⟨hs.listed y hy hlive key generation job herrand, hother⟩
  · intro y hy habort
    obtain ⟨key, generation, job, herrand, hstale⟩ := hs.stale y (hold y hy).1 habort
    refine ⟨key, generation, job, herrand, hstale.imp_right fun hbefore p hp => ?_⟩
    exact hbefore p ((hkept key p).1 hp).1

/-- No key stands for a task that was aborted or does not look itself up. -/
theorem Sound.rouse (hs : s.Sound heeds) (hx : x ∈ s.asleep)
    (hnone : x.aborted ∨ ∀ key generation job, x.errand ≠ .lookUp key generation job) :
    (s.rouse x.number).Sound heeds := by
  refine hs.leave hx hs.sorted fun key p => ⟨fun hp => ⟨hp, fun htask => ?_⟩, And.left⟩
  obtain ⟨hlive, job, herrand⟩ := hs.of_task hp hx htask.symm
  rcases hnone with habort | hother
  · simp [hlive] at habort
  · exact hother key p.generation job herrand

/-- A task that finds itself takes itself off. -/
theorem Sound.take (hs : s.Sound heeds) (hx : x ∈ s.asleep) {key : String} {generation : UInt64}
    {job : J} (hlive : x.aborted = false) (herrand : x.errand = .lookUp key generation job) :
    Sound heeds { s.rouse x.number with pending := s.pending.erase key } := by
  have hlisted := hs.listed x hx hlive key generation job herrand
  refine hs.leave hx (hs.sorted.erase key) fun other p => ?_
  rw [Table.get?_erase]
  by_cases hother : other = key
  · rw [if_pos hother, hother, hlisted]
    refine ⟨fun hp => (nomatch hp), fun ⟨hp, hne⟩ => absurd ?_ hne⟩
    exact congrArg Pending.task (Option.some.inj hp).symm
  · rw [if_neg hother]
    refine ⟨fun hp => ⟨hp, fun htask => ?_⟩, And.left⟩
    obtain ⟨-, job', herrand'⟩ := hs.of_task hp hx htask.symm
    rw [herrand] at herrand'
    cases herrand'
    exact hother rfl

namespace Clock

variable {duration : J → Nat} {c c' : Clock J} {r : Run J} {time n : Nat}

theorem step?_some (h : c.step? duration heeds time = some c') :
    ∃ x ∈ c.scheduler.asleep, x.wakes ≤ time ∧ (∀ y ∈ c.scheduler.asleep, x.place ≤ y.place) ∧
      c' = c.wake duration heeds x := by
  unfold step? at h
  cases hfirst : c.scheduler.first? with
  | none =>
    rw [hfirst] at h
    cases h
  | some x =>
    obtain ⟨hx, hleast⟩ := first?_some hfirst
    rw [hfirst] at h
    obtain ⟨hdue, heq⟩ := Option.ite_none_right_eq_some.1 h
    exact ⟨x, hx, hdue, hleast, (Option.some.inj heq).symm⟩

theorem step?_none (h : c.step? duration heeds time = none) :
    ∀ x ∈ c.scheduler.asleep, time < x.wakes := by
  unfold step? at h
  cases hfirst : c.scheduler.first? with
  | none => simp [first?_none hfirst]
  | some y =>
    rw [hfirst] at h
    have hlate : ¬ y.wakes ≤ time := by simpa using h
    exact fun x hx => (not_le.1 hlate).trans_le (time_le ((first?_some hfirst).2 x hx))

variable (duration) in
/-- What a task does when it wakes: it starts its job, or it ends it, or it does nothing. -/
theorem wake_cases (hs : c.scheduler.Sound heeds) (hx : x ∈ c.scheduler.asleep) :
    (∃ w pending, x.waiting? = some w ∧
      Sound heeds { c.scheduler.rouse x.number with pending } ∧
      c.wake duration heeds x = Clock.start duration
        { c with now := x.wakes, scheduler := { c.scheduler.rouse x.number with pending } }
        x.task w.job) ∨
    (∃ y, x.running? = some y ∧ x.waiting? = none ∧ (c.scheduler.rouse x.number).Sound heeds ∧
      c.wake duration heeds x =
        { now := x.wakes, scheduler := c.scheduler.rouse x.number,
          log := c.log ++ [⟨x.wakes, .ended, y.job⟩] }) ∨
    (x.waiting? = none ∧ x.running? = none ∧ (c.scheduler.rouse x.number).Sound heeds ∧
      c.wake duration heeds x =
        { c with now := x.wakes, scheduler := c.scheduler.rouse x.number }) := by
  cases habort : x.aborted with
  | true =>
    obtain ⟨key, generation, job, herrand, hstale⟩ := hs.stale x hx habort
    refine .inr (.inr ⟨x.waiting?_of_aborted habort, by simp [Sleeper.running?, herrand],
      hs.rouse hx (.inl habort), ?_⟩)
    unfold wake
    by_cases hheeds : heeds x.task
    · simp [habort, hheeds]
    · have hother := hstale.resolve_left hheeds
      have htake : (c.scheduler.rouse x.number).take? key generation = none := by
        unfold take?
        split
        · rfl
        · rename_i p hp
          exact if_neg (hother p hp)
      simp [habort, hheeds, herrand, htake]
  | false =>
    have hrouse := fun hother => hs.rouse hx (.inr hother)
    cases herrand : x.errand with
    | lookUp key generation job =>
      have hlisted := hs.listed x hx habort key generation job herrand
      have htake : (c.scheduler.rouse x.number).take? key generation =
          some { c.scheduler.rouse x.number with pending := c.scheduler.pending.erase key } := by
        unfold take?
        rw [show (c.scheduler.rouse x.number).pending.get? key = _ from hlisted]
        exact if_pos rfl
      refine .inl ⟨⟨some key, x.number, x.wakes, job⟩, _,
        by simp [Sleeper.waiting?, habort, herrand], hs.take hx habort herrand, ?_⟩
      simp [wake, habort, herrand, htake]
    | start job =>
      refine .inl ⟨⟨none, x.number, x.wakes, job⟩, c.scheduler.pending,
        by simp [Sleeper.waiting?, habort, herrand], hrouse (by simp [herrand]), ?_⟩
      simp [wake, habort, herrand, Scheduler.rouse]
    | finish job =>
      refine .inr (.inl ⟨⟨x.number, x.wakes, job⟩, by simp [Sleeper.running?, herrand],
        by simp [Sleeper.waiting?, herrand], hrouse (by simp [herrand]), ?_⟩)
      simp [wake, habort, herrand]

/-- Whether a run goes on as a clock does: with the same jobs that wait and that run, and the same
log. -/
structure Mirrors (c : Clock J) (r : Run J) : Prop where
  schedule : r.schedule = c.scheduler.schedule
  running : r.running = c.scheduler.running
  log : r.log = c.log

/-- A task that starts its job starts it in the run, too. -/
theorem Mirrors.start (hr : c.Mirrors r) (hs : c.scheduler.Sound heeds)
    (hx : x ∈ c.scheduler.asleep) {w : Waiting J} (hw : x.waiting? = some w)
    (pending : Table Pending) :
    (Clock.start duration
      { c with now := x.wakes, scheduler := { c.scheduler.rouse x.number with pending } }
      x.task w.job).Mirrors (r.start duration w) := by
  obtain ⟨-, hnumber, hdue⟩ := Sleeper.waiting?_some hw
  have hidle := Sleeper.running?_of_waiting? hw
  have hwaiting := schedule_rouse c.scheduler x.number
  have hrunning : (c.scheduler.rouse x.number).running = c.scheduler.running :=
    (running_rouse _ _).trans (hs.running_ne_eq hx hidle)
  unfold Clock.start Run.start
  by_cases hzero : duration w.job = 0
  · simp only [hzero, if_true]
    refine ⟨?_, hr.running.trans hrunning.symm, by rw [hr.log, hdue]⟩
    rw [hr.schedule, hnumber]
    exact hwaiting.symm
  · simp only [hzero, if_false]
    refine ⟨?_, ?_, by rw [hr.log, hdue]⟩
    · rw [schedule_sleep_finish, hr.schedule, hnumber]
      exact congrArg (fun s => s.fresh.2) hwaiting.symm
    · rw [running_sleep_finish, hr.running, hr.schedule, hdue]
      exact congrArg (· ++ _) hrunning.symm

theorem sound_start (hs : s.Sound heeds) {task : Nat} {job : J} {log : List (Schedule.Entry J)}
    {now : Nat} (htask : task ≤ s.nextNumber) (hawake : ∀ x ∈ s.asleep, x.task ≠ task) :
    (Clock.start duration ⟨now, s, log⟩ task job).scheduler.Sound heeds := by
  unfold Clock.start
  split
  · exact hs
  · exact hs.sleep htask hawake fun _ _ _ => by simp

/-- A task that wakes first and starts its job is what the run does next. -/
theorem Mirrors.step?_waiting (hr : c.Mirrors r) (hs : c.scheduler.Sound heeds)
    (hx : x ∈ c.scheduler.asleep) (hdue : x.wakes ≤ time)
    (hleast : ∀ y ∈ c.scheduler.asleep, x.place ≤ y.place) {w : Waiting J}
    (hw : x.waiting? = some w) : r.step? duration time = some (r.start duration w) := by
  refine Run.step?_start ?_ ?_ ?_ ?_ ?_
  · rw [hr.schedule]
    exact List.mem_filterMap.2 ⟨x, hx, hw⟩
  · rwa [(Sleeper.waiting?_some hw).2.2]
  · rw [hr.schedule]
    exact hs.waiting_nodup
  · rw [hr.schedule]
    intro v hv
    obtain ⟨z, hz, hv⟩ := List.mem_filterMap.1 hv
    rw [Sleeper.place_of_waiting? hw, Sleeper.place_of_waiting? hv]
    exact hleast z hz
  · rw [hr.running]
    intro y hy
    obtain ⟨z, hz, hy⟩ := List.mem_filterMap.1 hy
    rw [Sleeper.place_of_waiting? hw, Sleeper.place_of_running? hy]
    refine hs.place_lt hx hz (hleast z hz) fun heq => ?_
    rw [heq, Sleeper.running?_of_waiting? hw] at hy
    cases hy

/-- A task that wakes first and ends its job is what the run does next. -/
theorem Mirrors.step?_running (hr : c.Mirrors r) (hs : c.scheduler.Sound heeds)
    (hx : x ∈ c.scheduler.asleep) (hdue : x.wakes ≤ time)
    (hleast : ∀ y ∈ c.scheduler.asleep, x.place ≤ y.place) {y : Running J}
    (hy : x.running? = some y) (hnone : x.waiting? = none) :
    r.step? duration time = some (r.finish y) := by
  refine Run.step?_finish ?_ ?_ ?_ ?_ ?_
  · rw [hr.running]
    exact List.mem_filterMap.2 ⟨x, hx, hy⟩
  · rwa [(Sleeper.running?_some hy).2]
  · rw [hr.running]
    exact hs.running_nodup
  · rw [hr.schedule]
    intro w hw
    obtain ⟨z, hz, hw⟩ := List.mem_filterMap.1 hw
    rw [Sleeper.place_of_running? hy, Sleeper.place_of_waiting? hw]
    refine hs.place_lt hx hz (hleast z hz) fun heq => ?_
    rw [heq, hnone] at hw
    cases hw
  · rw [hr.running]
    intro v hv
    obtain ⟨z, hz, hv⟩ := List.mem_filterMap.1 hv
    rw [Sleeper.place_of_running? hy, Sleeper.place_of_running? hv]
    exact hleast z hz

/-- The clock does what the run of its schedule does next, or nothing that is seen of it. -/
theorem step?_mirrors (hs : c.scheduler.Sound heeds) (hr : c.Mirrors r)
    (h : c.step? duration heeds time = some c') :
    c'.scheduler.Sound heeds ∧
      (c'.Mirrors r ∨ ∃ r', r.step? duration time = some r' ∧ c'.Mirrors r') := by
  obtain ⟨x, hx, hdue, hleast, rfl⟩ := step?_some h
  rcases wake_cases duration hs hx with
    ⟨w, pending, hw, hsound, hwake⟩ | ⟨y, hy, hnone, hsound, hwake⟩ | ⟨hnone, hidle, hsound, hwake⟩
  · rw [hwake]
    exact ⟨sound_start hsound (Nat.le_of_lt (hs.task_lt x hx)) (hs.task_ne hx),
      .inr ⟨_, hr.step?_waiting hs hx hdue hleast hw, hr.start hs hx hw pending⟩⟩
  · rw [hwake]
    refine ⟨hsound, .inr ⟨r.finish y, hr.step?_running hs hx hdue hleast hy hnone, ?_, ?_, ?_⟩⟩
    · exact hr.schedule.trans ((schedule_rouse _ _).trans (hs.remove_eq hx hnone)).symm
    · rw [Run.finish, hr.running, (Sleeper.running?_some hy).1]
      exact (running_rouse _ _).symm
    · rw [Run.finish, hr.log, (Sleeper.running?_some hy).2]
  · rw [hwake]
    refine ⟨hsound, .inl ⟨?_, ?_, hr.log⟩⟩
    · rw [hr.schedule]
      exact ((schedule_rouse _ _).trans (hs.remove_eq hx hnone)).symm
    · rw [hr.running]
      exact ((running_rouse _ _).trans (hs.running_ne_eq hx hidle)).symm

/-- Waking gives no generations. -/
theorem issued_step? (hs : c.scheduler.Sound heeds) (hissued : c.scheduler.Issued n)
    (h : c.step? duration heeds time = some c') : c'.scheduler.Issued n := by
  obtain ⟨x, hx, -, -, rfl⟩ := step?_some h
  have hrouse : (c.scheduler.rouse x.number).Issued n :=
    hissued.of_subset rfl fun y hy => .inl ⟨y, (List.mem_filter.1 hy).1, rfl⟩
  rcases wake_cases duration hs hx with
    ⟨w, pending, -, -, hwake⟩ | ⟨y, -, -, -, hwake⟩ | ⟨-, -, -, hwake⟩
  · rw [hwake]
    unfold Clock.start
    split
    · exact ⟨hrouse.generation_eq, hrouse.given⟩
    · refine hrouse.of_subset rfl (List.forall_mem_append.2 ⟨fun y hy => .inl ⟨y, hy, rfl⟩, ?_⟩)
      simp
  · rw [hwake]
    exact hrouse
  · rw [hwake]
    exact hrouse

/-- Whether a run goes on as a clock does whose tasks and table agree, after so many generations
were given. -/
structure Follows (heeds : Nat → Bool) (n : Nat) (c : Clock J) (r : Run J) : Prop where
  sound : c.scheduler.Sound heeds
  issued : c.scheduler.Issued n
  mirrors : c.Mirrors r

/-! ## Letting time pass -/

/-- How often the tasks still wake at most. -/
def turnsLeft (c : Clock J) : Nat := (c.scheduler.asleep.map fun x => x.errand.turns).sum

theorem turnsLeft_le (c : Clock J) : c.turnsLeft ≤ 2 * c.scheduler.asleep.length := by
  unfold turnsLeft
  induction c.scheduler.asleep with
  | nil => exact Nat.le_refl _
  | cons x asleep ih =>
    have hle : x.errand.turns ≤ 2 := by unfold Errand.turns; split <;> decide
    rw [List.map_cons, List.sum_cons, List.length_cons]
    omega

theorem turnsLeft_step? (hs : c.scheduler.Sound heeds) (h : c.step? duration heeds time = some c') :
    c'.turnsLeft < c.turnsLeft := by
  obtain ⟨x, hx, -, -, rfl⟩ := step?_some h
  have hsum : c.turnsLeft = x.errand.turns +
      ((c.scheduler.rouse x.number).asleep.map fun y => y.errand.turns).sum := by
    have hperm := perm_cons_filter_ne Sleeper.number hs.number_nodup hx
    exact (hperm.map fun y => y.errand.turns).sum_eq
  have hpos : 0 < x.errand.turns := by unfold Errand.turns; split <;> decide
  rcases wake_cases duration hs hx with
    ⟨w, pending, hw, -, hwake⟩ | ⟨y, -, -, -, hwake⟩ | ⟨-, -, -, hwake⟩
  · rw [hwake, hsum, Sleeper.turns_of_waiting? hw]
    unfold Clock.start
    split
    · exact Nat.lt_add_of_pos_left Nat.two_pos
    · simp only [turnsLeft, sleep_asleep, List.map_append, List.sum_append]
      simp [Errand.turns]
      omega
  · rw [hwake, hsum]
    exact Nat.lt_add_of_pos_left hpos
  · rw [hwake, hsum]
    exact Nat.lt_add_of_pos_left hpos

/-- When no task wakes, nothing is due in the run either. -/
theorem Mirrors.step?_eq_none (hr : c.Mirrors r) (h : c.step? duration heeds time = none) :
    r.step? duration time = none := by
  have hlate := step?_none h
  refine Run.step?_eq_none (fun w hw => ?_) fun y hy => ?_
  · rw [hr.schedule] at hw
    obtain ⟨x, hx, hw⟩ := List.mem_filterMap.1 hw
    rw [(Sleeper.waiting?_some hw).2.2]
    exact hlate x hx
  · rw [hr.running] at hy
    obtain ⟨x, hx, hy⟩ := List.mem_filterMap.1 hy
    rw [(Sleeper.running?_some hy).2]
    exact hlate x hx

variable (duration time) in
/-- The clock comes to its end as the run does, in steps of which the run does not see all. -/
theorem Follows.steps {turns steps : Nat} (hr : c.Follows heeds n r) (hturns : c.turnsLeft ≤ turns)
    (hsteps : r.stepsLeft ≤ steps) :
    (Clock.steps duration heeds time turns c).Follows heeds n
      (Run.steps duration time steps r) := by
  induction turns generalizing c r steps with
  | zero =>
    have hnone : c.step? duration heeds time = none := by
      cases hstep : c.step? duration heeds time with
      | none => rfl
      | some c' => exact absurd (turnsLeft_step? hr.sound hstep) (by omega)
    rw [Run.steps_of_none (hr.mirrors.step?_eq_none hnone)]
    exact hr
  | succ turns ih =>
    rw [Clock.steps]
    cases hstep : c.step? duration heeds time with
    | none =>
      rw [Run.steps_of_none (hr.mirrors.step?_eq_none hstep)]
      exact hr
    | some c' =>
      have hfewer := turnsLeft_step? hr.sound hstep
      have hissued := issued_step? hr.sound hr.issued hstep
      obtain ⟨hsound, hsame | ⟨r', hnext, hboth⟩⟩ := step?_mirrors hr.sound hr.mirrors hstep
      · exact ih ⟨hsound, hissued, hsame⟩ (by omega) hsteps
      · have hless := Run.stepsLeft_step? hnext
        cases steps with
        | zero => exact absurd hless (by omega)
        | succ steps =>
          rw [Run.steps, hnext]
          exact ih ⟨hsound, hissued, hboth⟩ (by omega) (by omega)

theorem Follows.advance (hr : c.Follows heeds n r) (time : Nat) :
    (c.advance duration heeds time).Follows heeds n (r.advance duration time) := by
  have hend := hr.steps duration time c.turnsLeft_le (Nat.le_refl _)
  exact ⟨hend.sound, hend.issued, hend.mirrors.schedule, hend.mirrors.running, hend.mirrors.log⟩

/-! ## Uses of a scheduler -/

/-- A clock after a use of its scheduler. -/
def apply (duration : J → Nat) (heeds : Nat → Bool) (c : Clock J) : Use J → Clock J
  | .later key delay job =>
    { c with scheduler := c.scheduler.later key (c.now + delay) job }
  | .cancel key => { c with scheduler := (c.scheduler.cancel key).2 }
  | .cancelQueue queueId => { c with scheduler := (c.scheduler.cancelQueue queueId).2 }
  | .cancelAll => { c with scheduler := c.scheduler.cancelAll }
  | .wait time => c.advance duration heeds (c.now + time)

/-- A clock after some uses of its scheduler. -/
def use (duration : J → Nat) (heeds : Nat → Bool) (c : Clock J) (uses : List (Use J)) : Clock J :=
  uses.foldl (apply duration heeds) c

theorem Follows.withdraws {P : String → Bool} {s' : Scheduler J} (hr : c.Follows heeds n r)
    (h : c.scheduler.Withdraws P s') {schedule : Schedule J} (hschedule : s'.schedule = schedule) :
    Follows heeds n { c with scheduler := s' } { r with schedule } :=
  ⟨hr.sound.withdraws h, hr.issued.withdraws h, hschedule.symm,
    hr.mirrors.running.trans h.running.symm, hr.mirrors.log⟩

theorem Follows.later (hr : c.Follows heeds n r) (hfresh : c.scheduler.Fresh heeds) (key : String)
    (due : Nat) (job : J) :
    Follows heeds (n + 1) { c with scheduler := c.scheduler.later key due job }
      { r with schedule := r.schedule.later key due job } := by
  have hcancel := withdraws_cancel c.scheduler key
  refine ⟨hr.sound.later hfresh key due job, ?_, ?_, ?_, hr.mirrors.log⟩
  · rw [hr.sound.later_eq]
    exact (hr.issued.withdraws hcancel).enter key due job
  · rw [hr.sound.schedule_later, hr.mirrors.schedule]
  · rw [hr.sound.later_eq, running_enter, hcancel.running]
    exact hr.mirrors.running

variable (duration) in
/-- A use does to the clock of a scheduler what it does to the run of its schedule. -/
theorem Follows.apply (hr : c.Follows heeds n r) (hnow : c.now = r.now)
    (hfresh : c.scheduler.Fresh heeds) (use : Use J) :
    ∃ m ≤ n + 1, (c.apply duration heeds use).Follows heeds m (use.apply duration r) ∧
      (c.apply duration heeds use).now = (use.apply duration r).now := by
  have hschedule := hr.mirrors.schedule
  cases use with
  | later key delay job =>
    refine ⟨n + 1, Nat.le_refl _, ?_, hnow⟩
    have hdue : r.now + delay = c.now + delay := by rw [hnow]
    rw [Use.apply, hdue]
    exact hr.later hfresh key (c.now + delay) job
  | cancel key =>
    refine ⟨n, Nat.le_succ n, hr.withdraws (withdraws_cancel _ key) ?_, hnow⟩
    rw [hr.sound.schedule_cancel, hschedule]
  | cancelQueue queueId =>
    refine ⟨n, Nat.le_succ n, hr.withdraws (withdraws_cancelQueue _ queueId) ?_, hnow⟩
    rw [hr.sound.schedule_cancelQueue, hschedule]
  | cancelAll =>
    refine ⟨n, Nat.le_succ n, hr.withdraws (withdraws_cancelAll hr.sound.sorted) ?_, hnow⟩
    rw [hr.sound.schedule_cancelAll, hschedule]
  | wait time =>
    refine ⟨n, Nat.le_succ n, ?_, congrArg (· + time) hnow⟩
    rw [Clock.apply, Use.apply, hnow]
    exact hr.advance _

variable (duration) in
/-- Whatever is done, the clock of a scheduler goes on as the run of its schedule, when aborted
tasks heed that or generations do not come back. -/
theorem Follows.use (hr : c.Follows heeds n r) (hnow : c.now = r.now) {uses : List (Use J)}
    (hheeds : (∀ task, heeds task) ∨ n + uses.length ≤ UInt64.size) :
    ∃ m, (c.use duration heeds uses).Follows heeds m (r.use duration uses) ∧
      (c.use duration heeds uses).now = (r.use duration uses).now := by
  induction uses generalizing c r n with
  | nil => exact ⟨n, hr, hnow⟩
  | cons use uses ih =>
    have hfresh : c.scheduler.Fresh heeds := by
      rcases hheeds with hall | hfew
      · exact fun x _ => .inl (hall x.task)
      · exact hr.issued.fresh (Nat.lt_of_lt_of_le (by simp) hfew)
    obtain ⟨m, hm, hnext, hnow'⟩ := hr.apply duration hnow hfresh use
    refine ih hnext hnow' (hheeds.imp_right fun hfew => ?_)
    rw [List.length_cons] at hfew
    omega

theorem follows_empty : Follows heeds 0 ({} : Clock J) {} :=
  ⟨sound_empty heeds, issued_empty, rfl, rfl, rfl⟩

end Clock

/-- Whatever is done with a scheduler, a key stands for a task exactly while the last job entered
under it waits, and no other job waits under it; each job starts as often as it is to, when it is
due; and a job that started ends when it has taken its time. For this, aborted tasks that sleep
have to heed that, as they do on one thread, or fewer jobs were entered than there are
generations. -/
theorem jobs_punctual (duration : J → Nat) (heeds : Nat → Bool) (uses : List (Use J))
    (hheeds : (∀ task, heeds task) ∨ uses.length ≤ UInt64.size) :
    let c := Clock.use duration heeds {} uses
    let jobs := Schedule.booked 0 uses
    let starts := jobs.filter fun b => b.fate = .starts
    let waits := fun key => (jobs.filter fun b => b.key = some key).getLast?.toList.filter
      fun b => b.fate = .waits
    c.now = (uses.map Use.time).sum ∧
      (∀ key, (c.scheduler.schedule.waiting.filter fun w => w.key = some key).map
        Booking.ofWaiting = waits key) ∧
      (∀ key, c.scheduler.isPending key = !(waits key).isEmpty) ∧
      (Schedule.happened .started c.log).Perm (starts.map Booking.start) ∧
      (Schedule.happened .ended c.log).Perm
        ((starts.map (Booking.finish duration)).filter fun s => s.1 ≤ c.now) ∧
      c.log.Pairwise fun d e => d.time ≤ e.time := by
  intro c jobs starts waits
  obtain ⟨n, hfollows, hsame⟩ := Clock.follows_empty.use duration rfl
    (hheeds.imp_right fun hfew => (Nat.zero_add _).le.trans hfew)
  obtain ⟨hnow, hwaits, hstarts, hends, hsorted⟩ := Schedule.run_punctual duration uses
  rw [hfollows.mirrors.log] at hstarts hends hsorted
  rw [← hsame] at hnow hends
  have hkeyed : ∀ key, (c.scheduler.schedule.waiting.filter fun w => w.key = some key).map
      Booking.ofWaiting = waits key := by
    rw [hfollows.mirrors.schedule] at hwaits
    exact hwaits
  refine ⟨hnow, hkeyed, fun key => ?_, hstarts, hends, hsorted⟩
  refine (hfollows.sound.isPending_schedule key).trans ?_
  rw [← hkeyed key, List.isEmpty_map, Bool.eq_iff_iff]
  simp [Schedule.isPending, c]

/-- While a job of five seconds runs, another one is scheduled under its key and then a third one in
place of that: the first runs to its end, the second never starts. -/
theorem jobs_punctual_refill :
    let uses : List (Use Nat) :=
      [.later "fill_radio_tracks_den" 10 5, .wait 50, .later "fill_radio_tracks_den" 1000 0,
        .wait 900, .later "fill_radio_tracks_den" 300 1, .wait 4060]
    let c := Clock.use (fun seconds => seconds * 1000) (fun _ => true) {} uses
    (∀ task : Nat, (fun _ => true) task) ∧ c.now = 5010 ∧
      c.scheduler.isPending "fill_radio_tracks_den" = false ∧
      (Schedule.happened .started c.log).Perm [(10, 5), (1250, 1)] ∧
      (Schedule.happened .ended c.log).Perm [(5010, 5), (2250, 1)] := by
  intro uses c
  obtain ⟨hnow, -, hpending, hstarts, hends, -⟩ :=
    jobs_punctual (fun seconds => seconds * 1000) (fun _ => true) uses (.inl fun _ => rfl)
  have hstarted : (Schedule.booked 0 uses).filter (fun b => b.fate = .starts) =
      [⟨some "fill_radio_tracks_den", 10, 5, .starts⟩,
        ⟨some "fill_radio_tracks_den", 1250, 1, .starts⟩] := rfl
  rw [hstarted] at hstarts hends
  refine ⟨fun _ => rfl, hnow, hpending _, hstarts, ?_⟩
  rw [hnow] at hends
  exact hends

end Jukebox.Scheduler
