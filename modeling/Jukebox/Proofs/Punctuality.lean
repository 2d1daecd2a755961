import Jukebox.Proofs.Waiting
import Mathlib.Algebra.GroupWithZero.Nat

/-!
# Jobs start when they are due

A schedule is used by giving it jobs, by cancelling jobs and by letting time pass. What becomes of
a job can be told from what is done after it was scheduled (`fate`): it is dropped as soon as
another use covers its key, and starts when it is due if none does. A run does to each job
what was told (`run_punctual`): it starts the jobs at their times, each as often as it was
scheduled to start, and every job that starts also ends, after the time that it takes.
-/

namespace Jukebox.Schedule

variable {J : Type}

/-! ## Uses of a schedule, and what they make of a job -/

/-- Something that is done with a schedule. -/
inductive Use (J : Type) where
  | later (key : String) (delay : Nat) (job : J)
  | cancel (key : String)
  | cancelQueue (queueId : String)
  | cancelAll
  | wait (time : Nat)

namespace Use

/-- The time that a use takes. -/
def time : Use J → Nat
  | wait time => time
  | _ => 0

/-- Whether a use takes the place of a job that waits under a key, or cancels it. -/
def covers (key : Option String) : Use J → Bool
  | later other _ _ => key = some other
  | cancel other => key = some other
  | cancelQueue queueId => key.any (keyOfQueue queueId)
  | cancelAll => key.isSome
  | wait _ => false

/-- A run after a use of its schedule. -/
def apply (duration : J → Nat) (r : Run J) : Use J → Run J
  | later key delay job => { r with schedule := r.schedule.later key (r.now + delay) job }
  | cancel key => { r with schedule := (r.schedule.cancel key).2 }
  | cancelQueue queueId => { r with schedule := (r.schedule.cancelQueue queueId).2 }
  | cancelAll => { r with schedule := r.schedule.cancelAll }
  | wait time => r.advance duration (r.now + time)

end Use

/-- A run after some uses of its schedule. -/
def Run.use (duration : J → Nat) (r : Run J) (uses : List (Use J)) : Run J :=
  uses.foldl (Use.apply duration) r

/-- What becomes of a job that was scheduled. -/
inductive Fate where
  | waits
  | starts
  | dropped
  deriving DecidableEq

/-- What some uses make of a job that waits. -/
def fate (key : Option String) (due : Nat) : Nat → List (Use J) → Fate
  | _, [] => .waits
  | now, .wait time :: uses =>
    if due ≤ now + time then .starts else fate key due (now + time) uses
  | now, use :: uses => if use.covers key then .dropped else fate key due now uses

/-- A job that was scheduled for a time, and what becomes of it. -/
structure Booking (J : Type) where
  key : Option String
  due : Nat
  job : J
  fate : Fate

namespace Booking

/-- When a job is due. -/
def start (b : Booking J) : Nat × J := (b.due, b.job)

/-- When a job is over that starts as soon as it is due. -/
def finish (duration : J → Nat) (b : Booking J) : Nat × J := (b.due + duration b.job, b.job)

/-- What some uses make of a job that waits. -/
def outlook (now : Nat) (uses : List (Use J)) (w : Waiting J) : Booking J :=
  ⟨w.key, w.due, w.job, Schedule.fate w.key w.due now uses⟩

/-- A job that waits. -/
def ofWaiting (w : Waiting J) : Booking J := ⟨w.key, w.due, w.job, .waits⟩

end Booking

/-- The jobs that some uses schedule, and what becomes of each. -/
def booked : Nat → List (Use J) → List (Booking J)
  | _, [] => []
  | now, .later key delay job :: uses =>
    ⟨some key, now + delay, job, fate (some key) (now + delay) now uses⟩ :: booked now uses
  | now, use :: uses => booked (now + use.time) uses

/-- The jobs that wait, then those that some uses schedule, and what becomes of each. -/
def Run.outlook (r : Run J) (uses : List (Use J)) : List (Booking J) :=
  r.schedule.waiting.map (Booking.outlook r.now uses) ++ booked r.now uses

/-- The jobs of a log that started, or those that ended, with their times. -/
def happened (mark : Mark) (log : List (Entry J)) : List (Nat × J) :=
  (log.filter fun e => e.mark = mark).map fun e => (e.time, e.job)

theorem happened_append (mark : Mark) (log more : List (Entry J)) :
    happened mark (log ++ more) = happened mark log ++ happened mark more := by
  simp [happened]

/-! ## What the clock keeps -/

namespace Run

/-- Whether numbers tell jobs apart, the present lies between what happened and what is due, and
the jobs that started have ended or are running. -/
structure Sound (duration : J → Nat) (r : Run J) : Prop extends Numbered r where
  logged : ∀ e ∈ r.log, e.time ≤ r.now
  waits : ∀ w ∈ r.schedule.waiting, r.now ≤ w.due
  runs : ∀ x ∈ r.running, r.now ≤ x.ends
  sorted : r.log.Pairwise fun d e => d.time ≤ e.time
  balanced : ((happened .started r.log).map fun s => (s.1 + duration s.2, s.2)).Perm
    (happened .ended r.log ++ r.running.map fun x => (x.ends, x.job))

variable {duration : J → Nat} {r r' : Run J} {time : Nat}

theorem sound_empty : Sound duration ({} : Run J) where
  toNumbered := numbered_empty
  logged := by simp
  waits := by simp
  runs := by simp
  sorted := .nil
  balanced := .nil

/-- A log in order stays so when it goes on with the present. -/
theorem sorted_append {log : List (Entry J)} (more : List (Entry J)) {now : Nat}
    (hsorted : log.Pairwise fun d e => d.time ≤ e.time) (hlogged : ∀ e ∈ log, e.time ≤ now)
    (hmore : ∀ e ∈ more, e.time = now) :
    (log ++ more).Pairwise (fun d e => d.time ≤ e.time) ∧ ∀ e ∈ log ++ more, e.time ≤ now := by
  refine ⟨List.pairwise_append.2 ⟨hsorted, ?_, ?_⟩, ?_⟩
  · refine List.pairwise_of_forall_mem_list fun d hd e he => ?_
    exact Nat.le_of_eq ((hmore d hd).trans (hmore e he).symm)
  · intro d hd e he
    rw [hmore e he]
    exact hlogged d hd
  · intro e he
    rcases List.mem_append.1 he with he | he
    · exact hlogged e he
    · exact Nat.le_of_eq (hmore e he)

theorem Sound.start (hr : r.Sound duration) {w : Waiting J} (hw : w ∈ r.schedule.waiting)
    (hfirst : ∀ v ∈ r.schedule.waiting, w.due ≤ v.due) (hends : ∀ x ∈ r.running, w.due ≤ x.ends) :
    (r.start duration w).Sound duration := by
  have hlogged : ∀ e ∈ r.log, e.time ≤ w.due :=
    fun e he => Nat.le_trans (hr.logged e he) (hr.waits w hw)
  have hwaits : ∀ v ∈ (r.schedule.remove w.number).waiting, w.due ≤ v.due :=
    fun v hv => hfirst v (List.mem_filter.1 hv).1
  have hnumbered := hr.toNumbered.start duration w
  unfold Run.start at hnumbered ⊢
  by_cases hzero : duration w.job = 0
  · obtain ⟨hsorted, hbefore⟩ := sorted_append
      [⟨w.due, .started, w.job⟩, ⟨w.due, .ended, w.job⟩] hr.sorted hlogged (by simp)
    rw [if_pos hzero] at hnumbered ⊢
    rw [List.append_assoc] at hnumbered ⊢
    refine ⟨hnumbered, hbefore, hwaits, hends, hsorted, ?_⟩
    rw [happened_append, happened_append, List.map_append]
    have hboth := hr.balanced.append_right [(w.due, w.job)]
    rw [List.append_assoc] at hboth
    simpa [happened, hzero] using hboth.trans (List.perm_append_comm.append_left _)
  · obtain ⟨hsorted, hbefore⟩ :=
      sorted_append [⟨w.due, .started, w.job⟩] hr.sorted hlogged (by simp)
    rw [if_neg hzero] at hnumbered ⊢
    refine ⟨hnumbered, hbefore, hwaits, List.forall_mem_append.2 ⟨hends, ?_⟩, hsorted, ?_⟩
    · exact List.forall_mem_singleton.2 (Nat.le_add_right _ _)
    · have hboth := hr.balanced.append_right [(w.due + duration w.job, w.job)]
      rw [happened_append, happened_append, List.map_append, List.map_append]
      simpa [happened] using hboth

theorem Sound.finish (hr : r.Sound duration) {x : Running J} (hx : x ∈ r.running)
    (hfirst : ∀ w ∈ r.schedule.waiting, x.ends ≤ w.due) (hends : ∀ y ∈ r.running, x.ends ≤ y.ends) :
    (r.finish x).Sound duration := by
  have hlogged : ∀ e ∈ r.log, e.time ≤ x.ends :=
    fun e he => Nat.le_trans (hr.logged e he) (hr.runs x hx)
  have hkept : ∀ y ∈ r.running.filter (fun y => y.number ≠ x.number), y ∈ r.running :=
    fun y hy => (List.mem_filter.1 hy).1
  obtain ⟨hsorted, hbefore⟩ := sorted_append [⟨x.ends, .ended, x.job⟩] hr.sorted hlogged (by simp)
  refine ⟨hr.toNumbered.finish x, hbefore, hfirst, fun y hy => hends y (hkept y hy), hsorted, ?_⟩
  have hsplit := ((perm_cons_filter_ne Running.number hr.running_nodup hx).map
    fun x => (x.ends, x.job)).append_left (happened .ended r.log)
  unfold Run.finish
  rw [happened_append, happened_append]
  simpa [happened] using hr.balanced.trans hsplit

/-! ## Letting time pass -/

/-- How far a run is on its way to a time: what started by then, with the jobs that are still to
start, are the starts `due`, and the jobs `left` are those that still wait at that time. -/
structure Underway (duration : J → Nat) (time : Nat) (due : List (Nat × J)) (left : List (Waiting J))
    (r : Run J) : Prop where
  sound : r.Sound duration
  now_le : r.now ≤ time
  starts : (happened .started r.log ++
    (r.schedule.waiting.filter fun w => w.due ≤ time).map fun w => (w.due, w.job)).Perm due
  waits : (r.schedule.waiting.filter fun w => time < w.due) = left

theorem Underway.step {due : List (Nat × J)} {left : List (Waiting J)}
    (hr : r.Underway duration time due left) (hstep : r.step? duration time = some r') :
    r'.Underway duration time due left := by
  rcases step?_cases hstep with
    ⟨w, hw, hdue, hplace, hbeside, rfl⟩ | ⟨x, hx, hdue, hplace, hbeside, rfl⟩
  · have hfirst := fun v hv => time_le (hplace v hv)
    have hends := fun x hx => time_le (hbeside x hx)
    have hnodup := hr.sound.waiting_nodup
    have hwaiting : (r.start duration w).schedule.waiting =
        r.schedule.waiting.filter fun v => v.number ≠ w.number := by
      unfold Run.start
      split <;> rfl
    have hlog : happened .started (r.start duration w).log =
        happened .started r.log ++ [(w.due, w.job)] := by
      unfold Run.start
      split <;> simp [happened]
    have hnow : (r.start duration w).now = w.due := by
      unfold Run.start
      split <;> rfl
    refine ⟨hr.sound.start hw hfirst hends, by rw [hnow]; exact hdue, ?_, ?_⟩
    · have hsplit := ((perm_cons_filter_ne Waiting.number hnodup hw).filter
        fun v => decide (v.due ≤ time)).map fun v => (v.due, v.job)
      rw [List.filter_cons_of_pos (by simpa using hdue), List.map_cons] at hsplit
      rw [hlog, hwaiting, List.append_assoc]
      exact (hsplit.symm.append_left _).trans hr.starts
    · rw [hwaiting, filter_filter_ne Waiting.number hnodup hw (by simpa using hdue)]
      exact hr.waits
  · have hfirst := fun w hw => time_le (hplace w hw)
    have hends := fun y hy => time_le (hbeside y hy)
    refine ⟨hr.sound.finish hx hfirst hends, hdue, ?_, hr.waits⟩
    have hlog : happened .started (r.finish x).log = happened .started r.log := by
      simp [Run.finish, happened]
    rw [hlog]
    exact hr.starts

/-- What has happened when time has passed. -/
theorem Sound.advance (hr : r.Sound duration) (htime : r.now ≤ time) :
    (r.advance duration time).Sound duration ∧
      (∀ x ∈ (r.advance duration time).running, time < x.ends) ∧
      ((r.advance duration time).schedule.waiting =
        r.schedule.waiting.filter fun w => time < w.due) ∧
      (happened .started (r.advance duration time).log).Perm
        (happened .started r.log ++
          (r.schedule.waiting.filter fun w => w.due ≤ time).map fun w => (w.due, w.job)) := by
  have hstart : r.Underway duration time _ _ := ⟨hr, htime, .refl _, rfl⟩
  have hend := steps_kept (fun _ _ hr hstep => Underway.step hr hstep) r.stepsLeft hstart
  have hstuck : (steps duration time r.stepsLeft r).step? duration time = none :=
    step?_steps (Nat.le_refl _)
  obtain ⟨hdue, hends⟩ := step?_none hstuck
  obtain ⟨hsound, hnow, hstarts, hwaits⟩ := hend
  refine ⟨{ hsound with logged := ?_, waits := ?_, runs := ?_ }, hends, ?_, ?_⟩
  · exact fun e he => Nat.le_trans (hsound.logged e he) hnow
  · exact fun w hw => Nat.le_of_lt (hdue w hw)
  · exact fun x hx => Nat.le_of_lt (hends x hx)
  · rw [← hwaits]
    exact (List.filter_eq_self.2 fun w hw => by simpa using hdue w hw).symm
  · have hnone : ((steps duration time r.stepsLeft r).schedule.waiting.filter
        fun w => w.due ≤ time) = [] :=
      List.filter_eq_nil_iff.2 fun w hw => by simpa using hdue w hw
    rw [hnone, List.map_nil, List.append_nil] at hstarts
    exact hstarts

end Run

/-! ## What becomes of the jobs -/

section Fates

variable {key : Option String} {due now : Nat} {use : Use J} {uses : List (Use J)}

variable (key due now uses) in
theorem fate_wait (time : Nat) :
    fate key due now (.wait time :: uses) =
      if due ≤ now + time then .starts else fate key due (now + time) uses := rfl

variable (key due now uses) in
/-- A use that takes no time drops the jobs that it covers, and no others. -/
theorem fate_cons (huse : ∀ time, use ≠ .wait time) :
    fate key due now (use :: uses) =
      if use.covers key then .dropped else fate key due now uses := by
  cases use with
  | wait time => exact absurd rfl (huse time)
  | _ => rfl

/-- A job that something is scheduled in place of does not wait any more. -/
theorem fate_ne_waits {key : String}
    (hagain : (booked now uses).filter (fun b => b.key = some key) ≠ []) :
    fate (some key) due now uses ≠ .waits := by
  induction uses generalizing now with
  | nil => exact absurd rfl hagain
  | cons use uses ih =>
    cases use with
    | wait time =>
      rw [fate_wait]
      split
      · exact fun h => nomatch h
      · exact ih hagain
    | later other delay job =>
      rw [fate_cons _ _ _ _ (by simp)]
      split
      · exact fun h => nomatch h
      · rename_i hother
        have hne : other ≠ key := by simpa [Use.covers, eq_comm] using hother
        refine ih ?_
        simpa [booked, hne] using hagain
    | cancel other =>
      rw [fate_cons _ _ _ _ (by simp)]
      split
      · exact fun h => nomatch h
      · exact ih hagain
    | cancelQueue queueId =>
      rw [fate_cons _ _ _ _ (by simp)]
      split
      · exact fun h => nomatch h
      · exact ih hagain
    | cancelAll =>
      rw [fate_cons _ _ _ _ (by simp)]
      exact fun h => nomatch h

/-- Of the jobs under a key, only the last one that was scheduled can wait. -/
theorem booked_waits (key : String) (now : Nat) (uses : List (Use J)) :
    ((booked now uses).filter fun b => b.key = some key).filter (fun b => b.fate = .waits) =
      ((booked now uses).filter fun b => b.key = some key).getLast?.toList.filter
        fun b => b.fate = .waits := by
  induction uses generalizing now with
  | nil => rfl
  | cons use uses ih =>
    cases use with
    | later other delay job =>
      unfold booked
      by_cases hother : some other = some key
      · rw [List.filter_cons_of_pos (by simpa using hother)]
        by_cases hmore : (booked now uses).filter (fun b => b.key = some key) = []
        · rw [hmore]
          rfl
        · have hgone : fate (some other) (now + delay) now uses ≠ .waits := by
            rw [hother]
            exact fate_ne_waits hmore
          rw [List.filter_cons_of_neg (by simpa using hgone), ih now,
            List.getLast?_cons_of_ne_nil hmore]
      · rw [List.filter_cons_of_neg (by simpa using hother)]
        exact ih now
    | _ => exact ih _

/-- A use that takes no time leaves the outlook of the jobs that it does not cover. -/
theorem filter_outlook_cons (huse : ∀ time, use ≠ .wait time) {result : Fate}
    (hresult : result ≠ .dropped) (waiting : List (Waiting J)) :
    (waiting.map (Booking.outlook now (use :: uses))).filter (fun b => b.fate = result) =
      ((waiting.filter fun w => !use.covers w.key).map (Booking.outlook now uses)).filter
        fun b => b.fate = result := by
  induction waiting with
  | nil => rfl
  | cons w waiting ih =>
    have hfate := fate_cons w.key w.due now uses huse
    by_cases hcovers : use.covers w.key
    · rw [if_pos hcovers] at hfate
      rw [List.filter_cons_of_neg (by simp [hcovers]), List.map_cons,
        List.filter_cons_of_neg (by simpa [Booking.outlook, hfate] using hresult.symm)]
      exact ih
    · rw [if_neg hcovers] at hfate
      have hsame : Booking.outlook now (use :: uses) w = Booking.outlook now uses w := by
        unfold Booking.outlook
        rw [hfate]
      rw [List.filter_cons_of_pos (by simp [hcovers]), List.map_cons, List.map_cons, hsame,
        List.filter_cons, List.filter_cons, ih]

/-- The jobs that still wait when time has passed are among those that were not due. -/
theorem waits_outlook_wait (time : Nat) (waiting : List (Waiting J)) :
    (waiting.map (Booking.outlook now (.wait time :: uses))).filter (fun b => b.fate = .waits) =
      ((waiting.filter fun w => now + time < w.due).map
        (Booking.outlook (now + time) uses)).filter fun b => b.fate = .waits := by
  induction waiting with
  | nil => rfl
  | cons w waiting ih =>
    have hfate := fate_wait w.key w.due now uses time
    by_cases hdue : w.due ≤ now + time
    · rw [if_pos hdue] at hfate
      rw [List.filter_cons_of_neg (by simpa using hdue), List.map_cons,
        List.filter_cons_of_neg (by simp [Booking.outlook, hfate])]
      exact ih
    · rw [if_neg hdue] at hfate
      have hsame : Booking.outlook now (.wait time :: uses) w =
          Booking.outlook (now + time) uses w := by
        unfold Booking.outlook
        rw [hfate]
      rw [List.filter_cons_of_pos (by simpa using hdue), List.map_cons, List.map_cons, hsame,
        List.filter_cons, List.filter_cons, ih]

variable (now uses) in
/-- The jobs that start are those that are due when time has passed, and those that start later. -/
theorem starts_outlook_wait (time : Nat) (waiting : List (Waiting J)) :
    (((waiting.map (Booking.outlook now (.wait time :: uses))).filter
        fun b => b.fate = .starts).map Booking.start).Perm
      (((waiting.filter fun w => w.due ≤ now + time).map fun w => (w.due, w.job)) ++
        (((waiting.filter fun w => now + time < w.due).map
          (Booking.outlook (now + time) uses)).filter fun b => b.fate = .starts).map
            Booking.start) := by
  induction waiting with
  | nil => exact .nil
  | cons w waiting ih =>
    have hfate := fate_wait w.key w.due now uses time
    by_cases hdue : w.due ≤ now + time
    · rw [if_pos hdue] at hfate
      have hlate : ¬ now + time < w.due := by omega
      rw [List.map_cons, List.filter_cons_of_pos (by simp [Booking.outlook, hfate]),
        List.filter_cons_of_pos (by simpa using hdue),
        List.filter_cons_of_neg (a := w) (p := fun w => now + time < w.due) (by simpa using hlate)]
      exact ih.cons (w.due, w.job)
    · rw [if_neg hdue] at hfate
      have hsame : Booking.outlook now (.wait time :: uses) w =
          Booking.outlook (now + time) uses w := by
        unfold Booking.outlook
        rw [hfate]
      have hlate : now + time < w.due := by omega
      rw [List.map_cons, hsame, List.filter_cons_of_neg (a := w) (p := fun w => w.due ≤ now + time)
          (by simpa using hdue),
        List.filter_cons_of_pos (a := w) (p := fun w => now + time < w.due) (by simpa using hlate),
        List.map_cons, List.filter_cons, List.filter_cons]
      split
      · exact (ih.cons _).trans List.perm_middle.symm
      · exact ih

end Fates

/-! ## Whole runs -/

namespace Run

variable {duration : J → Nat} {r : Run J} {use : Use J} {uses : List (Use J)}

theorem Sound.filter (hr : r.Sound duration) (p : Waiting J → Bool) :
    Sound duration
      { r with schedule := { r.schedule with waiting := r.schedule.waiting.filter p } } :=
  { hr with
    toNumbered := hr.toNumbered.filter p
    waits := fun w hw => hr.waits w (List.mem_filter.1 hw).1 }

theorem Sound.later (hr : r.Sound duration) (key : String) (delay : Nat) (job : J) :
    Sound duration { r with schedule := r.schedule.later key (r.now + delay) job } :=
  { hr with
    toNumbered := hr.toNumbered.later key (r.now + delay) job
    waits := List.forall_mem_append.2 ⟨fun w hw => hr.waits w (List.mem_filter.1 hw).1,
      List.forall_mem_singleton.2 (Nat.le_add_right _ _)⟩ }

theorem Sound.apply (hr : r.Sound duration) (use : Use J) :
    (use.apply duration r).Sound duration := by
  cases use with
  | later key delay job => exact hr.later key delay job
  | cancel => exact hr.filter _
  | cancelQueue => exact hr.filter _
  | cancelAll => exact hr.filter _
  | wait time => exact (hr.advance (Nat.le_add_right _ _)).1

theorem now_apply (duration : J → Nat) (r : Run J) (use : Use J) :
    (use.apply duration r).now = r.now + use.time := by
  cases use <;> rfl

/-- Jobs never run beyond their ends. -/
theorem running_apply (hr : r.Sound duration) (hrunning : ∀ x ∈ r.running, r.now < x.ends) :
    ∀ x ∈ (use.apply duration r).running, (use.apply duration r).now < x.ends := by
  cases use with
  | wait time => exact (hr.advance (Nat.le_add_right _ _)).2.1
  | _ => exact hrunning

theorem log_apply (huse : ∀ time, use ≠ .wait time) : (use.apply duration r).log = r.log := by
  cases use with
  | wait time => exact absurd rfl (huse time)
  | _ => rfl

/-- What becomes of the jobs is the same before and after a use that takes no time. -/
theorem outlook_apply (huse : ∀ time, use ≠ .wait time) {result : Fate}
    (hresult : result ≠ .dropped) :
    ((use.apply duration r).outlook uses).filter (fun b => b.fate = result) =
      (r.outlook (use :: uses)).filter fun b => b.fate = result := by
  unfold outlook
  rw [List.filter_append, List.filter_append, filter_outlook_cons huse hresult]
  cases use with
  | wait time => exact absurd rfl (huse time)
  | later key delay job =>
    have hwaiting : (Use.apply duration r (.later key delay job)).schedule.waiting =
        (r.schedule.waiting.filter fun w => !(Use.later key delay job).covers w.key) ++
          [⟨some key, r.schedule.nextNumber, r.now + delay, job⟩] := by
      simp [Use.apply, Use.covers, Schedule.later, without]
    rw [hwaiting, List.map_append, List.filter_append, List.append_assoc, ← List.filter_append]
    rfl
  | cancel key =>
    have hwaiting : (Use.apply duration r (.cancel key)).schedule.waiting =
        r.schedule.waiting.filter fun w => !(Use.cancel key : Use J).covers w.key := by
      simp [Use.apply, Use.covers, Schedule.cancel, without]
    rw [hwaiting]
    rfl
  | cancelQueue queueId =>
    have hwaiting : (Use.apply duration r (.cancelQueue queueId)).schedule.waiting =
        r.schedule.waiting.filter fun w => !(Use.cancelQueue queueId : Use J).covers w.key := by
      simp [Use.apply, Use.covers, Schedule.cancelQueue, Waiting.ofQueue]
    rw [hwaiting]
    rfl
  | cancelAll =>
    have hwaiting : (Use.apply duration r .cancelAll).schedule.waiting =
        r.schedule.waiting.filter fun w => !(Use.cancelAll : Use J).covers w.key := by
      simp [Use.apply, Use.covers, Schedule.cancelAll]
    rw [hwaiting]
    rfl

/-- The jobs that wait in the end are those that were to wait. -/
theorem waits_use (hr : r.Sound duration) :
    (r.use duration uses).schedule.waiting.map Booking.ofWaiting =
      (r.outlook uses).filter fun b => b.fate = .waits := by
  induction uses generalizing r with
  | nil =>
    unfold outlook booked
    rw [List.append_nil, List.filter_eq_self.2]
    · rfl
    · intro b hb
      obtain ⟨w, -, rfl⟩ := List.mem_map.1 hb
      rfl
  | cons use uses ih =>
    refine (ih (hr.apply use)).trans ?_
    cases use with
    | wait time =>
      have hleft : (Use.apply duration r (.wait time)).schedule.waiting =
          r.schedule.waiting.filter fun w => r.now + time < w.due :=
        (hr.advance (Nat.le_add_right r.now time)).2.2.1
      unfold outlook
      rw [List.filter_append, List.filter_append, waits_outlook_wait, hleft]
      rfl
    | _ => exact outlook_apply (by simp) (by simp)

/-- The jobs that have started in the end are those that had started, and those that were to
start, at the times at which they were due. -/
theorem starts_use (hr : r.Sound duration) :
    (happened .started (r.use duration uses).log).Perm
      (happened .started r.log ++
        ((r.outlook uses).filter fun b => b.fate = .starts).map Booking.start) := by
  induction uses generalizing r with
  | nil =>
    have hnone : ((r.outlook []).filter fun b => b.fate = .starts) = [] := by
      refine List.filter_eq_nil_iff.2 fun b hb => ?_
      rw [outlook, booked, List.append_nil] at hb
      obtain ⟨w, -, rfl⟩ := List.mem_map.1 hb
      exact fun h => nomatch h
    rw [hnone, List.map_nil, List.append_nil]
    exact .refl _
  | cons use uses ih =>
    refine (ih (hr.apply use)).trans ?_
    cases use with
    | wait time =>
      obtain ⟨-, -, hwaiting, hlog⟩ := hr.advance (Nat.le_add_right r.now time)
      have hleft : (Use.apply duration r (.wait time)).schedule.waiting =
          r.schedule.waiting.filter fun w => r.now + time < w.due := hwaiting
      have hstarts := (starts_outlook_wait r.now uses time r.schedule.waiting).append_right
        (((booked (r.now + time) uses).filter fun b => b.fate = .starts).map Booking.start)
      refine (hlog.append_right _).trans ?_
      rw [List.append_assoc]
      refine List.Perm.append_left _ ?_
      unfold outlook
      rw [List.filter_append, List.filter_append, List.map_append, List.map_append, hleft,
        ← List.append_assoc]
      exact hstarts.symm
    | _ =>
      rw [outlook_apply (by simp) (by simp), log_apply (by simp)]

theorem sound_use (hr : r.Sound duration) (hrunning : ∀ x ∈ r.running, r.now < x.ends)
    (uses : List (Use J)) :
    (r.use duration uses).Sound duration ∧
      (∀ x ∈ (r.use duration uses).running, (r.use duration uses).now < x.ends) ∧
      (r.use duration uses).now = r.now + (uses.map Use.time).sum := by
  induction uses generalizing r with
  | nil => exact ⟨hr, hrunning, rfl⟩
  | cons use uses ih =>
    obtain ⟨hsound, hends, hnow⟩ := ih (hr.apply use) (running_apply hr hrunning)
    refine ⟨hsound, hends, hnow.trans ?_⟩
    rw [now_apply, List.map_cons, List.sum_cons, Nat.add_assoc]

/-- When a run is at rest, the jobs that have ended are those that started long enough ago. -/
theorem ends_of_sound (hr : r.Sound duration) (hrunning : ∀ x ∈ r.running, r.now < x.ends)
    {starts : List (Booking J)}
    (hstarts : (happened .started r.log).Perm (starts.map Booking.start)) :
    (happened .ended r.log).Perm
      ((starts.map (Booking.finish duration)).filter fun s => s.1 ≤ r.now) := by
  have hfinish : (starts.map Booking.start).map (fun s => (s.1 + duration s.2, s.2)) =
      starts.map (Booking.finish duration) := by
    rw [List.map_map]
    rfl
  have hended : (happened .ended r.log).filter (fun s => s.1 ≤ r.now) = happened .ended r.log := by
    refine List.filter_eq_self.2 fun s hs => ?_
    obtain ⟨e, he, rfl⟩ := List.mem_map.1 hs
    exact decide_eq_true (hr.logged e (List.mem_filter.1 he).1)
  have hnone : (r.running.map fun x => (x.ends, x.job)).filter (fun s => s.1 ≤ r.now) = [] := by
    refine List.filter_eq_nil_iff.2 fun s hs => ?_
    obtain ⟨x, hx, rfl⟩ := List.mem_map.1 hs
    simpa using hrunning x hx
  have hboth := ((hstarts.map fun s => (s.1 + duration s.2, s.2)).symm.trans hr.balanced).filter
    fun s => decide (s.1 ≤ r.now)
  rw [hfinish, List.filter_append, hended, hnone, List.append_nil] at hboth
  exact hboth.symm

end Run

/-- Whatever is done with a schedule, at most one job waits under a key, the last one scheduled
under it; each job starts as often as it is to, when it is due; and a job that started ends when
it has taken its time. -/
theorem run_punctual (duration : J → Nat) (uses : List (Use J)) :
    let r := Run.use duration {} uses
    let jobs := booked 0 uses
    let starts := jobs.filter fun b => b.fate = .starts
    r.now = (uses.map Use.time).sum ∧
      (∀ key, (r.schedule.waiting.filter fun w => w.key = some key).map Booking.ofWaiting =
        (jobs.filter fun b => b.key = some key).getLast?.toList.filter fun b => b.fate = .waits) ∧
      (happened .started r.log).Perm (starts.map Booking.start) ∧
      (happened .ended r.log).Perm
        ((starts.map (Booking.finish duration)).filter fun s => s.1 ≤ r.now) ∧
      r.log.Pairwise fun d e => d.time ≤ e.time := by
  intro r jobs starts
  have hempty : Run.Sound duration ({} : Run J) := Run.sound_empty
  obtain ⟨hsound, hrunning, hnow⟩ := Run.sound_use hempty (by simp) uses
  have hwaits : r.schedule.waiting.map Booking.ofWaiting = jobs.filter fun b => b.fate = .waits :=
    Run.waits_use hempty
  have hstarts : (happened .started r.log).Perm (starts.map Booking.start) := Run.starts_use hempty
  refine ⟨hnow.trans (Nat.zero_add _), fun key => ?_, hstarts,
    Run.ends_of_sound hsound hrunning hstarts, hsound.sorted⟩
  have hkeyed : (r.schedule.waiting.filter fun w => w.key = some key).map Booking.ofWaiting =
      (r.schedule.waiting.map Booking.ofWaiting).filter fun b => b.key = some key := by
    rw [List.filter_map]
    rfl
  rw [hkeyed, hwaits, List.filter_filter, ← booked_waits key 0 uses, List.filter_filter]
  exact List.filter_congr fun b _ => Bool.and_comm _ _

/-- A job that is scheduled again too late has started before. -/
example : ((booked 0 [.later "a" 3 1, .later "b" 5 2, .wait 4, .later "a" 3 3, .later "b" 5 4,
    .wait 3]).map fun b => (b.start, b.fate)) =
    [((3, 1), .starts), ((5, 2), .dropped), ((7, 3), .starts), ((9, 4), .waits)] := by
  decide

end Jukebox.Schedule
