import Jukebox.Proofs.Waiting
import Jukebox.Timeline

/-!
# Turns of a timeline

A timeline lets the jobs of all hubs take turns with the commands. Seen from one hub these turns are
the steps of a run of its schedule (`Timeline.Clocks`): when the timeline goes on with a job of the
hub, or with work that a job of the hub left, that is what the run starts or ends next
(`Clocks.step?_job`, `Clocks.step?_task`). A job that leaves the schedule alone until it first waits
makes of the timeline what its start makes of the run, and takes as long there as it waits here
(`Clocks.proceed_job`); when what it left is finished then, this makes of the timeline what its end
makes of the run (`Clocks.proceed_task`).
-/

namespace Jukebox

/-- How long a program that stopped waits. -/
def Stop.lasts {α : Type} (now : Nat) : Stop α → Nat
  | done _ => 0
  | paused due _ => due - now

/-- What goes on of a program that waited. -/
def Paused.resumed {σ ρ α : Type} (world : World σ ρ) (s : σ) : Paused α → Program α
  | rest p => p
  | answered c next => next (world.answer s c)

/-- A program that waits goes on later. -/
theorem Program.lt_of_paused {σ ρ α : Type} {world : World σ ρ} {now due : Nat} {p : Program α}
    {s s' : σ} {h h' : Hub} {rest : Paused α}
    (hrun : p.run world now s h = (s', h', .paused due rest)) : now < due := by
  induction p generalizing s h with
  | done value => cases hrun
  | read next ih => exact ih _ _ hrun
  | write h' next ih => exact ih hrun
  | call c next ih =>
    unfold run at hrun
    dsimp only at hrun
    split at hrun
    · exact ih _ hrun
    · cases hrun
      omega
  | sleep ms next ih =>
    unfold run at hrun
    split at hrun
    · exact ih hrun
    · cases hrun
      omega
  | turn next ih =>
    unfold run at hrun
    dsimp only at hrun
    split at hrun
    · exact ih hrun
    · cases hrun
      omega

namespace Timeline

variable {σ ρ : Type}

/-! ## What goes on next -/

namespace Candidate

/-- When a candidate goes on, and which of those of that time it is. -/
def place (c : Candidate ρ) : ℕ ×ₗ ℕ := toLex (c.due, c.rank)

theorem before_iff (a b : Candidate ρ) : a.before b ↔ a.place < b.place :=
  earlier_iff a.due a.rank b.due b.rank

end Candidate

/-- The place among the jobs of a hub is that among the candidates. -/
theorem toLex_succ_le {a b c d : Nat} :
    toLex (a, b + 1) ≤ toLex (c, d + 1) ↔ toLex (a, b) ≤ toLex (c, d) := by
  simp [Prod.Lex.toLex_le_toLex]

variable {t : Timeline σ ρ} {n : Nat} {w : Waiting Job} {task : Task ρ} {index number : Nat}

theorem first?_some {c : Candidate ρ} (h : t.first? = some c) :
    c ∈ t.candidates ∧ ∀ d ∈ t.candidates, c.place ≤ d.place := by
  have hfold : t.first? = t.candidates.foldl (keepFirst Candidate.before) none := by
    unfold first?
    congr 1
    funext best d
    cases best <;> rfl
  exact foldl_keepFirst_some Candidate.place Candidate.before_iff (hfold.symm.trans h)

theorem task_mem_candidates : .task index task ∈ t.candidates ↔ t.tasks[index]? = some task := by
  simp [candidates, List.mem_mapIdx, List.getElem?_eq_some_iff]

theorem job_mem_candidates :
    .job n w ∈ t.candidates ↔
      ∃ i, t.hubs[n]? = some i ∧ i.hub.schedule.first? = some w := by
  simp [candidates, List.mem_mapIdx, List.getElem?_eq_some_iff]

/-! ## The clock of a hub -/

/-- The schedule of a hub. -/
def scheduleOf (t : Timeline σ ρ) (n : Nat) : Schedule Job := (t.checkOut n).schedule

/-- When a task of a hub goes on that a job left, or a command that is not waited for. -/
def ongoing? (n : Nat) (task : Task ρ) : Option (ℕ ×ₗ ℕ) :=
  if task.hub = n then task.number.map fun number => toLex (task.due, number) else none

/-- Whether a run tells the turns of a hub: with its schedule, and a running job for each task. -/
structure Clocks (t : Timeline σ ρ) (n : Nat) (r : Schedule.Run Job) : Prop where
  schedule : r.schedule = t.scheduleOf n
  running : r.running.map Schedule.Running.place = t.tasks.filterMap (ongoing? n)

theorem scheduleOf_eq {i : Installation} (hi : t.hubs[n]? = some i) :
    t.scheduleOf n = i.hub.schedule := by
  simp [scheduleOf, checkOut, hi]

theorem ongoing?_of_number (hhub : task.hub = n) (hnumber : task.number = some number) :
    ongoing? n task = some (toLex (task.due, number)) := by
  simp [ongoing?, hhub, hnumber]

theorem place_task (hnumber : task.number = some number) :
    (Candidate.task index task).place = toLex (task.due, number + 1) := by
  simp [Candidate.place, Candidate.due, Candidate.rank, hnumber]

/-- Nothing that waits in a hub comes before what goes on next. -/
theorem place_le_of_waiting {c : Candidate ρ} (h : t.first? = some c)
    (hw : w ∈ (t.scheduleOf n).waiting) : c.place ≤ toLex (w.due, w.number + 1) := by
  cases hi : t.hubs[n]? with
  | none =>
    have hnone : (t.scheduleOf n).waiting = [] := by simp [scheduleOf, checkOut, hi]; rfl
    simp [hnone] at hw
  | some i =>
    rw [scheduleOf_eq hi] at hw
    cases hfirst : i.hub.schedule.first? with
    | none => simp [Schedule.first?_none hfirst] at hw
    | some v =>
      have hle := (first?_some h).2 _ (job_mem_candidates.2 ⟨i, hi, hfirst⟩)
      exact hle.trans (toLex_succ_le.2 ((Schedule.first?_some hfirst).2 w hw))

/-- Nothing that a job of a hub left comes before what goes on next. -/
theorem place_le_of_ongoing {c : Candidate ρ} (h : t.first? = some c) {x : Schedule.Running Job}
    (hx : x.place ∈ t.tasks.filterMap (ongoing? n)) : c.place ≤ toLex (x.ends, x.number + 1) := by
  obtain ⟨task, htask, hongoing⟩ := List.mem_filterMap.1 hx
  obtain ⟨index, hindex⟩ := List.mem_iff_getElem?.1 htask
  obtain ⟨-, hongoing⟩ := Option.ite_none_right_eq_some.1 hongoing
  obtain ⟨number, hnumber, hplace⟩ := Option.map_eq_some_iff.1 hongoing
  have hsame := toLex_inj.1 hplace
  have hle := (first?_some h).2 _ (task_mem_candidates.2 hindex)
  rwa [place_task hnumber, show task.due = x.ends from congrArg Prod.fst hsame,
    show number = x.number from congrArg Prod.snd hsame] at hle

variable {r : Schedule.Run Job} {duration : Job → Nat} {time : Nat}

theorem Clocks.mem_running (hr : t.Clocks n r) {x : Schedule.Running Job} (hx : x ∈ r.running) :
    x.place ∈ t.tasks.filterMap (ongoing? n) :=
  hr.running ▸ List.mem_map_of_mem hx

/-- A job that is next in the timeline is what its hub's clock starts next. -/
theorem Clocks.step?_job (hr : t.Clocks n r) (hnumbers : r.Numbered)
    (h : t.first? = some (.job n w)) (hdue : w.due ≤ time) :
    w ∈ r.schedule.waiting ∧ r.step? duration time = some (r.start duration w) := by
  obtain ⟨i, hi, hfirst⟩ := job_mem_candidates.1 (first?_some h).1
  obtain ⟨hw, hfirst⟩ := Schedule.first?_some hfirst
  rw [← scheduleOf_eq hi, ← hr.schedule] at hw hfirst
  refine ⟨hw, Schedule.Run.step?_start hw hdue hnumbers.waiting_nodup hfirst fun x hx => ?_⟩
  refine lt_of_le_of_ne (toLex_succ_le.1 (place_le_of_ongoing h (hr.mem_running hx))) fun heq => ?_
  exact hnumbers.apart w hw x hx (congrArg Prod.snd (toLex_inj.1 heq))

/-- Work of a hub that is next in the timeline is what its clock ends next. -/
theorem Clocks.step?_task (hr : t.Clocks n r) (hnumbers : r.Numbered)
    (h : t.first? = some (.task index task)) (hhub : task.hub = n)
    (hnumber : task.number = some number) (hdue : task.due ≤ time) :
    ∃ x ∈ r.running, x.place = toLex (task.due, number) ∧
      r.step? duration time = some (r.finish x) := by
  have htask := List.mem_of_getElem? (task_mem_candidates.1 (first?_some h).1)
  have hongoing : toLex (task.due, number) ∈ r.running.map Schedule.Running.place := by
    rw [hr.running]
    exact List.mem_filterMap.2 ⟨task, htask, ongoing?_of_number hhub hnumber⟩
  obtain ⟨x, hx, hplace⟩ := List.mem_map.1 hongoing
  have hcandidate : (Candidate.task index task).place = toLex (x.ends, x.number + 1) := by
    have hsame := toLex_inj.1 hplace
    rw [place_task hnumber, show x.ends = task.due from congrArg Prod.fst hsame,
      show x.number = number from congrArg Prod.snd hsame]
  refine ⟨x, hx, hplace, Schedule.Run.step?_finish hx ?_ hnumbers.running_nodup ?_ ?_⟩
  · rwa [show x.ends = task.due from congrArg Prod.fst (toLex_inj.1 hplace)]
  · intro w hw
    have hle := place_le_of_waiting (n := n) h (hr.schedule ▸ hw)
    rw [hcandidate] at hle
    refine lt_of_le_of_ne (toLex_succ_le.1 hle) fun heq => ?_
    exact hnumbers.apart w hw x hx (congrArg Prod.snd (toLex_inj.1 heq)).symm
  · intro y hy
    have hle := place_le_of_ongoing h (hr.mem_running hy)
    rw [hcandidate] at hle
    exact toLex_succ_le.1 hle

/-! ## Going on -/

/-- A timeline at which a candidate is about to go on. -/
def taken (t : Timeline σ ρ) : Candidate ρ → Timeline σ ρ
  | .task index task => { t with now := max t.now task.due, tasks := t.tasks.eraseIdx index }
  | .job n w =>
    let t := { t with now := max t.now w.due }
    let h := t.checkOut n
    t.checkIn n { h with schedule := h.schedule.remove w.number }

theorem scheduleOf_checkIn (hn : n < t.hubs.length) (h : Hub) :
    (t.checkIn n h).scheduleOf n = h.schedule := by
  simp [scheduleOf, checkOut, checkIn, putStore, hn]

/-- A job that is about to go on has left the jobs that wait. -/
theorem Clocks.taken_job (hr : t.Clocks n r) (hn : n < t.hubs.length) (w : Waiting Job) :
    (t.taken (.job n w)).Clocks n { r with schedule := r.schedule.remove w.number } := by
  refine ⟨?_, hr.running⟩
  refine Eq.trans ?_ (scheduleOf_checkIn (t := { t with now := max t.now w.due }) hn _).symm
  exact congrArg (fun s => s.remove w.number) hr.schedule

/-- Work that is about to go on has left the work that waits. -/
theorem Clocks.taken_task (hr : t.Clocks n r) (hnumbers : r.Numbered)
    (htask : t.tasks[index]? = some task) {x : Schedule.Running Job} (hx : x ∈ r.running)
    (hplace : ongoing? n task = some x.place) :
    (t.taken (.task index task)).Clocks n (r.finish x) := by
  refine ⟨hr.schedule, ?_⟩
  obtain ⟨hindex, rfl⟩ := List.getElem?_eq_some_iff.1 htask
  have hsplit := hr.running
  rw [← List.take_append_drop index t.tasks, List.drop_eq_getElem_cons hindex,
    List.filterMap_append, List.filterMap_cons_some hplace] at hsplit
  obtain ⟨before, rest, heq, hbefore, hrest⟩ := List.map_eq_append_iff.1 hsplit
  obtain ⟨y, after, rfl, hy, hafter⟩ := List.map_eq_cons_iff.1 hrest
  have hnodup := hnumbers.running_nodup
  have hsame : y = x := eq_of_number Schedule.Running.number hnodup (by simp [heq]) hx
    (congrArg Prod.snd (toLex_inj.1 hy))
  subst hsame
  rw [heq] at hnodup
  obtain ⟨-, hlate, hearly⟩ := List.pairwise_append.1 hnodup
  have hkept : (r.running.filter fun z => z.number ≠ y.number) = before ++ after := by
    rw [heq, List.filter_append, List.filter_cons_of_neg (by simp)]
    congr 1
    · exact List.filter_eq_self.2 fun z hz => by simpa using hearly z hz y List.mem_cons_self
    · refine List.filter_eq_self.2 fun z hz => ?_
      simpa using ((List.pairwise_cons.1 hlate).1 z hz).symm
  have htasks : (t.taken (.task index t.tasks[index])).tasks = t.tasks.eraseIdx index := rfl
  rw [htasks, List.eraseIdx_eq_take_drop_succ, List.filterMap_append, Schedule.Run.finish, hkept,
    List.map_append, hbefore, hafter]

/-- What a program leaves to the clock of its hub when it is finished. -/
theorem Clocks.resume_done (hr : t.Clocks n r) (hn : n < t.hubs.length) (number : Nat)
    {world : World σ ρ} {p : Program (Option (Nat × ρ))} {state : σ} {h : Hub}
    {value : Option (Nat × ρ)}
    (hrun : p.run world t.now t.state (t.checkOut n) = (state, h, .done value)) :
    (t.resume world n (some number) p).Clocks n { r with schedule := h.schedule } := by
  unfold resume
  rw [hrun]
  cases value with
  | none => exact ⟨(scheduleOf_checkIn (t := { t with state }) hn h).symm, hr.running⟩
  | some told => exact ⟨(scheduleOf_checkIn hn h).symm, hr.running⟩

/-- What a program leaves to the clock of its hub when it waits. -/
theorem Clocks.resume_paused (hr : t.Clocks n r) (hn : n < t.hubs.length) (number : Nat)
    {world : World σ ρ} {p : Program (Option (Nat × ρ))} {state : σ} {h : Hub} {due : Nat}
    {rest : Paused (Option (Nat × ρ))}
    (hrun : p.run world t.now t.state (t.checkOut n) = (state, h, .paused due rest)) (job : Job) :
    (t.resume world n (some number) p).Clocks n
      { r with
        schedule := h.schedule.fresh.2
        running := r.running ++ [⟨h.schedule.nextNumber, due, job⟩] } := by
  unfold resume
  rw [hrun]
  refine ⟨(scheduleOf_checkIn hn { h with schedule := h.schedule.fresh.2 }).symm, ?_⟩
  dsimp only
  rw [List.map_append, List.filterMap_append, hr.running]
  simp [ongoing?, Schedule.fresh, Schedule.Running.place]

/-- A job that leaves the schedule alone until it first waits makes of the timeline what its start
makes of the clock of its hub, where it takes as long as it waits. -/
theorem Clocks.proceed_job (hr : t.Clocks n r) (hnumbers : r.Numbered)
    (h : t.first? = some (.job n w)) (htime : t.now ≤ w.due) {world : World σ ρ} {state : σ}
    {left : Hub} {stop : Stop (Option (Nat × ρ))}
    (hrun : (jobProgram w.job).run world w.due t.state ((t.taken (.job n w)).checkOut n) =
      (state, left, stop))
    (hschedule : left.schedule = (t.taken (.job n w)).scheduleOf n) :
    r.step? (fun _ => stop.lasts w.due) w.due = some (r.start (fun _ => stop.lasts w.due) w) ∧
      (t.proceed world (.job n w)).Clocks n (r.start (fun _ => stop.lasts w.due) w) := by
  obtain ⟨i, hi, -⟩ := job_mem_candidates.1 (first?_some h).1
  obtain ⟨hn, -⟩ := List.getElem?_eq_some_iff.1 hi
  refine ⟨(hr.step?_job hnumbers h (Nat.le_refl _)).2, ?_⟩
  have hbegan := hr.taken_job hn w
  have hhubs : n < (t.taken (.job n w)).hubs.length := by simpa [taken, checkIn] using hn
  have hnow : (t.taken (.job n w)).now = w.due := Nat.max_eq_right htime
  rw [← hnow] at hrun
  have hsame : r.schedule.remove w.number = left.schedule :=
    hbegan.schedule.trans hschedule.symm
  cases stop with
  | done value =>
    have hend := hbegan.resume_done hhubs w.number hrun
    rw [← hsame] at hend
    exact ⟨hend.schedule, hend.running⟩
  | paused due rest =>
    have hlate : w.due < due := hnow ▸ Program.lt_of_paused hrun
    have hend := hbegan.resume_paused hhubs w.number hrun w.job
    have hlasts : (Stop.paused due rest).lasts w.due ≠ 0 := Nat.sub_ne_zero_of_lt hlate
    rw [← hsame] at hend
    unfold Schedule.Run.start
    rw [if_neg hlasts, Stop.lasts, Nat.add_sub_of_le hlate.le]
    exact ⟨hend.schedule, hend.running⟩

theorem proceed_task (t : Timeline σ ρ) (world : World σ ρ) (index : Nat) (task : Task ρ) :
    t.proceed world (.task index task) = (t.taken (.task index task)).resume world task.hub
      task.number (task.paused.resumed world t.state) := by
  obtain ⟨due, number, hub, paused⟩ := task
  cases paused <;> rfl

/-- Work that a job left, and that leaves the schedule alone until it is finished, makes of the
timeline what the end of the job makes of the clock of its hub. -/
theorem Clocks.proceed_task (hr : t.Clocks n r) (hnumbers : r.Numbered)
    (h : t.first? = some (.task index task)) (hhub : task.hub = n) (hn : n < t.hubs.length)
    (hnumber : task.number = some number) (htime : t.now ≤ task.due) {world : World σ ρ} {state : σ}
    {left : Hub} {value : Option (Nat × ρ)}
    (hrun : (task.paused.resumed world t.state).run world task.due t.state (t.checkOut n) =
      (state, left, .done value))
    (hschedule : left.schedule = t.scheduleOf n) :
    ∃ x ∈ r.running, r.step? duration task.due = some (r.finish x) ∧
      (t.proceed world (.task index task)).Clocks n (r.finish x) := by
  obtain ⟨x, hx, hplace, hstep⟩ := hr.step?_task hnumbers h hhub hnumber (Nat.le_refl _)
  refine ⟨x, hx, hstep, ?_⟩
  have hongoing : ongoing? n task = some x.place := by
    rw [ongoing?_of_number hhub hnumber, hplace]
  have htask := task_mem_candidates.1 (first?_some h).1
  have hnow : (t.taken (.task index task)).now = task.due := Nat.max_eq_right htime
  rw [← hnow] at hrun
  have hend := (hr.taken_task hnumbers htask hx hongoing).resume_done hn number hrun
  have hsame : (r.finish x).schedule = left.schedule := hr.schedule.trans hschedule.symm
  rw [← hsame] at hend
  rw [Timeline.proceed_task, hhub, hnumber]
  exact ⟨hend.schedule, hend.running⟩

end Timeline

end Jukebox
