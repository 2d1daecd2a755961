import Mathlib.Data.List.Perm.Basic
import Jukebox.Proofs.Waiting
import Jukebox.Proofs.Handover

/-!
# One preload at a time

As long as no player goes or comes back and nothing is shut down, a queue holds a claim exactly
while a job that hands over its next item waits or runs, and there is never more than one such job
(`Session.Claimed`). The one job that runs sees the mark of its queue before it calls the player,
and nobody else sets that mark; so no item is handed over twice without the mark being taken off it
in between.
-/

namespace Jukebox

namespace Activity

/-- The queue whose next item an activity hands over. -/
def preloads? (a : Activity) : Option String := a.job.bind Job.preloads?

/-- Whether an activity goes on as it is to: a hand-over stop by stop, all else as a command. -/
def Conducts (h : Hub) (a : Activity) : Prop :=
  match a.preloads? with
  | some queueId => ∃ p, Command.Handing queueId h p ∧ a.program = Command.untilEnd queueId p
  | none => a.program.Yields .command (fun _ => True) none

variable {h h' : Hub} {a : Activity} {program : Program (Except Failure Unit)}

theorem conducts_command (hjob : a.preloads? = none) :
    Conducts h { a with program } ↔ program.Yields .command (fun _ => True) none := by
  unfold Conducts
  rw [show preloads? { a with program } = none from hjob]

theorem conducts_handing {queueId : String} (hjob : a.preloads? = some queueId) :
    Conducts h { a with program } ↔
      ∃ p, Command.Handing queueId h p ∧ program = Command.untilEnd queueId p := by
  unfold Conducts
  rw [show preloads? { a with program } = some queueId from hjob]

theorem Conducts.fades (ha : a.Conducts h)
    (hfades : ∀ queueId, a.preloads? = some queueId → Hub.Fades queueId h h') : a.Conducts h' := by
  cases hjob : a.preloads? with
  | none => exact (conducts_command hjob).2 ((conducts_command hjob).1 ha)
  | some queueId =>
    obtain ⟨p, hp, hprogram⟩ := (conducts_handing hjob).1 ha
    exact (conducts_handing hjob).2 ⟨p, hp.fades (hfades queueId hjob), hprogram⟩

theorem conducts_start (job : Job) (h : Hub) : Conducts h ⟨some job, job.command.run⟩ := by
  have hcommand := fun hother => (job.command_obeys hother).yields_run
  cases job with
  | preload queueId itemId => exact Command.handing_preload h itemId
  | _ => exact hcommand fun _ _ hjob => nomatch hjob

end Activity

/-! ## Jobs that wait and jobs that run -/

namespace Schedule

variable {s : Schedule Job}

/-- The jobs without one of them. -/
theorem Orderly.perm_remove (hs : s.Orderly) {w : Waiting Job} (hw : w ∈ s.waiting) :
    s.waiting.Perm (w :: (s.remove w.number).waiting) :=
  perm_cons_filter_ne Waiting.number hs.nodup hw

theorem length_preloads_remove (hs : s.Orderly) {w : Waiting Job} (hw : w ∈ s.waiting)
    (queueId : String) :
    (s.preloads queueId).length =
      ((s.remove w.number).preloads queueId).length +
        if w.job.preloads? = some queueId then 1 else 0 := by
  unfold preloads
  rw [← List.countP_eq_length_filter, ← List.countP_eq_length_filter,
    (hs.perm_remove hw).countP_eq, List.countP_cons]
  simp

end Schedule

namespace Session

/-- The number of activities that hand over the next item of a queue. -/
def running (active : List Activity) (queueId : String) : Nat :=
  active.countP fun a => a.preloads? = some queueId

/-- The number of jobs, waiting or running, that hand over the next item of a queue. -/
def preloads (s : Session) (queueId : String) : Nat :=
  (s.hub.schedule.preloads queueId).length + running s.active queueId

variable {active : List Activity} {index : Nat} {a b : Activity} {queueId : String}

theorem running_cons (a : Activity) (active : List Activity) (queueId : String) :
    running (a :: active) queueId =
      running active queueId + if a.preloads? = some queueId then 1 else 0 := by
  simp [running, List.countP_cons]

theorem running_perm {other : List Activity} (hperm : active.Perm other) (queueId : String) :
    running active queueId = running other queueId :=
  hperm.countP_eq _

theorem running_append (active : List Activity) (a : Activity) (queueId : String) :
    running (active ++ [a]) queueId =
      running active queueId + if a.preloads? = some queueId then 1 else 0 := by
  rw [running_perm List.perm_append_comm, ← running_cons]
  rfl

theorem running_eraseIdx (ha : active[index]? = some a) (queueId : String) :
    running active queueId =
      running (active.eraseIdx index) queueId + if a.preloads? = some queueId then 1 else 0 := by
  obtain ⟨hindex, rfl⟩ := List.getElem?_eq_some_iff.1 ha
  rw [running_perm (List.getElem_cons_eraseIdx_perm hindex).symm, running_cons]

/-- An activity that goes on is still there, and one that is done is gone. -/
theorem running_replace (ha : active[index]? = some a) (program : Program (Except Failure Unit))
    (queueId : String) :
    running (replace active index { a with program }) queueId +
        (if program.isDone ∧ a.preloads? = some queueId then 1 else 0) =
      running active queueId := by
  obtain ⟨hindex, -⟩ := List.getElem?_eq_some_iff.1 ha
  rw [running_eraseIdx ha]
  unfold replace
  cases hdone : program.isDone with
  | true => simp
  | false =>
    rw [if_neg (by simp), running_perm (List.set_perm_cons_eraseIdx hindex _), running_cons]
    rfl

theorem mem_or_mem_eraseIdx (ha : active[index]? = some a) (hb : b ∈ active) :
    b = a ∨ b ∈ active.eraseIdx index := by
  obtain ⟨hindex, rfl⟩ := List.getElem?_eq_some_iff.1 ha
  exact List.mem_cons.1 ((List.getElem_cons_eraseIdx_perm hindex).mem_iff.2 hb)

theorem mem_replace_self (ha : active[index]? = some a) (hgoing : b.program.isDone = false) :
    b ∈ replace active index b := by
  obtain ⟨hindex, -⟩ := List.getElem?_eq_some_iff.1 ha
  simp only [replace, hgoing, Bool.false_eq_true, if_false]
  exact List.mem_set hindex b

theorem mem_replace_of_mem_eraseIdx (hb : b ∈ active.eraseIdx index) (a : Activity) :
    b ∈ replace active index a := by
  unfold replace
  split
  · exact hb
  · obtain ⟨other, hother, hget⟩ := List.mem_eraseIdx_iff_getElem?.1 hb
    refine List.mem_iff_getElem?.2 ⟨other, ?_⟩
    rw [List.getElem?_set_ne hother.symm, hget]

/-! ## Sessions without players that go -/

/-- Whether no player goes or comes back by a move, and nothing is shut down. -/
def isSteadyMove (s : Session) : Move → Bool
  | .register r => !s.hub.contains r.playerId
  | .remove _ => false
  | .ask .shutdown => false
  | _ => true

/-- Whether no player ever goes or comes back in a run, and nothing is shut down. -/
def isSteady (s : Session) : List (Outside × Move) → Bool
  | [] => true
  | m :: more => s.isSteadyMove m.2 && (s.step m.1 m.2).isSteady more

theorem isSteady_append (s : Session) (before after : List (Outside × Move)) :
    s.isSteady (before ++ after) = (s.isSteady before && (s.run before).isSteady after) := by
  induction before generalizing s with
  | nil => rfl
  | cons m more ih =>
    have hrun : s.run (m :: more) = (s.step m.1 m.2).run more := rfl
    simp only [List.cons_append, isSteady, ih, hrun, Bool.and_assoc]

variable {s : Session} {moves : List (Outside × Move)}

theorem isSteady_take (hsteady : s.isSteady moves) (n : Nat) : s.isSteady (moves.take n) := by
  rw [← List.take_append_drop n moves, isSteady_append, Bool.and_eq_true] at hsteady
  exact hsteady.1

/-- Every move of a steady run is steady where it is made. -/
theorem isSteadyMove_of_isSteady (hsteady : s.isSteady moves) {n : Nat} {o : Outside} {move : Move}
    (hmove : moves[n]? = some (o, move)) : (s.run (moves.take n)).isSteadyMove move := by
  have hnext := isSteady_take hsteady (n + 1)
  rw [List.take_add_one, hmove, Option.toList_some, isSteady_append, Bool.and_eq_true] at hnext
  simpa [isSteady] using hnext.2

/-! ## One stop -/

/-- What a stop of an activity leaves alone: the claims and the jobs of all queues but its own, of
which it leaves the jobs, and the claim until it is done. -/
structure GoesOn (h : Hub) (a : Activity) (program : Program (Except Failure Unit)) (h' : Hub) :
    Prop where
  named : h'.Named
  orderly : h'.schedule.Orderly
  conduct : program.isDone = false → Activity.Conducts h' { a with program }
  others : ∀ queueId, a.preloads? ≠ some queueId → Hub.Spares queueId h h'
  own : ∀ queueId, a.preloads? = some queueId →
    h'.schedule.preloads queueId = h.schedule.preloads queueId ∧
      h'.preloading? queueId = if program.isDone then none else h.preloading? queueId

section

variable {h h' : Hub} {o : Outside} (hnamed : h.Named) (horderly : h.schedule.Orderly)

include hnamed horderly

theorem spares_of_act
    (hhub : h' = h ∨ ∃ act : Act, act.ByCommand ∧ h' = act.apply o h) :
    h'.Named ∧ h'.schedule.Orderly ∧ ∀ queueId, Hub.Spares queueId h h' := by
  rcases hhub with rfl | ⟨act, hact, rfl⟩
  · exact ⟨hnamed, horderly, fun queueId => .of_eq rfl rfl⟩
  · exact ⟨hnamed.apply o act, Hub.orderly_apply o horderly hnamed act,
      fun queueId => Hub.spares_apply o hnamed horderly hact queueId⟩

/-- An activity of a command, or of a job that hands over nothing. -/
theorem goesOn_command (hjob : a.preloads? = none) (ha : a.Conducts h) (o : Outside)
    (answers : Answers) :
    GoesOn h a (a.program.advance o answers h).1 (a.program.advance o answers h).2 := by
  obtain ⟨hnext, hhub⟩ := ((Activity.conducts_command hjob).1 ha).advance o answers h
  obtain ⟨hnamed', horderly', hspares⟩ := spares_of_act hnamed horderly <| hhub.imp_right <| by
    rintro ⟨act, hact | rfl, heq⟩
    · exact ⟨act, hact, heq⟩
    · exact ⟨.takeTurn, trivial, heq⟩
  refine ⟨hnamed', horderly', fun _ => ?_, fun queueId _ => hspares queueId, ?_⟩
  · exact (Activity.conducts_command hjob).2 hnext
  · intro queueId hown
    rw [hjob] at hown
    cases hown

/-- A job that hands over an item, until the hand-over is done. -/
theorem goesOn_handing (hjob : a.preloads? = some queueId) {p : Program (Except Failure Unit)}
    (hp : Command.Handing queueId h p) (hprogram : a.program = Command.untilEnd queueId p)
    (o : Outside) (answers : Answers) :
    GoesOn h a (a.program.advance o answers h).1 (a.program.advance o answers h).2 := by
  have hconducts : ∀ {h' : Hub} {p' : Program (Except Failure Unit)},
      Command.Handing queueId h' p' →
        Activity.Conducts h' { a with program := Command.untilEnd queueId p' } := by
    intro h' p' hp'
    exact (Activity.conducts_handing hjob).2 ⟨p', hp', rfl⟩
  have hother : ∀ {other}, a.preloads? ≠ some other → other ≠ queueId :=
    fun hne hsame => hne (by rw [hjob, hsame])
  have hsame : ∀ {other}, a.preloads? = some other → other = queueId :=
    fun heq => Option.some.inj (heq.symm.trans hjob)
  have hmodify : ∀ change, Hub.Named ((Act.modify queueId change).apply o h) ∧
      (Hub.schedule ((Act.modify queueId change).apply o h)).Orderly := fun change =>
    ⟨hnamed.apply o _, Hub.orderly_apply o horderly hnamed _⟩
  rw [hprogram]
  cases hdone : p.isDone with
  | true =>
    cases p with
    | done result =>
      rw [Command.advance_endClaim]
      refine ⟨(hmodify _).1, (hmodify _).2, (fun hgoing => nomatch hgoing), ?_, ?_⟩
      · exact fun other hne => Hub.spares_modify o (hother hne) .release
      · intro other heq
        rw [hsame heq]
        exact ⟨by simp [Act.apply], Hub.preloading?_release o⟩
    | _ => cases hdone
  | false =>
    rw [Command.advance_untilEnd hdone]
    obtain ⟨hnext, hhub⟩ := hp.advance hdone o answers
    have hgoing := Command.isDone_untilEnd queueId (p.advance o answers h).1
    rcases hhub with hquiet | ⟨itemId, hhand⟩
    · obtain ⟨hnamed', horderly', hspares⟩ := spares_of_act hnamed horderly hquiet
      refine ⟨hnamed', horderly', fun _ => hconducts hnext, fun other _ => hspares other, ?_⟩
      intro other _
      rw [hgoing]
      exact ⟨(hspares other).jobs, (hspares other).claim⟩
    · dsimp only
      rw [hhand] at hnext ⊢
      refine ⟨(hmodify _).1, (hmodify _).2, fun _ => hconducts hnext, ?_, ?_⟩
      · exact fun other hne => Hub.spares_modify o (hother hne) (.handOver itemId)
      · intro other heq
        rw [hsame heq, hgoing]
        exact ⟨by simp [Act.apply], Hub.preloading?_handOver o itemId⟩

/-- Every activity goes on as it is to. -/
theorem goesOn_advance (ha : a.Conducts h) (o : Outside) (answers : Answers) :
    GoesOn h a (a.program.advance o answers h).1 (a.program.advance o answers h).2 := by
  cases hjob : a.preloads? with
  | none => exact goesOn_command hnamed horderly hjob ha o answers
  | some queueId =>
    obtain ⟨p, hp, hprogram⟩ := (Activity.conducts_handing hjob).1 ha
    exact goesOn_handing hnamed horderly hjob hp hprogram o answers

end

/-! ## The invariant -/

/-- Every activity goes on as it is to, and a queue holds a claim exactly while a job that hands
over its next item waits or runs; then there is one such job. -/
structure Claimed (s : Session) : Prop where
  named : s.hub.Named
  orderly : s.hub.schedule.Orderly
  conduct : ∀ a ∈ s.active, a.Conducts s.hub
  claims : ∀ queueId, s.preloads queueId = if (s.hub.preloading? queueId).isSome then 1 else 0

theorem claimed_start (config : Config) (store : Store) (draws : Draws) (nextItem : Nat) :
    (start config store draws nextItem).Claimed where
  named _ _ he := nomatch he
  orderly := orderly_run config store draws nextItem []
  conduct _ ha := nomatch ha
  claims _ := rfl

namespace Claimed

variable (hs : s.Claimed)

include hs

theorem preloads_le_one (queueId : String) : s.preloads queueId ≤ 1 := by
  rw [hs.claims]
  split <;> omega

theorem running_le_one (queueId : String) : running s.active queueId ≤ 1 :=
  Nat.le_trans (Nat.le_add_left _ _) (hs.preloads_le_one queueId)

/-- Two activities never hand over the next item of one queue. -/
theorem unique (ha : s.active[index]? = some a) (hb : b ∈ s.active.eraseIdx index)
    (hjob : a.preloads? = some queueId) : b.preloads? ≠ some queueId := by
  have hone := hs.running_le_one queueId
  rw [running_eraseIdx ha, if_pos hjob] at hone
  have hzero : running (s.active.eraseIdx index) queueId = 0 := by omega
  simpa using List.countP_eq_zero.1 hzero b hb

theorem spared {h : Hub} (hnamed : h.Named) (horderly : h.schedule.Orderly)
    (hspares : ∀ queueId, Hub.Spares queueId s.hub h) : Claimed { s with hub := h } where
  named := hnamed
  orderly := horderly
  conduct a ha := (hs.conduct a ha).fades fun queueId _ => (hspares queueId).fades
  claims queueId := by
    have hbefore := hs.claims queueId
    unfold preloads at hbefore ⊢
    rw [(hspares queueId).claim, (hspares queueId).jobs]
    exact hbefore

theorem report (o : Outside) (r : PlayerReport) :
    Claimed { s with hub := s.hub.onReport o r } where
  named := hs.named.apply o (.report r)
  orderly := Hub.orderly_onReport o hs.orderly hs.named r
  conduct a ha := (hs.conduct a ha).fades fun queueId _ =>
    Hub.fades_onReport o hs.named r queueId
  claims queueId := by
    have hbefore := hs.claims queueId
    unfold preloads at hbefore ⊢
    rcases Hub.claims_onReport o hs.named hs.orderly r queueId with
      ⟨hclaim, hjobs⟩ | ⟨hnone, hsome, hone⟩
    · rw [hclaim, hjobs]
      exact hbefore
    · rw [hnone, if_neg (by simp)] at hbefore
      have hidle : running s.active queueId = 0 := by omega
      rw [if_pos hsome, hone, hidle]

/-- A new player comes without a claim. -/
theorem register (o : Outside) {r : PlayerReport} (hnew : s.hub.contains r.playerId = false) :
    Claimed { s with hub := (s.hub.onRegister o r).2 } := by
  have hunknown : s.hub.entry? r.playerId = none := by simpa [Hub.contains] using hnew
  have hentry := fun other => s.hub.entry?_putEntry r.playerId other (s.hub.newEntry o r)
  have hput : Claimed { s with hub := s.hub.putEntry r.playerId (s.hub.newEntry o r) } := by
    refine ⟨hs.named.putEntry (Hub.belong_iff.1 (Hub.belong_newEntry o r)).1, hs.orderly, ?_, ?_⟩
    · intro a ha
      refine (hs.conduct a ha).fades fun queueId _ hknown => ?_
      have hq : queueId ≠ r.playerId := by
        rintro rfl
        rw [hnew] at hknown
        cases hknown
      exact Hub.Fades.of_eq ((hentry queueId).trans (if_neg hq)) hknown
    · intro queueId
      have hbefore := hs.claims queueId
      by_cases hq : queueId = r.playerId
      · have hafter := (hentry queueId).trans (if_pos hq)
        rw [hq, Hub.preloading?_of_unknown hunknown] at hbefore
        rw [Hub.preloading?_of_entry hafter, Hub.preloading_newEntry, hq]
        exact hbefore
      · have hspares := Hub.Spares.of_eq ((hentry queueId).trans (if_neg hq)) rfl
        rw [hspares.claim]
        exact hbefore
  have hreport := hput.report o r
  exact hreport.spared hreport.named hreport.orderly fun queueId => .of_eq rfl rfl

/-- What was asked for goes on as a command. -/
theorem ask {request : Request} (hup : request ≠ .shutdown) :
    Claimed { s with active := s.active ++ [⟨none, request.command.run⟩] } where
  named := hs.named
  orderly := hs.orderly
  conduct a ha := by
    rcases List.mem_append.1 ha with ha | ha
    · exact hs.conduct a ha
    · rw [List.mem_singleton.1 ha]
      exact (request.command_obeys hup).yields_run
  claims queueId := by
    have hbefore := hs.claims queueId
    unfold preloads at hbefore ⊢
    rw [running_append]
    exact hbefore

/-- A job that starts no longer waits. -/
theorem start {w : Waiting Job} (hw : w ∈ s.hub.schedule.waiting) :
    Claimed
      { hub := { s.hub with schedule := s.hub.schedule.remove w.number }
        active := s.active ++ [⟨some w.job, w.job.command.run⟩] } where
  named := hs.named
  orderly := hs.orderly.filter _
  conduct a ha := by
    rcases List.mem_append.1 ha with ha | ha
    · exact (hs.conduct a ha).fades fun queueId _ => .of_eq rfl
    · rw [List.mem_singleton.1 ha]
      exact Activity.conducts_start w.job _
  claims queueId := by
    have hbefore := hs.claims queueId
    unfold preloads at hbefore ⊢
    rw [Schedule.length_preloads_remove hs.orderly hw] at hbefore
    have hjob : Activity.preloads? ⟨some w.job, w.job.command.run⟩ = w.job.preloads? := rfl
    rw [running_append, hjob, Nat.add_comm (running _ _), ← Nat.add_assoc]
    exact hbefore

theorem goOn (ha : s.active[index]? = some a) {program : Program (Except Failure Unit)} {h : Hub}
    (hgoes : GoesOn s.hub a program h) :
    Claimed { hub := h, active := replace s.active index { a with program } } where
  named := hgoes.named
  orderly := hgoes.orderly
  conduct b hb := by
    rcases mem_replace hb with hb | ⟨hgoing, rfl⟩
    · refine (hs.conduct b (List.mem_of_mem_eraseIdx hb)).fades fun queueId hjob => ?_
      exact (hgoes.others queueId fun hsame => hs.unique ha hb hsame hjob).fades
    · exact hgoes.conduct hgoing
  claims queueId := by
    have hbefore := hs.claims queueId
    have hrunning := running_replace ha program queueId
    unfold preloads at hbefore ⊢
    by_cases hjob : a.preloads? = some queueId
    · obtain ⟨hjobs, hclaim⟩ := hgoes.own queueId hjob
      rw [hclaim, hjobs]
      cases hdone : program.isDone with
      | true =>
        rw [hdone, if_pos ⟨rfl, hjob⟩] at hrunning
        have hle := hs.preloads_le_one queueId
        unfold preloads at hle
        show (s.hub.schedule.preloads queueId).length +
          running (replace s.active index { a with program }) queueId = 0
        omega
      | false =>
        rw [hdone, if_neg (by simp), Nat.add_zero] at hrunning
        rw [hrunning]
        exact hbefore
    · rw [if_neg fun hboth => hjob hboth.2, Nat.add_zero] at hrunning
      rw [(hgoes.others queueId hjob).claim, (hgoes.others queueId hjob).jobs, hrunning]
      exact hbefore

/-- A step at which no player goes or comes back and nothing is shut down keeps the invariant. -/
theorem step {move : Move} (hsteady : s.isSteadyMove move) (o : Outside) :
    (s.step o move).Claimed := by
  cases move with
  | report r => exact hs.report o r
  | register r => exact hs.register o (by simpa [isSteadyMove] using hsteady)
  | remove playerId => cases hsteady
  | ask request =>
    refine hs.ask ?_
    rintro rfl
    cases hsteady
  | start number =>
    cases hw : s.waiting? number with
    | none =>
      simp only [Session.step, hw]
      exact hs
    | some w =>
      simp only [Session.step, hw]
      have hnumber : w.number = number := by simpa using List.find?_some hw
      rw [← hnumber]
      exact hs.start (List.mem_of_find?_eq_some hw)
  | proceed index answers =>
    cases ha : s.active[index]? with
    | none =>
      simp only [Session.step, ha]
      exact hs
    | some a =>
      simp only [Session.step, ha]
      exact hs.goOn ha (goesOn_advance hs.named hs.orderly (hs.conduct a (List.mem_of_getElem? ha))
        o answers)

theorem run {moves : List (Outside × Move)} (hsteady : s.isSteady moves) :
    (s.run moves).Claimed := by
  induction moves generalizing s with
  | nil => exact hs
  | cons m more ih =>
    simp only [isSteady, Bool.and_eq_true] at hsteady
    exact ih (hs.step hsteady.1 m.1) hsteady.2

end Claimed

/-! ## Hand-overs -/

/-- What holds at one time and not at a later one stops holding at some time. -/
theorem exists_change {P : Nat → Prop} {k j : Nat} (hkj : k ≤ j) (hk : P k) (hj : ¬ P j) :
    ∃ m, k ≤ m ∧ m < j ∧ P m ∧ ¬ P (m + 1) := by
  induction hkj with
  | refl => exact absurd hk hj
  | @step j hkj ih =>
    by_cases hlast : P j
    · exact ⟨j, hkj, Nat.lt_succ_self j, hlast, hj⟩
    · obtain ⟨m, hkm, hmj, hm⟩ := ih hlast
      exact ⟨m, hkm, Nat.lt_succ_of_lt hmj, hm⟩

/-- Whether a move is the answer of a player that it took an item of a queue to go on with. -/
def handsOver (s : Session) (queueId itemId : String) : Move → Bool
  | .proceed index answers =>
    match s.active[index]? with
    | some ⟨_, .call (.enqueueNext target media) _⟩ =>
      target = queueId && media.queueItemId = some itemId &&
        (answers (.enqueueNext target media)).isOk
    | _ => false
  | _ => false

/-- Whether an item is handed over by the move of a number in a run. -/
def handsOverAt (s : Session) (moves : List (Outside × Move)) (n : Nat)
    (queueId itemId : String) : Bool :=
  (moves[n]?).any fun m => (s.run (moves.take n)).handsOver queueId itemId m.2

theorem exists_of_handsOver {move : Move} {itemId : String}
    (hmove : s.handsOver queueId itemId move) :
    ∃ (index : Nat) (answers : Answers) (a : Activity) (media : PlayerMedia)
      (next : Call.Reply (.enqueueNext queueId media) → Program (Except Failure Unit)),
      move = .proceed index answers ∧ s.active[index]? = some a ∧
        a.program = .call (.enqueueNext queueId media) next ∧
        media.queueItemId = some itemId ∧
        ∃ answer, answers (.enqueueNext queueId media) = .ok answer := by
  cases move with
  | proceed index answers =>
    simp only [handsOver] at hmove
    split at hmove
    · next job target media next ha =>
      simp only [Bool.and_eq_true, decide_eq_true_eq] at hmove
      obtain ⟨⟨rfl, hmedia⟩, hok⟩ := hmove
      refine ⟨index, answers, _, media, next, rfl, ha, rfl, hmedia, ?_⟩
      cases hanswer : answers (.enqueueNext target media) with
      | ok answer => exact ⟨answer, rfl⟩
      | error failure =>
        rw [hanswer] at hok
        cases hok
    · cases hmove
  | _ => cases hmove

/-- Whether an item was handed over and is to be marked next. -/
def Owes (s : Session) (queueId itemId : String) : Prop :=
  s.hub.contains queueId ∧ ∃ a ∈ s.active, ∃ item : QueueItem, item.id = itemId ∧
    a.preloads? = some queueId ∧
    a.program = Command.untilEnd queueId (Command.markItem queueId item).run

namespace Claimed

variable (hs : s.Claimed) {itemId : String}

include hs

/-- Only a job of the queue hands an item over; the item is not marked then, and it is marked
next. -/
theorem of_handsOver {move : Move} (hmove : s.handsOver queueId itemId move) (o : Outside) :
    s.hub.Unmarked queueId itemId ∧ (s.step o move).Owes queueId itemId ∧
      ∀ other, ¬ s.Owes queueId other := by
  obtain ⟨index, answers, a, media, next, rfl, ha, hcall, hmedia, answer, hok⟩ :=
    exists_of_handsOver hmove
  have hconduct := hs.conduct a (List.mem_of_getElem? ha)
  cases hjob : a.preloads? with
  | none =>
    have hyields := (Activity.conducts_command hjob).1 hconduct
    rw [hcall] at hyields
    exact absurd trivial hyields.1
  | some target =>
    obtain ⟨p, hp, hprogram⟩ := (Activity.conducts_handing hjob).1 hconduct
    obtain ⟨rfl, item, hitem, hfresh, hnext⟩ := hp.of_call (hprogram.symm.trans hcall)
    obtain rfl : item.id = itemId := Option.some.inj (hitem.symm.trans hmedia)
    refine ⟨hfresh, ?_, ?_⟩
    · obtain ⟨b, hb⟩ : ∃ b : Activity, b =
          ⟨a.job, Command.untilEnd queueId (Command.markItem queueId item).run⟩ := ⟨_, rfl⟩
      have hstep : s.step o (.proceed index answers) =
          { hub := s.hub, active := replace s.active index b } := by
        simp only [Session.step, ha, hcall, Program.advance, hok, hnext, hb]
      rw [hstep]
      refine ⟨hfresh.1, b, mem_replace_self ha ?_, item, rfl, ?_, ?_⟩
      · rw [hb]
        rfl
      · rw [hb]
        exact hjob
      · rw [hb]
    · rintro other ⟨-, b, hb, item', -, hbjob, hbprogram⟩
      rcases mem_or_mem_eraseIdx ha hb with rfl | hb
      · rw [hbprogram] at hcall
        cases hcall
      · exact hs.unique ha hb hjob hbjob

/-- What is to be marked is marked at the next stop of its job, and by nothing else. -/
theorem owes_step {move : Move} (hsteady : s.isSteadyMove move) (o : Outside)
    (howes : s.Owes queueId itemId) :
    (s.step o move).Owes queueId itemId ∨
      (s.step o move).hub.marked? queueId = some itemId := by
  obtain ⟨hknown, a, ha, item, rfl, hjob, hprogram⟩ := howes
  have hkept : ∀ {h : Hub} {active : List Activity}, h.contains queueId → a ∈ active →
      Owes { hub := h, active } queueId item.id :=
    fun hknown ha => ⟨hknown, a, ha, item, rfl, hjob, hprogram⟩
  cases move with
  | report r => exact .inl (hkept (Hub.fades_onReport o hs.named r queueId hknown).1 ha)
  | register r =>
    refine .inl (hkept ?_ ha)
    have hentry := Hub.entry?_register (h := s.hub) o r queueId
    show Hub.contains ((Act.register r).apply o s.hub) queueId
    unfold Hub.contains
    rw [hentry]
    split
    · rfl
    · exact hknown
  | remove playerId => cases hsteady
  | ask request => exact .inl (hkept hknown (List.mem_append_left _ ha))
  | start number =>
    cases hw : s.waiting? number with
    | none =>
      simp only [Session.step, hw]
      exact .inl (hkept hknown ha)
    | some w =>
      simp only [Session.step, hw]
      exact .inl (hkept hknown (List.mem_append_left _ ha))
  | proceed index answers =>
    cases hb : s.active[index]? with
    | none =>
      simp only [Session.step, hb]
      exact .inl (hkept hknown ha)
    | some b =>
      simp only [Session.step, hb]
      rcases mem_or_mem_eraseIdx hb ha with rfl | hother
      · refine .inr ?_
        rw [hprogram, Command.advance_untilEnd rfl, Command.advance_markItem hknown]
        exact Hub.marked?_handOver o hknown item.id
      · have hgoes := goesOn_advance hs.named hs.orderly
          (hs.conduct b (List.mem_of_getElem? hb)) o answers
        have hne : b.preloads? ≠ some queueId := fun hsame => hs.unique hb hother hsame hjob
        exact .inl (hkept ((hgoes.others queueId hne).fades hknown).1
          (mem_replace_of_mem_eraseIdx hother _))

theorem owes_or_marked {moves : List (Outside × Move)} (hsteady : s.isSteady moves) {n : Nat}
    (howes : (s.run (moves.take n)).Owes queueId itemId) (steps : Nat) :
    (s.run (moves.take (n + steps))).Owes queueId itemId ∨
      ∃ k, n < k ∧ k ≤ n + steps ∧ (s.run (moves.take k)).hub.marked? queueId = some itemId := by
  induction steps with
  | zero => exact .inl howes
  | succ steps ih =>
    rcases ih with howes | ⟨k, hafter, hbefore, hmarked⟩
    · rw [← Nat.add_assoc]
      rcases hmove : moves[n + steps]? with _ | ⟨o, move⟩
      · rw [run_take_of_none s hmove]
        exact .inl howes
      · rw [run_take_succ s hmove]
        refine ((hs.run (isSteady_take hsteady _)).owes_step
          (isSteadyMove_of_isSteady hsteady hmove) o howes).imp_right fun hmarked => ?_
        refine ⟨n + steps + 1, by omega, Nat.le_refl _, ?_⟩
        rw [run_take_succ s hmove]
        exact hmarked
    · exact .inr ⟨k, hafter, Nat.le_succ_of_le hbefore, hmarked⟩

/-- Between two hand-overs of an item the mark is taken off it. -/
theorem mark_changes {moves : List (Outside × Move)} (hsteady : s.isSteady moves) {i j : Nat}
    (hij : i < j) (hi : s.handsOverAt moves i queueId itemId)
    (hj : s.handsOverAt moves j queueId itemId) :
    ∃ k, i < k ∧ k < j ∧ (s.run (moves.take k)).hub.marked? queueId = some itemId ∧
      (s.run (moves.take (k + 1))).hub.marked? queueId ≠ some itemId := by
  obtain ⟨⟨o, move⟩, hmove, hhands⟩ := (Option.any_eq_true _ _).1 hi
  obtain ⟨⟨o', move'⟩, hmove', hhands'⟩ := (Option.any_eq_true _ _).1 hj
  have howes := ((hs.run (isSteady_take hsteady i)).of_handsOver hhands o).2.1
  obtain ⟨hfresh, -, hnone⟩ := (hs.run (isSteady_take hsteady j)).of_handsOver hhands' o'
  rw [← run_take_succ s hmove] at howes
  obtain ⟨steps, rfl⟩ := Nat.exists_eq_add_of_le (Nat.succ_le_of_lt hij)
  rcases hs.owes_or_marked hsteady howes steps with hstill | ⟨k, hafter, hbefore, hmarked⟩
  · exact absurd hstill (hnone itemId)
  · obtain ⟨m, hkm, hmj, hlast, hchanged⟩ := exists_change
      (P := fun n => (s.run (moves.take n)).hub.marked? queueId = some itemId) hbefore hmarked
      hfresh.2
    exact ⟨m, by omega, hmj, hlast, hchanged⟩

end Claimed

end Session

/-- In a run in which no player goes or comes back and nothing is shut down, a queue holds a claim
exactly while a job that hands over its next item waits or runs, and there is never more than one
such job. Between two hand-overs of one item, the mark of the queue is changed from that item to
something else. -/
theorem one_preload_at_a_time (config : Config) (store : Store) (draws : Draws) (nextItem : Nat)
    {moves : List (Outside × Move)}
    (hsteady : (Session.start config store draws nextItem).isSteady moves) :
    let s := Session.start config store draws nextItem
    (∀ n queueId,
        (((s.run (moves.take n)).hub.preloading? queueId).isSome ↔
          0 < (s.run (moves.take n)).preloads queueId) ∧
        (s.run (moves.take n)).preloads queueId ≤ 1) ∧
      ∀ queueId itemId i j, i < j → s.handsOverAt moves i queueId itemId →
        s.handsOverAt moves j queueId itemId →
        ∃ k, i < k ∧ k < j ∧ (s.run (moves.take k)).hub.marked? queueId = some itemId ∧
          (s.run (moves.take (k + 1))).hub.marked? queueId ≠ some itemId := by
  intro s
  have hstart := Session.claimed_start config store draws nextItem
  constructor
  · intro n queueId
    have hclaimed := hstart.run (Session.isSteady_take hsteady n)
    refine ⟨?_, hclaimed.preloads_le_one queueId⟩
    rw [hclaimed.claims queueId]
    split
    · next hsome => exact iff_of_true hsome Nat.one_pos
    · next hnone => exact iff_of_false hnone (Nat.lt_irrefl 0)
  · intro queueId itemId i j hij hi hj
    exact hstart.mark_changes hsteady hij hi hj

/-- The second item is handed over, the list is changed, and it is handed over again. -/
def House.handOverTwice : List (Outside × Move) :=
  fill ["a", "b", "c"] ++ [(world, .report (playing "qi1" 100)), (world, .start 0)] ++ goOn ++
    request (.deleteItem "den" (.id "qi3")) ++
    [(world, .report (playing "qi1" 101)), (world, .start 1)] ++ goOn

/-- While the job for the second item runs, the queue holds a claim; and when the item is handed
over again, its mark was taken off it. -/
theorem one_preload_handOverTwice :
    House.session.isSteady House.handOverTwice ∧
      ((House.session.run (House.handOverTwice.take 24)).hub.preloading? "den").isSome ∧
      House.session.handsOverAt House.handOverTwice 33 "den" "qi2" ∧
      House.session.handsOverAt House.handOverTwice 76 "den" "qi2" ∧
      ∃ k, 33 < k ∧ k < 76 ∧
        (House.session.run (House.handOverTwice.take k)).hub.marked? "den" = some "qi2" ∧
        (House.session.run (House.handOverTwice.take (k + 1))).hub.marked? "den" ≠ some "qi2" := by
  have hsteady : House.session.isSteady House.handOverTwice := by decide +kernel
  have hrunning : 0 < (House.session.run (House.handOverTwice.take 24)).preloads "den" := by
    decide +kernel
  have hfirst : House.session.handsOverAt House.handOverTwice 33 "den" "qi2" := by decide +kernel
  have hsecond : House.session.handsOverAt House.handOverTwice 76 "den" "qi2" := by decide +kernel
  obtain ⟨hclaims, hmarks⟩ := one_preload_at_a_time {} {} default 1 hsteady
  exact ⟨hsteady, (hclaims 24 "den").1.2 hrunning, hfirst, hsecond,
    hmarks "den" "qi2" 33 76 (by decide) hfirst hsecond⟩

end Jukebox
