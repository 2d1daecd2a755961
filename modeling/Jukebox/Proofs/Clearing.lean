import Jukebox.Proofs.Configured
import Jukebox.Proofs.Labels

/-!
# Clearing queues that stay at their end

A report that finds a queue at its end schedules a job that looks at the queue a number of times and
clears it when it was at its end each time. The job does nothing else: of all its steps only the
last one changes anything (`Command.Checking.goOn`). It goes by the state and the position of the
queue and by what comes next, and not by the items. What was put into the list since the report is
dropped with the rest if the queue is at its end at the last look (`clear_takes_iff`), and so it is
when a single item is added to a finished queue (`clear_takes_requested`).
-/

namespace Jukebox

/-- Whether a queue is known and at its end. -/
def Hub.isAtEnd (h : Hub) (queueId : String) : Bool := (h.entry? queueId).any Entry.isAtEnd

/-- The queue that a job is to clear. -/
def Job.clears? : Job → Option String
  | clearCheck queueId => some queueId
  | _ => none

/-! ## The steps of the job -/

namespace Command

variable (queueId : String)

/-- A look at a queue, and the checks that follow when it is at its end. -/
def check (checks : Nat) : Command Unit := do
  match ← look fun _ h => h.entry? queueId with
  | none => pure ()
  | some e => if e.isAtEnd then clearCheck queueId checks else pure ()

/-- How far a job of a number of checks is after so many steps. Each check is waited for, and looks
at the queue after that. -/
inductive Checking (attempts : Nat) : Nat → Program (Except Failure Unit) → Prop
  | begins : Checking attempts 0 (Job.clearCheck queueId).command.run
  | sleeps {n : Nat} (hn : n < attempts) (ms : Nat) :
      Checking attempts (2 * n + 1) (.sleep ms (check queueId (attempts - (n + 1))).run)
  | looks {n : Nat} (hn : n < attempts) :
      Checking attempts (2 * n + 2) (check queueId (attempts - (n + 1))).run

variable {queueId} {attempts steps : Nat} {p : Program (Except Failure Unit)} {h : Hub}

theorem goOn_check (checks : Nat) (o : Outside) (answers : Answers) (h : Hub) :
    (check queueId checks).run.goOn o answers h =
      if h.isAtEnd queueId then (clearCheck queueId checks).run.onward o h
      else (.done (.ok ()), h) := by
  show ((match h.entry? queueId with
    | none => (pure () : Command Unit)
    | some e => if e.isAtEnd then clearCheck queueId checks else pure ()) : Command Unit).run.onward
      o h = _
  unfold Hub.isAtEnd
  cases h.entry? queueId with
  | none => rfl
  | some e =>
    show (if e.isAtEnd then clearCheck queueId checks else pure ()).run.onward o h =
      if e.isAtEnd then _ else _
    split <;> rfl

/-- The job goes on to the next check or is over. It clears the queue by its last step, if the queue
is at its end then, and leaves the hub as it is otherwise. -/
theorem Checking.goOn (hp : Checking queueId attempts steps p)
    (hattempts : h.config.timings.clearCheckAttempts = attempts) (o : Outside) (answers : Answers) :
    ((p.goOn o answers h).1.isDone ∨
        Checking queueId attempts (steps + 1) (p.goOn o answers h).1) ∧
      (p.goOn o answers h).2 =
        if steps = 2 * attempts ∧ (0 < attempts → h.isAtEnd queueId) then (h.clear o queueId).2
        else h := by
  cases hp with
  | begins =>
    have hgoes : (Job.clearCheck queueId).command.run.goOn o answers h =
        (clearCheck queueId attempts).run.onward o h := by
      rw [← hattempts]
      rfl
    rw [hgoes]
    cases attempts with
    | zero => exact ⟨.inl rfl, rfl⟩
    | succ n =>
      rw [if_neg (by omega)]
      exact ⟨.inr (.sleeps (Nat.succ_pos n) _), rfl⟩
  | @sleeps n hn ms =>
    refine ⟨.inr (.looks hn), ?_⟩
    rw [if_neg (by omega)]
    rfl
  | @looks n hn =>
    rw [goOn_check]
    cases hend : h.isAtEnd queueId with
    | false =>
      rw [if_neg (by simp), if_neg fun hlast => by simpa using hlast.2 (by omega)]
      exact ⟨.inl rfl, rfl⟩
    | true =>
      rw [if_pos rfl]
      cases hleft : attempts - (n + 1) with
      | zero =>
        rw [if_pos ⟨by omega, fun _ => rfl⟩]
        exact ⟨.inl rfl, rfl⟩
      | succ left =>
        rw [if_neg (by omega)]
        have hsleeps : Checking queueId attempts (2 * (n + 1) + 1) _ :=
          .sleeps (by omega) h.timings.clearCheckInterval
        rw [show attempts - (n + 1 + 1) = left by omega] at hsleeps
        exact ⟨.inr hsleeps, rfl⟩

end Command

namespace Session

/-- Whether a report schedules a job of a number that is to clear a queue at its end. -/
def SchedulesClear (s : Session) (moves : List (Outside × Move)) (n number : Nat)
    (queueId : String) : Prop :=
  (∃ m ∈ moves[n]?, ∃ r, m.2 = .report r) ∧
    (s.instants (moves.take n)).hub.schedule.nextNumber ≤ number ∧
      ((s.instants (moves.take (n + 1))).waiting? number).bind (·.job.clears?) = some queueId

/-- Whether a request of media for a queue puts an item into its list. -/
def PutsIn (s : Session) (moves : List (Outside × Move)) (n : Nat) (queueId itemId : String) :
    Prop :=
  (s.goer? moves n).map (·.origin) = some (.playMedia queueId) ∧
    ¬ s.Lists moves n queueId itemId ∧ s.Lists moves (n + 1) queueId itemId

/-- Whether a step of the job of a number takes an item out of the list of a queue. -/
def TakesOut (s : Session) (moves : List (Outside × Move)) (n number : Nat)
    (queueId itemId : String) : Prop :=
  (s.goer? moves n).map (·.origin) = some (.job number) ∧
    s.Lists moves n queueId itemId ∧ ¬ s.Lists moves (n + 1) queueId itemId

instance (s : Session) (moves : List (Outside × Move)) (n : Nat) (queueId itemId : String) :
    Decidable (s.PutsIn moves n queueId itemId) :=
  inferInstanceAs (Decidable (_ ∧ _))

instance (s : Session) (moves : List (Outside × Move)) (n number : Nat)
    (queueId itemId : String) : Decidable (s.TakesOut moves n number queueId itemId) :=
  inferInstanceAs (Decidable (_ ∧ _))

variable (config : Config) (store : Store) (draws : Draws) (nextItem : Nat)

theorem config_instants (moves : List (Outside × Move)) :
    ((start config store draws nextItem).instants moves).hub.config = config :=
  (kept_instants config store draws nextItem (I := fun h => h.config = config ∧ h.Named)
    (fun a o _ hinv => ⟨(Hub.config_apply o hinv.2 a).trans hinv.1, hinv.2.apply o a⟩)
    ⟨rfl, fun _ _ he => nomatch he⟩ moves).1

/-- In every state of a run, the steps that a job made tell how far it is in checking its queue. -/
theorem labelled_checking (moves : List (Outside × Move)) (n : Nat) :
    Labelled (fun label a => ∀ queueId, a.job = some (.clearCheck queueId) →
        Command.Checking queueId config.timings.clearCheckAttempts label.steps a.program)
      ((start config store draws nextItem).labels moves n)
      ((start config store draws nextItem).instants (moves.take n)).active := by
  refine labelled (P := fun _ label a => ∀ queueId, a.job = some (.clearCheck queueId) →
      Command.Checking queueId config.timings.clearCheckAttempts label.steps a.program) rfl
    (fun n o request _ queueId hjob => nomatch hjob)
    (fun n o number w _ _ queueId hjob => ?_) (fun _ _ _ h => h)
    (fun n o index answers label a _ _ _ h hgoing queueId hjob => ?_) n
  · have hclears : w.job = .clearCheck queueId := Option.some.inj hjob
    rw [hclears]
    exact .begins
  · have hconfig := config_instants config store draws nextItem (moves.take n)
    have hgoes := (h queueId hjob).goOn (congrArg (·.timings.clearCheckAttempts) hconfig) o answers
    exact hgoes.1.resolve_left (by simp [hgoing])

/-- The job that a report scheduled clears the queue by its last step, if the queue is at its end
then, and changes nothing by any other step. -/
theorem hub_of_clearJob {moves : List (Outside × Move)} {i k number : Nat} {queueId : String}
    (hreport : (start config store draws nextItem).SchedulesClear moves i number queueId)
    {label : Label} (hgoer : (start config store draws nextItem).goer? moves k = some label)
    (horigin : label.origin = .job number) :
    ∃ o, ((start config store draws nextItem).instants (moves.take (k + 1))).hub =
      let h := ((start config store draws nextItem).instants (moves.take k)).hub
      let attempts := config.timings.clearCheckAttempts
      if label.steps = 2 * attempts ∧ (0 < attempts → h.isAtEnd queueId) then (h.clear o queueId).2
      else h := by
  obtain ⟨w, hw, hclears⟩ := Option.bind_eq_some_iff.1 hreport.2.2
  have hjob : w.job = .clearCheck queueId := by
    generalize w.job = job at hclears
    cases job <;> cases hclears
    rfl
  have hnames := labelled_job config store draws nextItem hreport.2.1 hw k
  have hchecking := labelled_checking config store draws nextItem moves k
  obtain ⟨o, index, answers, a, hmove, hlabel, ha, hchecks⟩ := hchecking.of_goer hgoer
  have hthis : a.job = some (.clearCheck queueId) := by
    rw [hnames.holds index label a hlabel ha horigin, hjob]
  have hconfig := config_instants config store draws nextItem (moves.take k)
  refine ⟨o, (hub_of_proceed _ hmove ha).trans ?_⟩
  exact ((hchecks queueId hthis).goOn (congrArg (·.timings.clearCheckAttempts) hconfig) o answers).2

end Session

theorem Hub.ids_clear (h : Hub) (o : Outside) (queueId : String) :
    ids (Hub.items (h.clear o queueId).2 queueId) = [] := by
  unfold Hub.items
  rw [Hub.touches_clear o queueId, if_pos rfl]
  cases h.entry? queueId <;> rfl

/-- A report schedules a job that is to clear a queue at its end, and a request puts an item into
the list. A later step of the job takes the item out exactly if it is the last one, to which the job
comes when the queue was at its end at all checks before, if the queue is at its end then, and if
nobody else took the item out since. -/
theorem clear_takes_iff (config : Config) (store : Store) (draws : Draws) (nextItem : Nat)
    (moves : List (Outside × Move)) {queueId itemId : String} {i j k number : Nat} :
    let s := Session.start config store draws nextItem
    let attempts := config.timings.clearCheckAttempts
    s.SchedulesClear moves i number queueId → s.PutsIn moves j queueId itemId → j < k →
      (s.TakesOut moves k number queueId itemId ↔
        s.goer? moves k = some ⟨.job number, 2 * attempts⟩ ∧
          (0 < attempts → (s.instants (moves.take k)).hub.isAtEnd queueId) ∧
          ¬ s.Loses moves (j + 1) k queueId itemId) := by
  intro s attempts hreport hput hlater
  rw [← Session.lists_iff_not_loses hput.2.2 hlater]
  have hstep : ∀ label, s.goer? moves k = some label → label.origin = .job number → ∃ o, _ :=
    fun label => Session.hub_of_clearJob config store draws nextItem hreport
  constructor
  · rintro ⟨hjob, hlists, htaken⟩
    obtain ⟨⟨origin, steps⟩, hgoer, rfl⟩ := Option.map_eq_some_iff.1 hjob
    obtain ⟨o, hhub⟩ := hstep _ hgoer rfl
    dsimp only at hhub
    split at hhub
    · next hlast =>
      exact ⟨by rw [hgoer, hlast.1], hlast.2, hlists⟩
    · refine absurd ?_ htaken
      rw [Session.Lists, hhub]
      exact hlists
  · rintro ⟨hgoer, hend, hlists⟩
    obtain ⟨o, hhub⟩ := hstep _ hgoer rfl
    dsimp only at hhub
    rw [if_pos ⟨rfl, hend⟩] at hhub
    refine ⟨by rw [hgoer]; rfl, hlists, ?_⟩
    rw [Session.Lists, hhub, Hub.ids_clear]
    exact List.not_mem_nil

/-! ## A request for a queue that came to its end -/

/-- A queue ends with its second item, and a third one is added to it. The player does not play, and
the job that was scheduled at the end goes on to its last check. -/
def House.addAtEnd : List (Outside × Move) :=
  [(world, .register den),
    (world, .ask (.playMedia "den" [.item (track "a"), .item (track "b")] (some .add) false none)),
    (world, .proceed 0 answers), (world, .ask (.playIndex "den" (.index 1) 0 false false))] ++
    List.replicate 4 (world, .proceed 0 answers) ++
    [(world, .report (playing "qi2" 178)), (world, .report den),
      (world, .ask (.playMedia "den" [.item (track "c")] (some .add) false none)),
      (world, .proceed 0 answers), (world, .start 3)] ++
    List.replicate 11 (world, .proceed 0 answers)

theorem House.addAtEnd_schedulesClear : session.SchedulesClear addAtEnd 9 3 "den" :=
  ⟨⟨(world, .report den), rfl, den, rfl⟩, by decide +kernel, by decide +kernel⟩

/-- The item that was added is taken out: at the last check the queue is at its end, for it is idle
at its first and only item. -/
theorem added_item_at_end :
    let s := House.session
    s.SchedulesClear House.addAtEnd 9 3 "den" ∧ s.PutsIn House.addAtEnd 11 "den" "qi3" ∧
      (s.goer? House.addAtEnd 23 = some ⟨.job 3, 10⟩ ∧
        (0 < 5 → (s.instants (House.addAtEnd.take 23)).hub.isAtEnd "den") ∧
        ¬ s.Loses House.addAtEnd 12 23 "den" "qi3") := by
  have hreport := House.addAtEnd_schedulesClear
  have hput : House.session.PutsIn House.addAtEnd 11 "den" "qi3" := by decide +kernel
  have htaken : House.session.TakesOut House.addAtEnd 23 3 "den" "qi3" := by decide +kernel
  exact ⟨hreport, hput,
    (clear_takes_iff {} {} default 1 House.addAtEnd hreport hput (by decide)).1 htaken⟩

/-- An item that was requested after the report is dropped by the job that the report scheduled. -/
theorem clear_takes_requested :
    House.session.SchedulesClear House.addAtEnd 9 3 "den" ∧
      House.session.PutsIn House.addAtEnd 11 "den" "qi3" ∧
      House.session.TakesOut House.addAtEnd 23 3 "den" "qi3" :=
  ⟨House.addAtEnd_schedulesClear, by decide +kernel, by decide +kernel⟩

end Jukebox
