import Jukebox.Proofs.Runs
import Jukebox.Timeline

/-!
# Instants of a timeline

At one instant of a timeline a program runs until it has to wait. The same comes about in a session
when that program alone goes on for a while (`Session.exists_run_of_instant`): what is kept by every
run of sessions is kept by every instant of a timeline.

Some things hold only because nothing else happens between two looks of a program at one instant.
For these there are sessions in which a program goes on until it waits (`Session.instants`). In
these, too, a program does all that it does on a timeline (`Program.goesTo_run`).
-/

namespace Jukebox

variable {σ ρ α : Type}

/-- What is left of a program that waits. -/
def Paused.program : Paused α → Program α
  | rest p => p
  | answered c next => .call c next

/-- What is left of a program that stopped. -/
def Stop.program : Stop α → Program α
  | done value => .done value
  | paused _ p => p.program

namespace Program

/-- Whether a program comes to another one by stops of its own, with what they do to the hub. -/
inductive ComesTo : Program α → Hub → Program α → Hub → Prop
  | refl (p : Program α) (h : Hub) : ComesTo p h p h
  | stop {p q : Program α} {h h' : Hub} (hgoing : p.isDone = false) (o : Outside)
      (answers : Answers)
      (hnext : ComesTo (p.advance o answers h).1 (p.advance o answers h).2 q h') : ComesTo p h q h'

/-- Whether a program comes, by its stops, to what it comes to at an instant. -/
def Stops (w : World σ ρ) (now : Nat) (p : Program α) (s : σ) (h : Hub) : Prop :=
  p.ComesTo h (p.run w now s h).2.2.program (p.run w now s h).2.1

/-- All that a program does at an instant it does by its stops. What it writes after it has read
belongs to one stop, so what follows a write is told apart. -/
theorem stops_run (w : World σ ρ) (now : Nat) (p : Program α) :
    (∀ s h, p.Stops w now s h) ∧
      ∀ h' rest, p = .write h' rest → ∀ s, rest.Stops w now s h' := by
  induction p with
  | done value => exact ⟨fun s h => .refl _ h, by rintro _ _ ⟨⟩⟩
  | read next ih =>
    refine ⟨fun s h => ?_, by rintro _ _ ⟨⟩⟩
    obtain ⟨hrest, hwritten⟩ := ih (w.outside s now) h
    refine .stop rfl (w.outside s now) (w.answer s) ?_
    unfold Program.run
    cases hcase : next (w.outside s now) h with
    | write h' rest =>
      have hnext := hwritten h' rest hcase s
      simp only [Program.advance, hcase]
      exact hnext
    | _ =>
      have hnext := hrest s h
      rw [hcase] at hnext
      simp only [Program.advance, hcase]
      exact hnext
  | write h' rest ih =>
    refine ⟨fun s h => .stop rfl (w.outside s now) (w.answer s) (ih.1 s h'), ?_⟩
    rintro _ _ heq s
    cases heq
    exact ih.1 s h'
  | call c next ih =>
    refine ⟨fun s h => ?_, by rintro _ _ ⟨⟩⟩
    unfold Stops Program.run
    dsimp only
    split
    · exact .stop rfl (w.outside s now) (w.answer (w.hear s now c).1) ((ih _).1 _ h)
    · exact .refl _ h
  | sleep ms next ih =>
    refine ⟨fun s h => ?_, by rintro _ _ ⟨⟩⟩
    unfold Stops Program.run
    refine .stop rfl (w.outside s now) (w.answer s) ?_
    split
    · exact ih.1 s h
    · exact .refl _ h
  | turn next ih =>
    refine ⟨fun s h => ?_, by rintro _ _ ⟨⟩⟩
    unfold Stops Program.run
    refine .stop rfl { w.outside s now with now } (w.answer s) ?_
    dsimp only
    split
    · exact ih.1 s _
    · exact .refl _ _

end Program

namespace Session

variable {s : Session} {index : Nat} {a : Activity}

theorem step_proceed (ha : s.active[index]? = some a) (o : Outside) (answers : Answers) :
    s.step o (.proceed index answers) =
      { hub := (a.program.advance o answers s.hub).2
        active := replace s.active index
          { a with program := (a.program.advance o answers s.hub).1 } } := by
  simp only [step, ha]

theorem replace_self (ha : s.active[index]? = some a) (hgoing : a.program.isDone = false) :
    replace s.active index a = s.active := by
  obtain ⟨hindex, rfl⟩ := List.getElem?_eq_some_iff.1 ha
  rw [replace, hgoing]
  exact List.set_getElem_self hindex

/-- Of two stops of an activity the last one decides what is left. -/
theorem replace_replace {active : List Activity} {b : Activity} (hgoing : a.program.isDone = false)
    (index : Nat) : replace (replace active index a) index b = replace active index b := by
  simp only [replace, hgoing, Bool.false_eq_true, if_false]
  rw [List.eraseIdx_set_eq, List.set_set]

/-- An activity comes, in some run, to all that its program comes to by itself. -/
theorem exists_run_of_comesTo {p q : Program (Except Failure Unit)} {h h' : Hub}
    (hcomes : p.ComesTo h q h') (hgoing : p.isDone = false) {active : List Activity}
    {job : Option Job} (ha : active[index]? = some ⟨job, p⟩) :
    ∃ moves, run { hub := h, active } moves =
      { hub := h', active := replace active index ⟨job, q⟩ } := by
  induction hcomes generalizing active with
  | refl p h =>
    refine ⟨[], ?_⟩
    rw [replace_self (s := { hub := h, active }) ha hgoing]
    rfl
  | @stop p q h h' _ o answers hnext ih =>
    have hstep := step_proceed (s := { hub := h, active }) ha o answers
    cases hdone : (p.advance o answers h).1.isDone with
    | true =>
      cases hnext with
      | refl => exact ⟨[(o, .proceed index answers)], hstep⟩
      | stop hstill =>
        rw [hdone] at hstill
        cases hstill
    | false =>
      have hleft : (replace active index ⟨job, (p.advance o answers h).1⟩)[index]? =
          some ⟨job, (p.advance o answers h).1⟩ := by
        obtain ⟨hindex, -⟩ := List.getElem?_eq_some_iff.1 ha
        simp only [replace, hdone, Bool.false_eq_true, if_false]
        exact List.getElem?_set_self hindex
      obtain ⟨moves, hmoves⟩ := ih hdone hleft
      refine ⟨(o, .proceed index answers) :: moves, ?_⟩
      have hrun : run { hub := h, active } ((o, .proceed index answers) :: moves) =
          run (step { hub := h, active } o (.proceed index answers)) moves := rfl
      rw [hrun, hstep, hmoves, replace_replace hdone]

/-- What a timeline makes of an activity at an instant, some run of the session makes of it. -/
theorem exists_run_of_instant (w : World σ ρ) (now : Nat) (state : σ)
    (ha : s.active[index]? = some a) (hgoing : a.program.isDone = false) :
    ∃ moves, s.run moves =
      { hub := (a.program.run w now state s.hub).2.1
        active := replace s.active index
          { a with program := (a.program.run w now state s.hub).2.2.program } } :=
  exists_run_of_comesTo ((Program.stops_run w now a.program).1 state s.hub) hgoing ha

end Session

/-! ## Going on until a wait -/

namespace Program

/-- What a program does at one instant until it waits. -/
def onward (o : Outside) : Program α → Hub → Program α × Hub
  | read next, h => (next o h).onward o h
  | write h next, _ => next.onward o h
  | p, h => (p, h)

/-- A program goes on: by one stop where it waits, and until it waits else. -/
def goOn (o : Outside) (answers : Answers) (h : Hub) : Program α → Program α × Hub
  | read next => (next o h).onward o h
  | write h next => next.onward o h
  | p => p.advance o answers h

/-- Whether a program comes to another one by going on, with what that does to the hub. -/
inductive GoesTo : Program α → Hub → Program α → Hub → Prop
  | refl (p : Program α) (h : Hub) : GoesTo p h p h
  | goOn {p q : Program α} {h h' : Hub} (o : Outside) (answers : Answers)
      (hnext : GoesTo (p.goOn o answers h).1 (p.goOn o answers h).2 q h') : GoesTo p h q h'

/-- What comes after an instant is come to by going on. -/
theorem GoesTo.of_onward {p q : Program α} {h h' : Hub} (o : Outside) (answers : Answers)
    (hafter : GoesTo (p.onward o h).1 (p.onward o h).2 q h') : GoesTo p h q h' := by
  cases p with
  | read next => exact .goOn o answers hafter
  | write h next => exact .goOn o answers hafter
  | _ => exact hafter

/-- All that a program does at an instant of a timeline it does by going on. -/
theorem goesTo_run (w : World σ ρ) (now : Nat) (p : Program α) (s : σ) (h : Hub) :
    p.GoesTo h (p.run w now s h).2.2.program (p.run w now s h).2.1 := by
  have hrest : ∀ s h, GoesTo (p.onward (w.outside s now) h).1 (p.onward (w.outside s now) h).2
      (p.run w now s h).2.2.program (p.run w now s h).2.1 := by
    induction p with
    | done value => exact fun s h => .refl _ h
    | read next ih => exact fun s h => ih (w.outside s now) h s h
    | write h' next ih => exact fun s _ => ih s h'
    | call c next ih =>
      intro s h
      unfold Program.run
      dsimp only
      split
      · exact .goOn (w.outside s now) (w.answer (w.hear s now c).1)
          (.of_onward _ (w.answer s) (ih _ _ h))
      · exact .refl _ h
    | sleep ms next ih =>
      intro s h
      unfold Program.run
      split
      · exact .goOn (w.outside s now) (w.answer s) (.of_onward _ (w.answer s) (ih s h))
      · exact .goOn (w.outside s now) (w.answer s) (.refl _ h)
    | turn next ih =>
      intro s h
      unfold Program.run
      dsimp only
      split
      · exact .goOn { w.outside s now with now } (w.answer s) (.of_onward _ (w.answer s) (ih s _))
      · exact .goOn { w.outside s now with now } (w.answer s) (.refl _ _)
  exact .of_onward (w.outside s now) (w.answer s) (hrest s h)

/-- What the allowed acts keep is kept while an obedient program goes on until it waits. -/
theorem Yields.onward {R : Rules} {P : α → Prop} {I : Hub → Prop} {o : Outside}
    (hact : ∀ a h, R.act a → I h → I (a.apply o h)) {p : Program α} {h : Hub}
    (hp : p.Yields R P (some (o, h))) (hinv : I h) :
    (p.onward o h).1.Yields R P none ∧ I (p.onward o h).2 := by
  induction p generalizing h with
  | read next ih => exact ih o h (hp o h) hinv
  | write h' next ih =>
    obtain ⟨⟨a, ha, rfl⟩, hnext⟩ := hp
    exact ih (hnext.seen _) (hact a h ha hinv)
  | _ => exact ⟨hp, hinv⟩

theorem Yields.goOn {R : Rules} {P : α → Prop} {I : Hub → Prop} {o : Outside}
    (hact : ∀ a h, R.act a → I h → I (a.apply o h))
    (hturn : ∀ h, I h → I (Act.takeTurn.apply o h)) {p : Program α} {h : Hub}
    (hp : p.Yields R P none) (hinv : I h) (answers : Answers) :
    (p.goOn o answers h).1.Yields R P none ∧ I (p.goOn o answers h).2 := by
  cases p with
  | done value => exact ⟨hp, hinv⟩
  | read next => exact (hp o h).onward hact hinv
  | write h' next => exact hp.elim
  | call c next => exact ⟨hp.2 (answers c), hinv⟩
  | sleep ms next => exact ⟨hp, hinv⟩
  | turn next => exact ⟨hp, hturn h hinv⟩

end Program

namespace Session

/-- A step of a session in which a program goes on until it waits. -/
def instant (s : Session) (o : Outside) : Move → Session
  | .proceed index answers =>
    match s.active[index]? with
    | none => s
    | some a =>
      let (program, hub) := a.program.goOn o answers s.hub
      { hub, active := replace s.active index { a with program } }
  | move => s.step o move

/-- A session after a sequence of moves in which every program goes on until it waits. Nothing else
happens between its looks until then, which is what a single thread makes of tasks; on several
threads another task can come in between two looks (`Session.run`). -/
def instants (s : Session) (moves : List (Outside × Move)) : Session :=
  moves.foldl (fun s m => s.instant m.1 m.2) s

end Session

end Jukebox
