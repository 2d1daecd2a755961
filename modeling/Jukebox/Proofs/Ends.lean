import Jukebox.Proofs.Instants
import Jukebox.Proofs.Playing

/-!
# Commands from beginning to end

A program that is run to its end (`Program.Ends`) sees the hub as it is at each of its looks, and
others may have changed it since the last one: `meanwhile` says how. What the program itself changes
it changes at the instant of a look. What every act of an obedient program keeps, and what others
keep meanwhile, holds when it ends (`Program.Ends.kept`).
-/

namespace Jukebox

namespace Program

variable {α β : Type}

/-- Whether a program that begins on a hub can end with a value on another one. It sees only what
`sees` allows of the outside, and `meanwhile` relates the hubs between two of its looks. -/
inductive Ends (sees : Outside → Prop) (meanwhile : Hub → Hub → Prop) :
    Program α → Hub → α → Hub → Prop
  | done (value : α) (h : Hub) : Ends sees meanwhile (.done value) h value h
  | read {next : Outside → Hub → Program α} {h h₁ h₂ : Hub} {value : α} (o : Outside)
      (hsees : sees o) (hothers : meanwhile h h₁)
      (hnext : Ends sees meanwhile (next o h₁) h₁ value h₂) :
      Ends sees meanwhile (.read next) h value h₂
  | write {next : Program α} {h₁ h₂ : Hub} {value : α} (h : Hub)
      (hnext : Ends sees meanwhile next h₁ value h₂) :
      Ends sees meanwhile (.write h₁ next) h value h₂
  | call {c : Call} {next : c.Reply → Program α} {h h₁ : Hub} {value : α} (reply : c.Reply)
      (hnext : Ends sees meanwhile (next reply) h value h₁) :
      Ends sees meanwhile (.call c next) h value h₁
  | sleep {ms : Nat} {next : Program α} {h h₁ : Hub} {value : α}
      (hnext : Ends sees meanwhile next h value h₁) :
      Ends sees meanwhile (.sleep ms next) h value h₁
  | turn {next : Program α} {h h₁ : Hub} {value : α} (o : Outside)
      (hnext : Ends sees meanwhile next (Act.takeTurn.apply o h) value h₁) :
      Ends sees meanwhile (.turn next) h value h₁

variable {sees : Outside → Prop} {meanwhile : Hub → Hub → Prop} {p : Program α}
  {f : α → Program β} {h h₁ h₂ : Hub} {value : α} {result : β}

/-- A program that begins another one ends it on the way. -/
theorem Ends.of_bind (hends : (p.bind f).Ends sees meanwhile h result h₂) :
    ∃ value h₁, p.Ends sees meanwhile h value h₁ ∧ (f value).Ends sees meanwhile h₁ result h₂ := by
  induction p generalizing h with
  | done value => exact ⟨value, h, .done value h, hends⟩
  | read next ih =>
    cases hends with
    | read o hsees hothers hnext =>
      obtain ⟨value, h₁, hfirst, hrest⟩ := ih _ _ hnext
      exact ⟨value, h₁, .read o hsees hothers hfirst, hrest⟩
  | write h' next ih =>
    cases hends with
    | write h hnext =>
      obtain ⟨value, h₁, hfirst, hrest⟩ := ih hnext
      exact ⟨value, h₁, .write h hfirst, hrest⟩
  | call c next ih =>
    cases hends with
    | call reply hnext =>
      obtain ⟨value, h₁, hfirst, hrest⟩ := ih _ hnext
      exact ⟨value, h₁, .call reply hfirst, hrest⟩
  | sleep ms next ih =>
    cases hends with
    | sleep hnext =>
      obtain ⟨value, h₁, hfirst, hrest⟩ := ih hnext
      exact ⟨value, h₁, .sleep hfirst, hrest⟩
  | turn next ih =>
    cases hends with
    | turn o hnext =>
      obtain ⟨value, h₁, hfirst, hrest⟩ := ih hnext
      exact ⟨value, h₁, .turn o hfirst, hrest⟩

theorem Ends.bind (hfirst : p.Ends sees meanwhile h value h₁)
    (hrest : (f value).Ends sees meanwhile h₁ result h₂) :
    (p.bind f).Ends sees meanwhile h result h₂ := by
  induction hfirst with
  | done value h => exact hrest
  | read o hsees hothers _ ih => exact .read o hsees hothers (ih hrest)
  | write h _ ih => exact .write h (ih hrest)
  | call reply _ ih => exact .call reply (ih hrest)
  | sleep _ ih => exact .sleep (ih hrest)
  | turn o _ ih => exact .turn o (ih hrest)

/-- What a program ends with when it is alone, under one outside and with these answers. -/
def alone (o : Outside) (answers : Answers) : Program α → Hub → α × Hub
  | done value, h => (value, h)
  | read next, h => (next o h).alone o answers h
  | write h next, _ => next.alone o answers h
  | call c next, h => (next (answers c)).alone o answers h
  | sleep _ next, h => next.alone o answers h
  | turn next, h => next.alone o answers (Act.takeTurn.apply o h)

theorem ends_alone {o : Outside} (hsees : sees o) (hothers : ∀ h, meanwhile h h)
    (answers : Answers) (p : Program α) (h : Hub) :
    p.Ends sees meanwhile h (p.alone o answers h).1 (p.alone o answers h).2 := by
  induction p generalizing h with
  | done value => exact .done value h
  | read next ih => exact .read o hsees (hothers h) (ih o h h)
  | write h' next ih => exact .write h (ih h')
  | call c next ih => exact .call (answers c) (ih (answers c) h)
  | sleep ms next ih => exact .sleep (ih h)
  | turn next ih => exact .turn o (ih _)

/-- What is kept by the acts of an obedient program, and by others meanwhile, holds at its end. -/
theorem Ends.kept {R : Rules} {Q : α → Prop} (Inv : Hub → Prop)
    (hact : ∀ (a : Act) (o : Outside) (h : Hub), R.act a ∨ a = .takeTurn →
      Inv h → Inv (a.apply o h))
    (hmeanwhile : ∀ h h', meanwhile h h' → Inv h → Inv h') {seen : Option (Outside × Hub)}
    (hp : p.Yields R Q seen) (hseen : ∀ o h', seen = some (o, h') → h' = h)
    (hends : p.Ends sees meanwhile h value h₁) (hinv : Inv h) : Inv h₁ ∧ Q value := by
  induction hends generalizing seen with
  | done value h => exact ⟨hinv, by cases seen <;> exact hp⟩
  | @read next h h' _ _ o _ hothers _ ih =>
    have hnext : (next o h').Yields R Q (some (o, h')) := by
      cases seen with
      | none => exact hp o h'
      | some _ => exact hp o h'
    refine ih hnext ?_ (hmeanwhile _ _ hothers hinv)
    rintro _ _ ⟨⟩
    rfl
  | @write next h' _ _ h _ ih =>
    cases seen with
    | none => exact hp.elim
    | some at_ =>
      obtain ⟨o, g⟩ := at_
      cases hseen o g rfl
      obtain ⟨⟨a, ha, heq⟩, hnext⟩ := hp
      refine ih hnext (fun _ _ hnone => nomatch hnone) ?_
      rw [heq]
      exact hact a o h (.inl ha) hinv
  | @call c next _ _ _ reply _ ih =>
    have hnext : (next reply).Yields R Q none := by
      cases seen with
      | none => exact hp.2 reply
      | some _ => exact hp.2 reply
    exact ih hnext (fun _ _ hnone => nomatch hnone) hinv
  | @sleep ms next _ _ _ _ ih =>
    have hnext : next.Yields R Q none := by
      cases seen with
      | none => exact hp
      | some _ => exact hp
    exact ih hnext (fun _ _ hnone => nomatch hnone) hinv
  | @turn next h _ _ o _ ih =>
    have hnext : next.Yields R Q none := by
      cases seen with
      | none => exact hp
      | some _ => exact hp
    exact ih hnext (fun _ _ hnone => nomatch hnone) (hact .takeTurn o h (.inr rfl) hinv)

end Program

namespace Command

variable {α β : Type}

/-- Whether a command that begins on a hub can end with an outcome on another one. -/
def Ends (sees : Outside → Prop) (meanwhile : Hub → Hub → Prop) (c : Command α) (h : Hub)
    (outcome : Except Failure α) (h₁ : Hub) : Prop :=
  c.run.Ends sees meanwhile h outcome h₁

variable {sees : Outside → Prop} {meanwhile : Hub → Hub → Prop} {c : Command α}
  {f : α → Command β} {h h₁ h₂ : Hub}

/-- A command goes on with what its first part ends with, or fails as that does. -/
theorem Ends.of_bind {result : Except Failure β}
    (hends : (c >>= f).Ends sees meanwhile h result h₂) :
    (∃ value h₁, c.Ends sees meanwhile h (.ok value) h₁ ∧
      (f value).Ends sees meanwhile h₁ result h₂) ∨
    ∃ failure, c.Ends sees meanwhile h (.error failure) h₂ ∧ result = .error failure := by
  obtain ⟨outcome, h₁, hfirst, hrest⟩ := Program.Ends.of_bind hends
  cases outcome with
  | ok value => exact .inl ⟨value, h₁, hfirst, hrest⟩
  | error failure =>
    refine .inr ⟨failure, ?_⟩
    cases hrest
    exact ⟨hfirst, rfl⟩

/-- A command that ends well has ended its first part well. -/
theorem Ends.of_bind_ok {value : β} (hends : (c >>= f).Ends sees meanwhile h (.ok value) h₂) :
    ∃ first h₁, c.Ends sees meanwhile h (.ok first) h₁ ∧
      (f first).Ends sees meanwhile h₁ (.ok value) h₂ := by
  rcases hends.of_bind with hok | ⟨failure, -, hfailed⟩
  · exact hok
  · cases hfailed

theorem Ends.bind {value : α} {result : Except Failure β}
    (hfirst : c.Ends sees meanwhile h (.ok value) h₁)
    (hrest : (f value).Ends sees meanwhile h₁ result h₂) :
    (c >>= f).Ends sees meanwhile h result h₂ :=
  Program.Ends.bind hfirst hrest

theorem ends_pure_iff {value : α} {result : Except Failure α} :
    (pure value : Command α).Ends sees meanwhile h result h₁ ↔ result = .ok value ∧ h₁ = h := by
  constructor
  · intro hends
    cases hends
    exact ⟨rfl, rfl⟩
  · rintro ⟨rfl, rfl⟩
    exact .done _ _

theorem ends_throw_iff {failure : Failure} {result : Except Failure α} :
    (throw failure : Command α).Ends sees meanwhile h result h₁ ↔
      result = .error failure ∧ h₁ = h := by
  constructor
  · intro hends
    cases hends
    exact ⟨rfl, rfl⟩
  · rintro ⟨rfl, rfl⟩
    exact .done _ _

theorem ends_look_iff {look : Outside → Hub → α} {result : Except Failure α} :
    (Command.look look).Ends sees meanwhile h result h₁ ↔
      ∃ o, sees o ∧ meanwhile h h₁ ∧ result = .ok (look o h₁) := by
  constructor
  · intro hends
    cases hends with
    | read o hsees hothers hnext =>
      cases hnext
      exact ⟨o, hsees, hothers, rfl⟩
  · rintro ⟨o, hsees, hothers, rfl⟩
    exact .read o hsees hothers (.done _ _)

theorem ends_step_iff {step : Outside → Hub → Hub.Outcome α} {result : Except Failure α} :
    (Command.step step).Ends sees meanwhile h result h₂ ↔
      ∃ o h₁, sees o ∧ meanwhile h h₁ ∧ result = (step o h₁).1 ∧ h₂ = (step o h₁).2 := by
  constructor
  · intro hends
    cases hends with
    | read o hsees hothers hnext =>
      cases hnext with
      | write _ hnext =>
        cases hnext
        exact ⟨o, _, hsees, hothers, rfl, rfl⟩
  · rintro ⟨o, h₁, hsees, hothers, rfl, rfl⟩
    exact .read o hsees hothers (.write _ (.done _ _))

theorem ends_change_iff {change : Outside → Hub → Hub} {result : Except Failure Unit} :
    (Command.change change).Ends sees meanwhile h result h₂ ↔
      ∃ o h₁, sees o ∧ meanwhile h h₁ ∧ result = .ok () ∧ h₂ = change o h₁ := by
  have hstep : Command.change change = Command.step fun o h => (.ok (), change o h) := rfl
  rw [hstep, ends_step_iff]

/-- The outcome of a command is what it ends with. -/
theorem Ends.of_outcome {result : Except Failure (Except Failure α)}
    (hends : (outcome c).Ends sees meanwhile h result h₁) :
    ∃ first, result = .ok first ∧ c.Ends sees meanwhile h first h₁ := by
  obtain ⟨first, h', hfirst, hrest⟩ := Program.Ends.of_bind hends
  cases hrest
  exact ⟨first, rfl, hfirst⟩

/-- What is kept by an obedient command, and by others meanwhile, holds at its end. -/
theorem Ends.kept {R : Rules} {Q : α → Prop} {result : Except Failure α} (Inv : Hub → Prop)
    (hact : ∀ (a : Act) (o : Outside) (h : Hub), R.act a ∨ a = .takeTurn →
      Inv h → Inv (a.apply o h))
    (hmeanwhile : ∀ h h', meanwhile h h' → Inv h → Inv h') (hc : c.Yields R Q)
    (hends : c.Ends sees meanwhile h result h₁) (hinv : Inv h) :
    Inv h₁ ∧ ∀ value, result = .ok value → Q value :=
  Program.Ends.kept Inv hact hmeanwhile hc (fun _ _ hnone => nomatch hnone) hends hinv

end Command

end Jukebox
