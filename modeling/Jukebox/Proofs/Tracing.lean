import Jukebox.Proofs.Ends

/-!
# Runs with their calls

A program that is run to its end while the collaborators behave in a certain way (`Program.Runs`):
each call gets one of the replies that the behaviour allows, and the calls are kept in order. As in
`Program.Ends`, others may change the hub between two looks of the program. Where every call can be
answered, every program has such a run (`Program.exists_runs`).
-/

namespace Jukebox

/-- The replies that each call may get. -/
abbrev Behaviour : Type := (c : Call) → c.Reply → Prop

namespace Program

variable {α β : Type}

/-- Whether a program that begins on a hub can make these calls and end with a value on another
hub. -/
inductive Runs (b : Behaviour) (meanwhile : Hub → Hub → Prop) :
    Program α → Hub → List Call → α → Hub → Prop
  | done (value : α) (h : Hub) : Runs b meanwhile (.done value) h [] value h
  | read {next : Outside → Hub → Program α} {h h₁ h₂ : Hub} {calls : List Call} {value : α}
      (o : Outside) (hothers : meanwhile h h₁)
      (hnext : Runs b meanwhile (next o h₁) h₁ calls value h₂) :
      Runs b meanwhile (.read next) h calls value h₂
  | write {next : Program α} {h₁ h₂ : Hub} {calls : List Call} {value : α} (h : Hub)
      (hnext : Runs b meanwhile next h₁ calls value h₂) :
      Runs b meanwhile (.write h₁ next) h calls value h₂
  | call {c : Call} {next : c.Reply → Program α} {h h₁ : Hub} {calls : List Call} {value : α}
      (reply : c.Reply) (hreply : b c reply)
      (hnext : Runs b meanwhile (next reply) h calls value h₁) :
      Runs b meanwhile (.call c next) h (c :: calls) value h₁
  | sleep {ms : Nat} {next : Program α} {h h₁ : Hub} {calls : List Call} {value : α}
      (hnext : Runs b meanwhile next h calls value h₁) :
      Runs b meanwhile (.sleep ms next) h calls value h₁
  | turn {next : Program α} {h h₁ : Hub} {calls : List Call} {value : α} (o : Outside)
      (hnext : Runs b meanwhile next (Act.takeTurn.apply o h) calls value h₁) :
      Runs b meanwhile (.turn next) h calls value h₁

variable {b : Behaviour} {meanwhile : Hub → Hub → Prop} {p : Program α} {f : α → Program β}
  {h h₁ h₂ : Hub} {calls : List Call} {result : β}

/-- The calls of a program that begins another one are those of both. -/
theorem Runs.of_bind (hruns : (p.bind f).Runs b meanwhile h calls result h₂) :
    ∃ value h₁ first rest, p.Runs b meanwhile h first value h₁ ∧
      (f value).Runs b meanwhile h₁ rest result h₂ ∧ calls = first ++ rest := by
  induction p generalizing h calls with
  | done value => exact ⟨value, h, [], calls, .done value h, hruns, rfl⟩
  | read next ih =>
    cases hruns with
    | read o hothers hnext =>
      obtain ⟨value, h₁, first, rest, hfirst, hrest, heq⟩ := ih _ _ hnext
      exact ⟨value, h₁, first, rest, .read o hothers hfirst, hrest, heq⟩
  | write h' next ih =>
    cases hruns with
    | write h hnext =>
      obtain ⟨value, h₁, first, rest, hfirst, hrest, heq⟩ := ih hnext
      exact ⟨value, h₁, first, rest, .write h hfirst, hrest, heq⟩
  | call c next ih =>
    cases hruns with
    | call reply hreply hnext =>
      obtain ⟨value, h₁, first, rest, hfirst, hrest, rfl⟩ := ih _ hnext
      exact ⟨value, h₁, c :: first, rest, .call reply hreply hfirst, hrest, rfl⟩
  | sleep ms next ih =>
    cases hruns with
    | sleep hnext =>
      obtain ⟨value, h₁, first, rest, hfirst, hrest, heq⟩ := ih hnext
      exact ⟨value, h₁, first, rest, .sleep hfirst, hrest, heq⟩
  | turn next ih =>
    cases hruns with
    | turn o hnext =>
      obtain ⟨value, h₁, first, rest, hfirst, hrest, heq⟩ := ih hnext
      exact ⟨value, h₁, first, rest, .turn o hfirst, hrest, heq⟩

/-- The calls that a program makes when it is alone, under one outside and with these answers. -/
def callsAlone (o : Outside) (answers : Answers) : Program α → Hub → List Call
  | done _, _ => []
  | read next, h => (next o h).callsAlone o answers h
  | write h next, _ => next.callsAlone o answers h
  | call c next, h => c :: (next (answers c)).callsAlone o answers h
  | sleep _ next, h => next.callsAlone o answers h
  | turn next, h => next.callsAlone o answers (Act.takeTurn.apply o h)

theorem runs_alone (hothers : ∀ h, meanwhile h h) {answers : Answers}
    (hanswers : ∀ c, b c (answers c)) (o : Outside) (p : Program α) (h : Hub) :
    p.Runs b meanwhile h (p.callsAlone o answers h) (p.alone o answers h).1
      (p.alone o answers h).2 := by
  induction p generalizing h with
  | done value => exact .done value h
  | read next ih => exact .read o (hothers h) (ih o h h)
  | write h' next ih => exact .write h (ih h')
  | call c next ih => exact .call (answers c) (hanswers c) (ih (answers c) h)
  | sleep ms next ih => exact .sleep (ih h)
  | turn next ih => exact .turn o (ih _)

/-- A program has a run when every call can be answered. -/
theorem exists_runs (hothers : ∀ h, meanwhile h h) (htotal : ∀ c, ∃ reply, b c reply)
    (p : Program α) (h : Hub) : ∃ calls value h₁, p.Runs b meanwhile h calls value h₁ := by
  obtain ⟨answers, hanswers⟩ := Classical.axiomOfChoice htotal
  exact ⟨_, _, _, runs_alone hothers hanswers .quiet p h⟩

end Program

namespace Command

variable {α β : Type}

/-- Whether a command that begins on a hub can make these calls and end with an outcome on another
hub. -/
def Runs (b : Behaviour) (meanwhile : Hub → Hub → Prop) (c : Command α) (h : Hub)
    (calls : List Call) (outcome : Except Failure α) (h₁ : Hub) : Prop :=
  c.run.Runs b meanwhile h calls outcome h₁

variable {b : Behaviour} {meanwhile : Hub → Hub → Prop} {c : Command α} {f : α → Command β}
  {h h₁ h₂ : Hub} {calls : List Call}

/-- A command goes on with what its first part ends with, or fails as that does. -/
theorem Runs.of_bind {result : Except Failure β}
    (hruns : (c >>= f).Runs b meanwhile h calls result h₂) :
    (∃ value h₁ first rest, c.Runs b meanwhile h first (.ok value) h₁ ∧
      (f value).Runs b meanwhile h₁ rest result h₂ ∧ calls = first ++ rest) ∨
    ∃ failure, c.Runs b meanwhile h calls (.error failure) h₂ ∧ result = .error failure := by
  obtain ⟨outcome, h₁, first, rest, hfirst, hrest, rfl⟩ := Program.Runs.of_bind hruns
  cases outcome with
  | ok value => exact .inl ⟨value, h₁, first, rest, hfirst, hrest, rfl⟩
  | error failure =>
    refine .inr ⟨failure, ?_⟩
    cases hrest
    rw [List.append_nil]
    exact ⟨hfirst, rfl⟩

theorem runs_pure_iff {value : α} {result : Except Failure α} :
    (pure value : Command α).Runs b meanwhile h calls result h₁ ↔
      calls = [] ∧ result = .ok value ∧ h₁ = h := by
  constructor
  · intro hruns
    cases hruns
    exact ⟨rfl, rfl, rfl⟩
  · rintro ⟨rfl, rfl, rfl⟩
    exact .done _ _

theorem runs_throw_iff {failure : Failure} {result : Except Failure α} :
    (throw failure : Command α).Runs b meanwhile h calls result h₁ ↔
      calls = [] ∧ result = .error failure ∧ h₁ = h := by
  constructor
  · intro hruns
    cases hruns
    exact ⟨rfl, rfl, rfl⟩
  · rintro ⟨rfl, rfl, rfl⟩
    exact .done _ _

theorem runs_look_iff {look : Outside → Hub → α} {result : Except Failure α} :
    (Command.look look).Runs b meanwhile h calls result h₁ ↔
      calls = [] ∧ meanwhile h h₁ ∧ ∃ o, result = .ok (look o h₁) := by
  constructor
  · intro hruns
    cases hruns with
    | read o hothers hnext =>
      cases hnext
      exact ⟨rfl, hothers, o, rfl⟩
  · rintro ⟨rfl, hothers, o, rfl⟩
    exact .read o hothers (.done _ _)

theorem runs_step_iff {step : Outside → Hub → Hub.Outcome α} {result : Except Failure α} :
    (Command.step step).Runs b meanwhile h calls result h₂ ↔
      calls = [] ∧ ∃ o h₁, meanwhile h h₁ ∧ result = (step o h₁).1 ∧ h₂ = (step o h₁).2 := by
  constructor
  · intro hruns
    cases hruns with
    | read o hothers hnext =>
      cases hnext with
      | write _ hnext =>
        cases hnext
        exact ⟨rfl, o, _, hothers, rfl, rfl⟩
  · rintro ⟨rfl, o, h₁, hothers, rfl, rfl⟩
    exact .read o hothers (.write _ (.done _ _))

theorem runs_call_iff {c : Call} {result : Except Failure c.Answer} :
    (Command.call c).Runs b meanwhile h calls result h₁ ↔ calls = [c] ∧ b c result ∧ h₁ = h := by
  constructor
  · intro hruns
    cases hruns with
    | call reply hreply hnext =>
      cases hnext
      exact ⟨rfl, hreply, rfl⟩
  · rintro ⟨rfl, hreply, rfl⟩
    exact .call result hreply (.done _ _)

/-- A command that begins with a look goes on from the hub that it saw. -/
theorem Runs.of_look {look : Outside → Hub → α} {result : Except Failure β}
    (hruns : (Command.look look >>= f).Runs b meanwhile h calls result h₂) :
    ∃ o h₁, meanwhile h h₁ ∧ (f (look o h₁)).Runs b meanwhile h₁ calls result h₂ := by
  rcases hruns.of_bind with ⟨value, h₁, first, rest, hlook, hrest, rfl⟩ | ⟨failure, hlook, -⟩
  · obtain ⟨rfl, hothers, o, hvalue⟩ := runs_look_iff.1 hlook
    cases hvalue
    exact ⟨o, h₁, hothers, hrest⟩
  · obtain ⟨-, -, o, hvalue⟩ := runs_look_iff.1 hlook
    cases hvalue

/-- A command that begins with a call goes on with the answer, or fails as the call does. -/
theorem Runs.of_call {c : Call} {f : c.Answer → Command β} {result : Except Failure β}
    (hruns : (Command.call c >>= f).Runs b meanwhile h calls result h₂) :
    (∃ answer rest, b c (.ok answer) ∧ calls = c :: rest ∧
      (f answer).Runs b meanwhile h rest result h₂) ∨
    ∃ failure, b c (.error failure) ∧ calls = [c] ∧ result = .error failure ∧ h₂ = h := by
  rcases hruns.of_bind with ⟨answer, h₁, first, rest, hcall, hrest, rfl⟩ | ⟨failure, hcall, rfl⟩
  · obtain ⟨rfl, hreply, rfl⟩ := runs_call_iff.1 hcall
    exact .inl ⟨answer, rest, hreply, rfl, hrest⟩
  · obtain ⟨rfl, hreply, rfl⟩ := runs_call_iff.1 hcall
    exact .inr ⟨failure, hreply, rfl, rfl, rfl⟩

/-- The outcome of a command is what it ends with. -/
theorem Runs.of_outcome {result : Except Failure (Except Failure α)}
    (hruns : (outcome c).Runs b meanwhile h calls result h₁) :
    ∃ first, result = .ok first ∧ c.Runs b meanwhile h calls first h₁ := by
  obtain ⟨first, h', before, after, hfirst, hrest, rfl⟩ := Program.Runs.of_bind hruns
  cases hrest
  exact ⟨first, rfl, by rwa [List.append_nil]⟩

/-- A command that begins with an outcome goes on with it. -/
theorem Runs.of_outcome_bind {f : Except Failure α → Command β} {result : Except Failure β}
    (hruns : (outcome c >>= f).Runs b meanwhile h calls result h₂) :
    ∃ value h₁ first rest, c.Runs b meanwhile h first value h₁ ∧
      (f value).Runs b meanwhile h₁ rest result h₂ ∧ calls = first ++ rest := by
  rcases hruns.of_bind with ⟨value, h₁, first, rest, hc, hrest, rfl⟩ | ⟨failure, hc, -⟩
  · obtain ⟨outcome, houtcome, hc⟩ := hc.of_outcome
    cases houtcome
    exact ⟨value, h₁, first, rest, hc, hrest, rfl⟩
  · obtain ⟨outcome, houtcome, -⟩ := hc.of_outcome
    cases houtcome

end Command

end Jukebox
