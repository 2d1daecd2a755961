import Jukebox.Proofs.Skipping

/-!
# Runs with their histories

A program that is run to its end in some setting (`Program.Unfolds`): the setting says what the
program may see of the outside, which replies its calls may get, and what others may do to the hub
between two of its looks. The history of a run tells each call with its reply, and each change that
the program made, so that the jobs can be read off it that the program scheduled (`Books`).
-/

namespace Jukebox

/-- What happens while a program runs. -/
inductive Happening where
  | answered (c : Call) (reply : c.Reply)
  /-- The program changed the hub. -/
  | changed (before after : Hub)

/-- A call with the reply that it got. -/
abbrev Answered : Type := (c : Call) × c.Reply

/-- The calls of a history with their replies. -/
def asked (history : List Happening) : List Answered :=
  history.filterMap fun
    | .answered c reply => some ⟨c, reply⟩
    | .changed _ _ => none

/-- A job that was put into a schedule. -/
structure Booking where
  key : String
  due : Nat
  job : Job

/-- Whether these jobs, in this order, are all that was put into the schedule, each under its key,
and the schedule was left alone besides. -/
inductive Books : List Happening → List Booking → Prop
  | nil : Books [] []
  | answered {c : Call} {reply : c.Reply} {rest : List Happening} {bookings : List Booking}
      (hrest : Books rest bookings) : Books (.answered c reply :: rest) bookings
  | kept {before after : Hub} {rest : List Happening} {bookings : List Booking}
      (hsame : after.schedule = before.schedule) (hrest : Books rest bookings) :
      Books (.changed before after :: rest) bookings
  | booked {before after : Hub} {rest : List Happening} {bookings : List Booking} (b : Booking)
      (hafter : after.schedule = before.schedule.later b.key b.due b.job)
      (hrest : Books rest bookings) : Books (.changed before after :: rest) (b :: bookings)

@[simp] theorem asked_append (first rest : List Happening) :
    asked (first ++ rest) = asked first ++ asked rest :=
  List.filterMap_append

@[simp] theorem asked_answered (c : Call) (reply : c.Reply) (rest : List Happening) :
    asked (.answered c reply :: rest) = ⟨c, reply⟩ :: asked rest := rfl

theorem Books.append {first rest : List Happening} {early late : List Booking}
    (hfirst : Books first early) (hrest : Books rest late) :
    Books (first ++ rest) (early ++ late) := by
  induction hfirst with
  | nil => exact hrest
  | answered _ ih => exact .answered ih
  | kept hsame _ ih => exact .kept hsame ih
  | booked b hafter _ ih => exact .booked b hafter ih

/-! ## Settings -/

/-- What surrounds a program that runs: what it may see of the outside, the replies that its calls
may get, and what others may do to the hub between two of its looks. -/
structure Setting where
  sees : Outside → Prop
  replies : Behaviour
  meanwhile : Hub → Hub → Prop

namespace Setting

/-- Whether nobody else does anything to the entry of a queue. -/
def Spares (S : Setting) (queueId : String) : Prop :=
  ∀ h h', S.meanwhile h h' → Hub.SameEntry queueId h h'

/-- Whether every program can go on: there is an outside to see, every call can be answered, and
others may leave the hub alone. -/
structure Open (S : Setting) : Prop where
  sees : ∃ o, S.sees o
  replies : ∀ c, ∃ reply, S.replies c reply
  meanwhile : ∀ h, S.meanwhile h h

end Setting

/-! ## Programs -/

namespace Program

variable {α β : Type}

/-- Whether a program that begins on a hub can have this history and end with a value on another
hub. -/
inductive Unfolds (S : Setting) : Program α → Hub → List Happening → α → Hub → Prop
  | done (value : α) (h : Hub) : Unfolds S (.done value) h [] value h
  | read {next : Outside → Hub → Program α} {h h₁ h₂ : Hub} {history : List Happening} {value : α}
      (o : Outside) (hsees : S.sees o) (hothers : S.meanwhile h h₁)
      (hnext : Unfolds S (next o h₁) h₁ history value h₂) :
      Unfolds S (.read next) h history value h₂
  | write {next : Program α} {h₁ h₂ : Hub} {history : List Happening} {value : α} (h : Hub)
      (hnext : Unfolds S next h₁ history value h₂) :
      Unfolds S (.write h₁ next) h (.changed h h₁ :: history) value h₂
  | call {c : Call} {next : c.Reply → Program α} {h h₁ : Hub} {history : List Happening}
      {value : α} (reply : c.Reply) (hreply : S.replies c reply)
      (hnext : Unfolds S (next reply) h history value h₁) :
      Unfolds S (.call c next) h (.answered c reply :: history) value h₁
  | sleep {ms : Nat} {next : Program α} {h h₁ : Hub} {history : List Happening} {value : α}
      (hnext : Unfolds S next h history value h₁) :
      Unfolds S (.sleep ms next) h history value h₁
  | turn {next : Program α} {h h₁ : Hub} {history : List Happening} {value : α} (o : Outside)
      (hnext : Unfolds S next (Act.takeTurn.apply o h) history value h₁) :
      Unfolds S (.turn next) h (.changed h (Act.takeTurn.apply o h) :: history) value h₁

variable {S : Setting} {p : Program α} {f : α → Program β} {h h₁ h₂ : Hub}
  {history : List Happening} {value : α} {result : β}

/-- The history of a program that begins another one is that of both. -/
theorem Unfolds.of_bind (hunfolds : (p.bind f).Unfolds S h history result h₂) :
    ∃ value h₁ first rest, p.Unfolds S h first value h₁ ∧
      (f value).Unfolds S h₁ rest result h₂ ∧ history = first ++ rest := by
  induction p generalizing h history with
  | done value => exact ⟨value, h, [], history, .done value h, hunfolds, rfl⟩
  | read next ih =>
    cases hunfolds with
    | read o hsees hothers hnext =>
      obtain ⟨value, h₁, first, rest, hfirst, hrest, heq⟩ := ih _ _ hnext
      exact ⟨value, h₁, first, rest, .read o hsees hothers hfirst, hrest, heq⟩
  | write h' next ih =>
    cases hunfolds with
    | write h hnext =>
      obtain ⟨value, h₁, first, rest, hfirst, hrest, rfl⟩ := ih hnext
      exact ⟨value, h₁, _, rest, .write h hfirst, hrest, rfl⟩
  | call c next ih =>
    cases hunfolds with
    | call reply hreply hnext =>
      obtain ⟨value, h₁, first, rest, hfirst, hrest, rfl⟩ := ih _ hnext
      exact ⟨value, h₁, _, rest, .call reply hreply hfirst, hrest, rfl⟩
  | sleep ms next ih =>
    cases hunfolds with
    | sleep hnext =>
      obtain ⟨value, h₁, first, rest, hfirst, hrest, heq⟩ := ih hnext
      exact ⟨value, h₁, first, rest, .sleep hfirst, hrest, heq⟩
  | turn next ih =>
    cases hunfolds with
    | turn o hnext =>
      obtain ⟨value, h₁, first, rest, hfirst, hrest, rfl⟩ := ih hnext
      exact ⟨value, h₁, _, rest, .turn o hfirst, hrest, rfl⟩

/-- A program that unfolds to its end runs to it. -/
theorem Unfolds.ends (hunfolds : p.Unfolds S h history value h₁) :
    p.Ends S.sees S.meanwhile h value h₁ := by
  induction hunfolds with
  | done value h => exact .done value h
  | read o hsees hothers _ ih => exact .read o hsees hothers ih
  | write h _ ih => exact .write h ih
  | call reply _ _ ih => exact .call reply ih
  | sleep _ ih => exact .sleep ih
  | turn o _ ih => exact .turn o ih

/-- The history of a program when it is alone, under one outside and with these answers. -/
def historyAlone (o : Outside) (answers : Answers) : Program α → Hub → List Happening
  | done _, _ => []
  | read next, h => (next o h).historyAlone o answers h
  | write h' next, h => .changed h h' :: next.historyAlone o answers h'
  | call c next, h => .answered c (answers c) :: (next (answers c)).historyAlone o answers h
  | sleep _ next, h => next.historyAlone o answers h
  | turn next, h =>
    .changed h (Act.takeTurn.apply o h) :: next.historyAlone o answers (Act.takeTurn.apply o h)

theorem unfolds_alone {o : Outside} (hsees : S.sees o) (hothers : ∀ h, S.meanwhile h h)
    {answers : Answers} (hanswers : ∀ c, S.replies c (answers c)) (p : Program α) (h : Hub) :
    p.Unfolds S h (p.historyAlone o answers h) (p.alone o answers h).1 (p.alone o answers h).2 := by
  induction p generalizing h with
  | done value => exact .done value h
  | read next ih => exact .read o hsees (hothers h) (ih o h h)
  | write h' next ih => exact .write h (ih h')
  | call c next ih => exact .call (answers c) (hanswers c) (ih (answers c) h)
  | sleep ms next ih => exact .sleep (ih h)
  | turn next ih => exact .turn o (ih _)

theorem exists_unfolds (hS : S.Open) (p : Program α) (h : Hub) :
    ∃ history value h₁, p.Unfolds S h history value h₁ := by
  obtain ⟨o, hsees⟩ := hS.sees
  obtain ⟨answers, hanswers⟩ := Classical.axiomOfChoice hS.replies
  exact ⟨_, _, _, unfolds_alone hsees hS.meanwhile hanswers p h⟩

end Program

/-! ## Commands -/

namespace Command

variable {α β : Type}

/-- Whether a command that begins on a hub can have this history and end with an outcome on another
hub. -/
def Unfolds (S : Setting) (c : Command α) (h : Hub) (history : List Happening)
    (outcome : Except Failure α) (h₁ : Hub) : Prop :=
  c.run.Unfolds S h history outcome h₁

variable {S : Setting} {c : Command α} {f : α → Command β} {h h₁ h₂ : Hub}
  {history : List Happening}

/-- A command goes on with what its first part ends with, or fails as that does. -/
theorem Unfolds.of_bind {result : Except Failure β}
    (hunfolds : (c >>= f).Unfolds S h history result h₂) :
    (∃ value h₁ first rest, c.Unfolds S h first (.ok value) h₁ ∧
      (f value).Unfolds S h₁ rest result h₂ ∧ history = first ++ rest) ∨
    ∃ failure, c.Unfolds S h history (.error failure) h₂ ∧ result = .error failure := by
  obtain ⟨outcome, h₁, first, rest, hfirst, hrest, rfl⟩ := Program.Unfolds.of_bind hunfolds
  cases outcome with
  | ok value => exact .inl ⟨value, h₁, first, rest, hfirst, hrest, rfl⟩
  | error failure =>
    refine .inr ⟨failure, ?_⟩
    cases hrest
    rw [List.append_nil]
    exact ⟨hfirst, rfl⟩

theorem Unfolds.of_pure {value : α} {result : Except Failure α}
    (hunfolds : (pure value : Command α).Unfolds S h history result h₁) :
    history = [] ∧ result = .ok value ∧ h₁ = h := by
  cases hunfolds
  exact ⟨rfl, rfl, rfl⟩

theorem Unfolds.of_throw {failure : Failure} {result : Except Failure α}
    (hunfolds : (throw failure : Command α).Unfolds S h history result h₁) :
    history = [] ∧ result = .error failure ∧ h₁ = h := by
  cases hunfolds
  exact ⟨rfl, rfl, rfl⟩

/-- A command that begins with a look goes on from the hub that it saw. -/
theorem Unfolds.of_look {look : Outside → Hub → α} {result : Except Failure β}
    (hunfolds : (Command.look look >>= f).Unfolds S h history result h₂) :
    ∃ o h₁, S.sees o ∧ S.meanwhile h h₁ ∧ (f (look o h₁)).Unfolds S h₁ history result h₂ := by
  cases hunfolds with
  | read o hsees hothers hnext => exact ⟨o, _, hsees, hothers, hnext⟩

/-- A command that begins with a change goes on from the hub that this leaves. -/
theorem Unfolds.of_change {change : Outside → Hub → Hub} {f : Unit → Command β}
    {result : Except Failure β}
    (hunfolds : (Command.change change >>= f).Unfolds S h history result h₂) :
    ∃ o h₁ rest, S.meanwhile h h₁ ∧ history = .changed h₁ (change o h₁) :: rest ∧
      (f ()).Unfolds S (change o h₁) rest result h₂ := by
  cases hunfolds with
  | read o _ hothers hnext =>
    cases hnext with
    | write _ hrest => exact ⟨o, _, _, hothers, rfl, hrest⟩

theorem Unfolds.of_last_change {change : Outside → Hub → Hub} {result : Except Failure Unit}
    (hunfolds : (Command.change change).Unfolds S h history result h₂) :
    ∃ o h₁, S.meanwhile h h₁ ∧ history = [.changed h₁ (change o h₁)] ∧ result = .ok () ∧
      h₂ = change o h₁ := by
  cases hunfolds with
  | read o _ hothers hnext =>
    cases hnext with
    | write _ hrest =>
      cases hrest
      exact ⟨o, _, hothers, rfl, rfl, rfl⟩

/-- A command that begins with a step goes on from the hub that this leaves, if it went well. -/
theorem Unfolds.of_step {step : Outside → Hub → Hub.Outcome α} {result : Except Failure β}
    (hunfolds : (Command.step step >>= f).Unfolds S h history result h₂) :
    ∃ o h₁ rest, S.sees o ∧ S.meanwhile h h₁ ∧ history = .changed h₁ (step o h₁).2 :: rest ∧
      ∀ value, (step o h₁).1 = .ok value → (f value).Unfolds S (step o h₁).2 rest result h₂ := by
  cases hunfolds with
  | @read _ _ h₁ _ _ _ o hsees hothers hnext =>
    cases hnext with
    | @write _ _ _ rest _ _ hrest =>
      refine ⟨o, h₁, rest, hsees, hothers, rfl, fun value hvalue => ?_⟩
      rw [hvalue] at hrest
      exact hrest

/-- A command that begins with a call goes on with the answer, or fails as the call does. -/
theorem Unfolds.of_call {c : Call} {f : c.Answer → Command β} {result : Except Failure β}
    (hunfolds : (Command.call c >>= f).Unfolds S h history result h₂) :
    (∃ answer rest, S.replies c (.ok answer) ∧ history = .answered c (.ok answer) :: rest ∧
      (f answer).Unfolds S h rest result h₂) ∨
    ∃ failure, S.replies c (.error failure) ∧ history = [.answered c (.error failure)] ∧
      result = .error failure ∧ h₂ = h := by
  cases hunfolds with
  | @call _ _ _ _ rest _ reply hreply hnext =>
    cases reply with
    | ok answer => exact .inl ⟨answer, rest, hreply, rfl, hnext⟩
    | error failure =>
      cases hnext
      exact .inr ⟨failure, hreply, rfl, rfl, rfl⟩

theorem Unfolds.of_last_call {c : Call} {result : c.Reply}
    (hunfolds : (Command.call c).Unfolds S h history result h₂) :
    S.replies c result ∧ history = [.answered c result] ∧ h₂ = h := by
  cases hunfolds with
  | call reply hreply hnext =>
    cases hnext
    exact ⟨hreply, rfl, rfl⟩

/-- A command that begins with an outcome goes on with it. -/
theorem Unfolds.of_outcome {f : Except Failure α → Command β} {result : Except Failure β}
    (hunfolds : (outcome c >>= f).Unfolds S h history result h₂) :
    ∃ value h₁ first rest, c.Unfolds S h first value h₁ ∧
      (f value).Unfolds S h₁ rest result h₂ ∧ history = first ++ rest := by
  obtain ⟨_, h₁, first, rest, houtcome, hrest, rfl⟩ := Program.Unfolds.of_bind hunfolds
  obtain ⟨value, h₀, _, _, hc, hdone, rfl⟩ := Program.Unfolds.of_bind houtcome
  cases hdone
  exact ⟨value, h₁, _, rest, hc, hrest, by rw [List.append_nil]⟩

end Command

/-! ## A house with one player -/

namespace House

/-- The queue of the only player is left alone, and the collaborators answer so. -/
def setting (answers : Answers) : Setting :=
  { sees := (· = world), replies := replies answers, meanwhile := Hub.SameEntry "den" }

theorem spares_setting (answers : Answers) : (setting answers).Spares "den" :=
  fun _ _ hsame => hsame

theorem open_setting (answers : Answers) : (setting answers).Open :=
  ⟨⟨world, rfl⟩, total_replies answers, fun _ => rfl⟩

theorem unfolds_setting {α : Type} (answers : Answers) (p : Program α) (h : Hub) :
    p.Unfolds (setting answers) h (p.historyAlone world answers h) (p.alone world answers h).1
      (p.alone world answers h).2 :=
  Program.unfolds_alone (S := setting answers) rfl (fun _ => rfl) (fun _ => rfl) p h

end House

end Jukebox
