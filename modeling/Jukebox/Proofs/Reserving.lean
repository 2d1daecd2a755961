import Jukebox.Proofs.Placing
import Jukebox.Proofs.Saving
import Mathlib.Logic.Relation

/-!
# Queues that others leave alone

A program that runs while nobody else does anything to a queue (`Setting.Reserves`): then only what
the program changes itself can make a difference to the queue, to what is stored of it and to what
is published about it. Where its history has no change, nothing but others changed the hub
(`Program.Unfolds.others`), and where the program obeys rules every change in its history is an act
that they allow (`Program.Unfolds.acts`).
-/

namespace Jukebox

namespace Setting

variable {S : Setting} {queueId : String} {h h' : Hub}

/-- Whether nobody else does anything to a queue, to what is stored of it, and publishes nothing
about it. -/
def Reserves (S : Setting) (queueId : String) : Prop :=
  ∀ h h', S.meanwhile h h' → h.LeavesAlone queueId h'

/-- Whether the store takes everything that is written of a queue. -/
def Stores (S : Setting) (queueId : String) : Prop :=
  ∀ o, S.sees o → ∀ key, o.faults.writing (Store.queueBase queueId) key = false

/-- However often others do something, the queue stays as it is. -/
theorem Spares.entry?_eq (hS : S.Spares queueId)
    (hothers : Relation.ReflTransGen S.meanwhile h h') : h'.entry? queueId = h.entry? queueId := by
  induction hothers with
  | refl => rfl
  | tail _ hlast ih => exact (hS _ _ hlast).trans ih

theorem Reserves.spares (hS : S.Reserves queueId) : S.Spares queueId :=
  fun h h' hothers => (hS h h' hothers).entry

theorem Reserves.leavesAlone (hS : S.Reserves queueId)
    (hothers : Relation.ReflTransGen S.meanwhile h h') : h.LeavesAlone queueId h' := by
  induction hothers with
  | refl => exact .refl h queueId
  | tail _ hlast ih => exact ih.trans (hS _ _ hlast)

end Setting

namespace Program.Unfolds

variable {α : Type} {S : Setting} {R : Rules} {Q : α → Prop} {p : Program α} {h h₁ : Hub}
  {history : List Happening} {value : α}

/-- A program that changed nothing ends on a hub that only others changed. -/
theorem others (hunfolds : p.Unfolds S h history value h₁)
    (hquiet : ∀ before after, Happening.changed before after ∉ history) :
    Relation.ReflTransGen S.meanwhile h h₁ := by
  induction hunfolds with
  | done => exact .refl
  | read _ _ hothers _ ih => exact .head hothers (ih hquiet)
  | write => exact absurd List.mem_cons_self (hquiet _ _)
  | call _ _ _ ih => exact ih fun before after hlater => hquiet before after (.tail _ hlater)
  | sleep _ ih => exact ih hquiet
  | turn => exact absurd List.mem_cons_self (hquiet _ _)

/-- Every change of an obedient program is an allowed act, or that it takes its turn. -/
theorem acts (hunfolds : p.Unfolds S h history value h₁) {seen : Option (Outside × Hub)}
    (hp : p.Yields R Q seen) (hseen : ∀ o h', seen = some (o, h') → h' = h) {before after : Hub}
    (hchanged : Happening.changed before after ∈ history) :
    ∃ o a, (R.act a ∨ a = .takeTurn) ∧ after = a.apply o before := by
  -- A rule is about the hub that was seen last, and nothing happens between that and a write.
  induction hunfolds generalizing seen with
  | done => cases hchanged
  | @read next h h' _ _ _ o _ _ _ ih =>
    have hnext : (next o h').Yields R Q (some (o, h')) := by
      cases seen <;> exact hp o h'
    refine ih hnext ?_ hchanged
    rintro _ _ ⟨⟩
    rfl
  | write h _ ih =>
    cases seen with
    | none => exact hp.elim
    | some at_ =>
      obtain ⟨o, g⟩ := at_
      cases hseen o g rfl
      obtain ⟨⟨a, ha, heq⟩, hnext⟩ := hp
      rcases List.mem_cons.1 hchanged with hnow | hlater
      · cases hnow
        exact ⟨o, a, .inl ha, heq⟩
      · exact ih hnext (fun _ _ hnone => nomatch hnone) hlater
  | @call c next _ _ _ _ reply _ _ ih =>
    have hnext : (next reply).Yields R Q none := by
      cases seen <;> exact hp.2 reply
    rcases List.mem_cons.1 hchanged with hnow | hlater
    · cases hnow
    · exact ih hnext (fun _ _ hnone => nomatch hnone) hlater
  | @sleep _ next _ _ _ _ _ ih =>
    have hnext : next.Yields R Q none := by
      cases seen <;> exact hp
    exact ih hnext (fun _ _ hnone => nomatch hnone) hchanged
  | @turn next h _ _ _ o _ ih =>
    have hnext : next.Yields R Q none := by
      cases seen <;> exact hp
    rcases List.mem_cons.1 hchanged with hnow | hlater
    · cases hnow
      exact ⟨o, .takeTurn, .inr rfl, rfl⟩
    · exact ih hnext (fun _ _ hnone => nomatch hnone) hlater

end Program.Unfolds

namespace Command

variable {β : Type} {S : Setting} {queueId : String} (hS : S.Spares queueId) {h h₁ : Hub}
  {history : List Happening} {result : Except Failure β}

include hS

/-- A command that begins with a known queue goes on with it when others did something. -/
theorem Unfolds.of_known_queue {e : Entry} (he : h.entry? queueId = some e) {f : Queue → Command β}
    (hunfolds : (queue queueId >>= f).Unfolds S h history result h₁) :
    ∃ h', S.meanwhile h h' ∧ (f e.queue).Unfolds S h' history result h₁ := by
  unfold queue entry at hunfolds
  rw [bind_assoc, bind_assoc] at hunfolds
  obtain ⟨o, h', -, hothers, hrest⟩ := hunfolds.of_look
  rw [(hS h h' hothers).trans he] at hrest
  exact ⟨h', hothers, hrest⟩

variable (hnone : h.entry? queueId = none)

include hnone

/-- A command that begins with an unknown queue ends with that. -/
theorem Unfolds.of_unknown {f : Entry → Command β}
    (hunfolds : (entry queueId >>= f).Unfolds S h history result h₁) :
    history = [] ∧ result = .error (.noQueue queueId) := by
  unfold entry at hunfolds
  rw [bind_assoc] at hunfolds
  obtain ⟨o, h', -, hothers, hrest⟩ := hunfolds.of_look
  rw [(hS h h' hothers).trans hnone] at hrest
  cases hrest
  exact ⟨rfl, rfl⟩

theorem Unfolds.of_unknown_queue {f : Queue → Command β}
    (hunfolds : (queue queueId >>= f).Unfolds S h history result h₁) :
    history = [] ∧ result = .error (.noQueue queueId) := by
  unfold queue at hunfolds
  rw [bind_assoc] at hunfolds
  exact Unfolds.of_unknown hS hnone hunfolds

end Command

/-! ## A house that nobody else is in -/

namespace House

/-- Nobody else does anything, and the collaborators answer so. -/
def alone (answers : Answers) : Setting :=
  { sees := (· = world), replies := replies answers, meanwhile := Eq }

theorem reserves_alone (answers : Answers) (queueId : String) :
    (alone answers).Reserves queueId := by
  rintro h _ rfl
  exact .refl h queueId

theorem stores_alone (answers : Answers) (queueId : String) : (alone answers).Stores queueId := by
  rintro _ rfl key
  rfl

theorem unfolds_alone {α : Type} (answers : Answers) (p : Program α) (h : Hub) :
    p.Unfolds (alone answers) h (p.historyAlone world answers h) (p.alone world answers h).1
      (p.alone world answers h).2 :=
  Program.unfolds_alone (S := alone answers) rfl (fun _ => rfl) (fun _ => rfl) p h

/-- What a command gives when it is computed is what it can give. -/
theorem exists_unfolds_ok {α : Type} (answers : Answers) (c : Command α) (h : Hub)
    (looks : α → Bool) (hgives : (c.run.alone world answers h).1.toOption.any looks = true) :
    ∃ history value h₁, c.Unfolds (alone answers) h history (.ok value) h₁ ∧
      looks value = true := by
  have hunfolds := unfolds_alone answers c.run h
  generalize c.run.alone world answers h = ended at hunfolds hgives
  rcases ended with ⟨failure | value, h₁⟩
  · cases hgives
  · exact ⟨_, value, h₁, hunfolds, hgives⟩

/-- What a command ends with when it is computed is what it can end with. -/
theorem exists_unfolds (c : Command Unit) (h : Hub) (result : Except Failure Unit)
    (looks : Hub → Bool)
    (hends : (decide ((c.run.alone world answers h).1 = result) &&
      looks (c.run.alone world answers h).2) = true) :
    ∃ history h₁, c.Unfolds (alone answers) h history result h₁ ∧ looks h₁ = true := by
  obtain ⟨hresult, hlooks⟩ := Bool.and_eq_true_iff.1 hends
  have hunfolds := unfolds_alone answers c.run h
  rw [of_decide_eq_true hresult] at hunfolds
  exact ⟨_, _, hunfolds, hlooks⟩

/-! ### Two players -/

/-- What a second player reports while it is idle. -/
def kitchen : PlayerReport := { den with playerId := "kitchen" }

/-- Both players come. -/
def twoPlayers : List (Outside × Move) := [(world, .register den), (world, .register kitchen)]

end House

end Jukebox
