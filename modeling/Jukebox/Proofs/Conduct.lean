import Jukebox.Proofs.Act
import Jukebox.Proofs.Session

/-!
# The conduct of programs

Rules say which acts a program may do and which calls it may make. A program obeys them when,
whatever it sees and whatever it is answered, each of its changes is an allowed act on the hub that
it saw at that instant. Obedience is put together along the program; what every allowed act keeps
is then kept by every stop of it.
-/

namespace Jukebox

/-- What a program may do. -/
structure Rules where
  act : Act → Prop
  call : Call → Prop

/-- Rules are stricter than others when these allow all that they allow. -/
instance : LE Rules := ⟨fun R S => (∀ a, R.act a → S.act a) ∧ ∀ c, R.call c → S.call c⟩

theorem Rules.le_trans {R S T : Rules} (hRS : R ≤ S) (hST : S ≤ T) : R ≤ T :=
  ⟨fun a ha => hST.1 a (hRS.1 a ha), fun c hc => hST.2 c (hRS.2 c hc)⟩

namespace Program

variable {α β : Type} (R : Rules)

/-- Whether a program obeys the rules and ends with values for which `Q` holds. `seen` is the hub
that it may change at this instant. -/
def Yields (Q : α → Prop) : Option (Outside × Hub) → Program α → Prop
  | _, done value => Q value
  | _, read next => ∀ o h, (next o h).Yields Q (some (o, h))
  | some (o, h), write h' next => (∃ a, R.act a ∧ h' = a.apply o h) ∧ next.Yields Q none
  | none, write _ _ => False
  | _, call c next => R.call c ∧ ∀ reply, (next reply).Yields Q none
  | _, sleep _ next => next.Yields Q none
  | _, turn next => next.Yields Q none

variable {R} {P : α → Prop} {Q : β → Prop}

/-- What may be done without having seen the hub may be done after seeing it. -/
theorem Yields.seen {p : Program α} (hp : p.Yields R P none) (seen : Option (Outside × Hub)) :
    p.Yields R P seen := by
  cases seen with
  | none => exact hp
  | some at_ =>
    cases p with
    | write h next => exact hp.elim
    | _ => exact hp

theorem Yields.mono {S : Rules} {P' : α → Prop} (hact : ∀ a, R.act a → S.act a)
    (hcall : ∀ c, R.call c → S.call c) (hP : ∀ v, P v → P' v) {p : Program α}
    {seen : Option (Outside × Hub)} (hp : p.Yields R P seen) : p.Yields S P' seen := by
  induction p generalizing seen with
  | done value => exact hP value hp
  | read next ih => exact fun o h => ih o h (hp o h)
  | write h next ih =>
    cases seen with
    | none => exact hp.elim
    | some at_ =>
      obtain ⟨⟨a, ha, heq⟩, hnext⟩ := hp
      exact ⟨⟨a, hact a ha, heq⟩, ih hnext⟩
  | call c next ih => exact ⟨hcall c hp.1, fun reply => ih reply (hp.2 reply)⟩
  | sleep ms next ih => exact @ih none hp
  | turn next ih => exact @ih none hp

theorem Yields.bind {p : Program α} {f : α → Program β} {seen : Option (Outside × Hub)}
    (hp : p.Yields R P seen) (hf : ∀ v, P v → (f v).Yields R Q none) :
    (p.bind f).Yields R Q seen := by
  induction p generalizing seen with
  | done value => exact (hf value hp).seen seen
  | read next ih => exact fun o h => ih o h (hp o h)
  | write h next ih =>
    cases seen with
    | none => exact hp.elim
    | some at_ => exact ⟨hp.1, ih hp.2⟩
  | call c next ih => exact ⟨hp.1, fun reply => ih reply (hp.2 reply)⟩
  | sleep ms next ih => exact ih hp
  | turn next ih => exact ih hp

/-- An obedient program changes the hub by one allowed act at most, and goes on obediently. -/
theorem Yields.advance {p : Program α} (hp : p.Yields R P none) (o : Outside) (answers : Answers)
    (h : Hub) :
    (p.advance o answers h).1.Yields R P none ∧
      ((p.advance o answers h).2 = h ∨
        ∃ a, (R.act a ∨ a = .takeTurn) ∧ (p.advance o answers h).2 = a.apply o h) := by
  cases p with
  | done value => exact ⟨hp, .inl rfl⟩
  | read next =>
    have hnext := hp o h
    cases hcase : next o h with
    | write h' rest =>
      rw [hcase] at hnext
      obtain ⟨⟨a, ha, heq⟩, hrest⟩ := hnext
      simp only [Program.advance, hcase]
      exact ⟨hrest, .inr ⟨a, .inl ha, heq⟩⟩
    | _ =>
      rw [hcase] at hnext
      simp only [Program.advance, hcase]
      exact ⟨hnext, .inl trivial⟩
  | write h' next => exact hp.elim
  | call c next => exact ⟨hp.2 (answers c), .inl rfl⟩
  | sleep ms next => exact ⟨hp, .inl rfl⟩
  | turn next => exact ⟨hp, .inr ⟨.takeTurn, .inr rfl, rfl⟩⟩

/-- What a program reads before it goes on without a change. -/
theorem advance_read {next : Outside → Hub → Program α} {o : Outside} {h : Hub}
    (hnext : ∀ h' rest, next o h ≠ .write h' rest) (answers : Answers) :
    (read next).advance o answers h = (next o h, h) := by
  cases hcase : next o h with
  | write h' rest => exact absurd hcase (hnext h' rest)
  | _ => simp only [Program.advance, hcase]

/-- A program that begins another one goes on by itself until it is done. -/
theorem advance_bind {p : Program α} {f : α → Program β} (hgoing : p.isDone = false)
    (o : Outside) (answers : Answers) (h : Hub)
    (hf : ∀ v, (p.advance o answers h).1 = .done v → ∀ h' rest, f v ≠ .write h' rest) :
    (p.bind f).advance o answers h =
      ((p.advance o answers h).1.bind f, (p.advance o answers h).2) := by
  cases p with
  | done value => cases hgoing
  | read next =>
    cases hcase : next o h with
    | done value =>
      have hread : (read next).advance o answers h = (next o h, h) :=
        advance_read (by simp [hcase]) answers
      rw [hread, hcase]
      refine advance_read (fun h' rest hwrite => ?_) answers |>.trans ?_
      · refine hf value ?_ h' rest (by simpa only [hcase, Program.bind] using hwrite)
        rw [hread, hcase]
      · rw [hcase]
    | _ => simp only [Program.bind, Program.advance, hcase]
  | _ => rfl

end Program

namespace Command

variable {α β : Type} (R : Rules)

/-- Whether a command obeys the rules and `Q` holds of what it ends with, if it does not fail. -/
def Yields (Q : α → Prop) (c : Command α) : Prop :=
  c.run.Yields R (fun result => ∀ v, result = .ok v → Q v) none

/-- Whether a command obeys the rules. -/
def Obeys (c : Command α) : Prop := c.Yields R fun _ => True

variable {R} {P : α → Prop} {Q : β → Prop}

theorem Yields.obeys {c : Command α} (hc : c.Yields R P) : c.Obeys R :=
  Program.Yields.mono (fun _ ha => ha) (fun _ hc => hc) (fun _ _ _ _ => trivial) hc

theorem Obeys.yields_run {c : Command α} (hc : c.Obeys R) :
    c.run.Yields R (fun _ => True) none :=
  Program.Yields.mono (fun _ ha => ha) (fun _ hc => hc) (fun _ _ => trivial) hc

theorem Obeys.mono {S : Rules} {c : Command α} (hc : c.Obeys R)
    (hact : ∀ a, R.act a → S.act a) (hcall : ∀ c, R.call c → S.call c) : c.Obeys S :=
  Program.Yields.mono hact hcall (fun _ _ _ _ => trivial) hc

theorem Yields.weaken {P' : α → Prop} {c : Command α} (hc : c.Yields R P) (h : ∀ v, P v → P' v) :
    c.Yields R P' :=
  Program.Yields.mono (fun _ ha => ha) (fun _ hc => hc) (fun _ hP v hv => h v (hP v hv)) hc

/-- What obeys strict rules obeys lenient ones. -/
theorem Obeys.within {S : Rules} {c : Command α} (hc : c.Obeys R) (h : R ≤ S) : c.Obeys S :=
  hc.mono h.1 h.2

theorem Yields.bind {c : Command α} {f : α → Command β} (hc : c.Yields R P)
    (hf : ∀ v, P v → (f v).Yields R Q) : (c >>= f).Yields R Q := by
  refine Program.Yields.bind hc fun result hresult => ?_
  cases result with
  | error failure => exact fun v hv => nomatch hv
  | ok v => exact hf v (hresult v rfl)

theorem Obeys.bind {c : Command α} {f : α → Command β} (hc : c.Obeys R)
    (hf : ∀ v, (f v).Obeys R) : (c >>= f).Obeys R :=
  Yields.bind hc fun v _ => hf v

theorem Yields.pure {v : α} (hv : P v) : (pure v : Command α).Yields R P := by
  rintro w hw
  cases hw
  exact hv

theorem obeys_pure (v : α) : (pure v : Command α).Obeys R := Yields.pure trivial

theorem obeys_throw (failure : Failure) : (throw failure : Command α).Obeys R :=
  fun _ hv => nomatch hv

theorem obeys_ite (p : Prop) [Decidable p] {c d : Command α} (hc : c.Obeys R)
    (hd : d.Obeys R) : (if p then c else d).Obeys R := by
  by_cases hp : p
  · rw [if_pos hp]
    exact hc
  · rw [if_neg hp]
    exact hd

/-- The outcome of a command is a value of it or a failure. -/
theorem Yields.outcome {c : Command α} (hc : c.Yields R P) :
    (outcome c).Yields R fun result => ∀ v, result = .ok v → P v := by
  refine Program.Yields.bind hc fun result hresult => ?_
  rintro _ hv
  cases hv
  exact hresult

theorem Obeys.outcome {c : Command α} (hc : c.Obeys R) : (outcome c).Obeys R :=
  (Yields.outcome hc).obeys

theorem obeys_when (p : Prop) [Decidable p] {c : Command α} {d : Command β} (hc : c.Obeys R)
    (hd : d.Obeys R) : (if p then c >>= fun _ => d else d).Obeys R :=
  obeys_ite p (hc.bind fun _ => hd) hd

theorem yields_look {f : Outside → Hub → α} (hf : ∀ o h, P (f o h)) : (look f).Yields R P := by
  rintro o h _ hv
  cases hv
  exact hf o h

theorem obeys_look (f : Outside → Hub → α) : (look f).Obeys R := yields_look fun _ _ => trivial

theorem yields_step {f : Outside → Hub → Hub.Outcome α}
    (hf : ∀ o h, (∃ a, R.act a ∧ (f o h).2 = a.apply o h) ∧ ∀ v, (f o h).1 = .ok v → P v) :
    (step f).Yields R P :=
  hf

theorem obeys_step {f : Outside → Hub → Hub.Outcome α} {a : Act} (ha : R.act a)
    (hf : ∀ o h, (f o h).2 = a.apply o h) : (step f).Obeys R :=
  yields_step fun o h => ⟨⟨a, ha, hf o h⟩, fun _ _ => trivial⟩

theorem obeys_change {f : Outside → Hub → Hub} {a : Act} (ha : R.act a)
    (hf : ∀ o h, f o h = a.apply o h) : (change f).Obeys R :=
  fun o h => ⟨⟨a, ha, hf o h⟩, fun _ _ => trivial⟩

theorem obeys_call {c : Call} (hc : R.call c) : (call c).Obeys R :=
  ⟨hc, fun _ _ _ => trivial⟩

theorem obeys_sleep (ms : Nat) : (sleep ms).Obeys R := fun _ _ => trivial

theorem obeys_awaitTurn (pace : Pace) : (awaitTurn pace).Obeys R := by
  cases pace with
  | interactive => exact obeys_pure ()
  | background => exact fun _ _ => trivial

end Command

end Jukebox
