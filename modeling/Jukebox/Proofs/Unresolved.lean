import Jukebox.Proofs.Histories

/-!
# References that can not be resolved

Two runs of one request are compared: in the second one the request has more references, which the
catalog can not resolve. A program that is alone takes one course (`Program.course`), as what it
finds around it says, which goes on with each call. The courses of both runs are the same but for
the calls that fail (`unresolved_without_trace`): the references that can not be resolved are left
out before anything is done for them (`Command.adds_gather`).
-/

namespace Jukebox

/-! ## Insertions -/

/-- Whether a list is another one with some elements more, all of which have a property. -/
inductive Inserted {α : Type} (P : α → Prop) : List α → List α → Prop
  | nil : Inserted P [] []
  | keep {xs ys : List α} (x : α) (hrest : Inserted P xs ys) : Inserted P (x :: xs) (x :: ys)
  | insert {xs ys : List α} {y : α} (hy : P y) (hrest : Inserted P xs ys) : Inserted P xs (y :: ys)

namespace Inserted

variable {α : Type} {P : α → Prop} {xs ys xs' ys' : List α}

theorem refl : ∀ xs : List α, Inserted P xs xs
  | [] => .nil
  | x :: xs => .keep x (refl xs)

theorem append (hfirst : Inserted P xs ys) (hrest : Inserted P xs' ys') :
    Inserted P (xs ++ xs') (ys ++ ys') := by
  induction hfirst with
  | nil => exact hrest
  | keep x _ ih => exact .keep x ih
  | insert hy _ ih => exact .insert hy ih

end Inserted

/-! ## Courses -/

/-- What a program finds around it when it is alone: a state says what is seen of the outside and
which replies calls get, and it goes on with each call and each sleep. -/
structure Surroundings (σ : Type) where
  sees : σ → Outside
  answer : (c : Call) → σ → c.Reply × σ
  sleep : Nat → σ → σ

/-- What a program did when it is done: the calls it made with their replies, its value, and the
world and the hub that it left. -/
structure Course (σ α : Type) where
  asked : List Answered
  value : α
  state : σ
  hub : Hub

variable {σ α β : Type}

/-- What a program that is alone can meet in its surroundings. -/
def Surroundings.setting (w : Surroundings σ) : Setting :=
  { sees := fun o => ∃ s, o = w.sees s
    replies := fun c reply => ∃ s, reply = (w.answer c s).1
    meanwhile := Eq }

namespace Course

def after (earlier : List Answered) (c : Course σ α) : Course σ α :=
  { c with asked := earlier ++ c.asked }

end Course

namespace Program

/-- The course of a program that is alone in a world. -/
def course (w : Surroundings σ) : Program α → σ → Hub → Course σ α
  | done value, s, h => ⟨[], value, s, h⟩
  | read next, s, h => (next (w.sees s) h).course w s h
  | write h next, s, _ => next.course w s h
  | call c next, s, h =>
    ((next (w.answer c s).1).course w (w.answer c s).2 h).after [⟨c, (w.answer c s).1⟩]
  | sleep ms next, s, h => next.course w (w.sleep ms s) h
  | turn next, s, h => next.course w s (Act.takeTurn.apply (w.sees s) h)

theorem course_bind (w : Surroundings σ) (p : Program α) (f : α → Program β) (s : σ) (h : Hub) :
    (p.bind f).course w s h =
      ((f (p.course w s h).value).course w (p.course w s h).state (p.course w s h).hub).after
        (p.course w s h).asked := by
  induction p generalizing s h with
  | done value => rfl
  | read next ih => exact ih _ _ s h
  | write h' next ih => exact ih s h'
  | call c next ih =>
    show (((next _).bind f).course w _ h).after _ = _
    rw [ih]
    rfl
  | sleep ms next ih => exact ih _ h
  | turn next ih => exact ih s _

/-- The course of a program is one of its runs. -/
theorem unfolds_course (w : Surroundings σ) (p : Program α) (s : σ) (h : Hub) :
    ∃ history, asked history = (p.course w s h).asked ∧
      p.Unfolds w.setting h history (p.course w s h).value (p.course w s h).hub := by
  induction p generalizing s h with
  | done value => exact ⟨[], rfl, .done value h⟩
  | read next ih =>
    obtain ⟨history, hasked, hnext⟩ := ih (w.sees s) h s h
    exact ⟨history, hasked, .read _ ⟨s, rfl⟩ rfl hnext⟩
  | write h' next ih =>
    obtain ⟨history, hasked, hnext⟩ := ih s h'
    exact ⟨.changed h h' :: history, hasked, .write h hnext⟩
  | call c next ih =>
    obtain ⟨history, hasked, hnext⟩ := ih (w.answer c s).1 (w.answer c s).2 h
    refine ⟨.answered c (w.answer c s).1 :: history, ?_, .call _ ⟨s, rfl⟩ hnext⟩
    rw [asked_answered, hasked]
    rfl
  | sleep ms next ih =>
    obtain ⟨history, hasked, hnext⟩ := ih (w.sleep ms s) h
    exact ⟨history, hasked, .sleep hnext⟩
  | turn next ih =>
    obtain ⟨history, hasked, hnext⟩ := ih s (Act.takeTurn.apply (w.sees s) h)
    exact ⟨.changed h _ :: history, hasked, .turn _ hnext⟩

end Program

/-! ## Lookups that fail -/

/-- Whether the catalog can not resolve a uri at any time, and is as before after it was asked. -/
def Surroundings.Lacks (w : Surroundings σ) (uri : String) : Prop :=
  ∀ s, ∃ failure, w.answer (.itemByUri uri) s = (.error failure, s)

/-- Whether a reference names media that the catalog can not resolve. -/
def Surroundings.Unresolved (w : Surroundings σ) (ref : MediaRef) : Prop :=
  ∃ uri, ref = .uri uri ∧ w.Lacks uri

/-- Whether a call is the lookup of a uri that the catalog can not resolve, and failed. -/
def Surroundings.LookupFailed (w : Surroundings σ) (a : Answered) : Prop :=
  ∃ uri failure, w.Lacks uri ∧ a = ⟨.itemByUri uri, .error failure⟩

/-- Whether a course is another one with lookups more, all of which failed. -/
structure Course.Adds (w : Surroundings σ) (bare full : Course σ α) : Prop where
  asked : Inserted w.LookupFailed bare.asked full.asked
  value_eq : full.value = bare.value
  state_eq : full.state = bare.state
  hub_eq : full.hub = bare.hub

namespace Course.Adds

variable {w : Surroundings σ} {bare full : Course σ α}

theorem refl (c : Course σ α) : c.Adds w c := ⟨.refl _, rfl, rfl, rfl⟩

theorem after {early early' : List Answered} (hearly : Inserted w.LookupFailed early early')
    (hadds : bare.Adds w full) : (bare.after early).Adds w (full.after early') :=
  ⟨hearly.append hadds.asked, hadds.value_eq, hadds.state_eq, hadds.hub_eq⟩

end Course.Adds

namespace Command

/-- Whether a command takes the courses of another one, with lookups more that fail. -/
def Adds (w : Surroundings σ) (bare full : Command α) : Prop :=
  ∀ s h, (bare.run.course w s h).Adds w (full.run.course w s h)

namespace Adds

variable {w : Surroundings σ} {c bare full : Command α} {f g : α → Command β}

theorem refl (c : Command α) : c.Adds w c := fun _ _ => .refl _

theorem bind_right (c : Command α) (hrest : ∀ value, (f value).Adds w (g value)) :
    (c >>= f).Adds w (c >>= g) := by
  intro s h
  show Course.Adds w ((c.run.bind (ExceptT.bindCont f)).course w s h)
    ((c.run.bind (ExceptT.bindCont g)).course w s h)
  rw [Program.course_bind, Program.course_bind]
  refine .after (.refl _) ?_
  cases (c.run.course w s h).value with
  | ok value => exact hrest value _ _
  | error failure => exact .refl _

theorem bind_left (hfirst : bare.Adds w full) (f : α → Command β) :
    (bare >>= f).Adds w (full >>= f) := by
  intro s h
  obtain ⟨hasked, hvalue, hstate, hhub⟩ := hfirst s h
  show Course.Adds w ((bare.run.bind (ExceptT.bindCont f)).course w s h)
    ((full.run.bind (ExceptT.bindCont f)).course w s h)
  rw [Program.course_bind, Program.course_bind, hvalue, hstate, hhub]
  exact .after hasked (.refl _)

theorem ite (p : Prop) [Decidable p] {bare' full' : Command α} (hthen : bare.Adds w full)
    (helse : bare'.Adds w full') :
    (if p then bare else bare').Adds w (if p then full else full') := by
  split
  · exact hthen
  · exact helse

theorem when (p : Prop) [Decidable p] (c : Command β) (hrest : bare.Adds w full) :
    (if p then c >>= fun _ => bare else bare).Adds w (if p then c >>= fun _ => full else full) :=
  .ite p (.bind_right c fun _ => hrest) hrest

end Adds

/-! ## Requests -/

variable {w : Surroundings σ}

/-- A reference that can not be resolved costs a call, and nothing else happens. -/
theorem adds_unresolved {uri : String} (hlacks : w.Lacks uri) {queueId : String} {radio : Bool}
    {start : Option String} {g : Gathered} {more : List MediaRef} {bare : Command Gathered}
    (hrest : bare.Adds w (gather queueId radio start g more)) :
    bare.Adds w (gather queueId radio start g (.uri uri :: more)) := by
  intro s h
  have hrun : (gather queueId radio start g (.uri uri :: more)).run =
      .call (.itemByUri uri) fun reply =>
        match reply with
        | .ok m => (gatherItem queueId radio start g m >>= fun g =>
            gather queueId radio start g more).run
        | .error _ => (gather queueId radio start g more).run :=
    congrArg (Program.call _) (funext fun reply => by cases reply <;> rfl)
  obtain ⟨failure, hfailed⟩ := hlacks s
  obtain ⟨hasked, hvalue, hstate, hhub⟩ := hrest s h
  rw [hrun, Program.course, hfailed]
  exact ⟨.insert ⟨uri, failure, hlacks, rfl⟩ hasked, hvalue, hstate, hhub⟩

/-- What is gathered for a request is the same without the references that can not be resolved. -/
theorem adds_gather {plain more : List MediaRef} (hmore : Inserted w.Unresolved plain more)
    (queueId : String) (radio : Bool) (start : Option String) (g : Gathered) :
    (gather queueId radio start g plain).Adds w (gather queueId radio start g more) := by
  induction hmore generalizing g with
  | nil => exact .refl _
  | keep ref _ ih =>
    refine .bind_right _ fun m => ?_
    cases m with
    | none => exact ih g
    | some m => exact .bind_right _ fun g => ih g
  | insert href _ ih =>
    obtain ⟨uri, rfl, hlacks⟩ := href
    exact adds_unresolved hlacks (ih g)

theorem adds_playMedia {plain more : List MediaRef} (hmore : Inserted w.Unresolved plain more)
    (queueId : String) (option : Option EnqueueOption) (radio : Bool) (start : Option String) :
    (playMedia queueId plain option radio start).Adds w
      (playMedia queueId more option radio start) := by
  have hgather := adds_gather hmore queueId radio start { option }
  refine .bind_right _ fun _ => .bind_right _ fun r => ?_
  cases r with
  | none => exact .refl _
  | some r =>
    refine .ite _ (.refl _) (.bind_right _ fun _ => ?_)
    exact .when _ _ (.when _ _ (.bind_left hgather _))

end Command

/-- A request with more references, wherever they are, which the catalog can not resolve ends as
without them: with the same result, and the same queues, store, jobs and events. Besides the lookups
of these references, which fail, it makes the same calls. -/
theorem unresolved_without_trace (w : Surroundings σ) {plain more : List MediaRef}
    (hmore : Inserted w.Unresolved plain more) (queueId : String) (option : Option EnqueueOption)
    (radio : Bool) (start : Option String) (s : σ) (h : Hub) :
    let bare := (Command.playMedia queueId plain option radio start).run.course w s h
    let full := (Command.playMedia queueId more option radio start).run.course w s h
    full.value = bare.value ∧ full.hub = bare.hub ∧ full.state = bare.state ∧
      Inserted w.LookupFailed bare.asked full.asked := by
  intro bare full
  obtain ⟨hasked, hvalue, hstate, hhub⟩ :=
    Command.adds_playMedia hmore queueId option radio start s h
  exact ⟨hvalue, hhub, hstate, hasked⟩

/-- The catalog resolves nothing, and all other calls are counted. -/
def House.surroundings : Surroundings Nat where
  sees _ := world
  answer
    | .itemByUri uri, calls => (.error (.notFound uri), calls)
    | c, calls => (answers c, calls + 1)
  sleep _ calls := calls

/-- A track is added in the same way between two references that can not be resolved. -/
theorem track_added_without_trace :
    let w := House.surroundings
    let h := (House.session.run [(House.world, .register House.den)]).hub
    let course := fun media =>
      (Command.playMedia "den" media none false none).run.course w 0 h
    let bare := course [.item (House.track "a")]
    let full := course [.uri "x", .item (House.track "a"), .uri "y"]
    (full.value = bare.value ∧ full.hub = bare.hub ∧ full.state = bare.state ∧
        Inserted w.LookupFailed bare.asked full.asked) ∧
      ids (bare.hub.items "den") = ["qi1"] ∧ full.asked.length = bare.asked.length + 2 := by
  intro w h course bare full
  have hlacks : ∀ uri, w.Unresolved (.uri uri) := fun uri =>
    ⟨uri, rfl, fun calls => ⟨.notFound uri, rfl⟩⟩
  refine ⟨unresolved_without_trace w ?_ "den" none false none 0 h, ?_, ?_⟩
  · exact .insert (hlacks "x") (.keep _ (.insert (hlacks "y") .nil))
  · decide +kernel
  · decide +kernel

end Jukebox
