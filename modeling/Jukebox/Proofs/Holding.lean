import Jukebox.Proofs.Adding

/-!
# States that are held

A command that looks up an item to play it makes the queue buffer, and holds the state before until
the item is found or not. What such commands may do to the state of a queue is a few shifts
(`Hub.Shifts`). At an instant a program sees the hub as it is, so that the state that it holds is
the one that the queue was in when it began to buffer (`Program.Minds`). Every request gives back
what it held (`Request.command_returns`).
-/

namespace Jukebox

/-! ## The state of a queue -/

/-- The state of a queue, if there is one. -/
def Hub.state? (h : Hub) (queueId : String) : Option PlayerState :=
  (h.entry? queueId).map fun e => e.queue.state

/-- The state of a queue that settles on another one. -/
def PlayerState.settle (prior state : PlayerState) : PlayerState :=
  if state = .buffering then prior else state

theorem Queue.state_settle (q : Queue) (prior : PlayerState) :
    (q.settle prior).state = prior.settle q.state := by
  unfold Queue.settle PlayerState.settle
  split <;> rfl

namespace Hub

variable {h : Hub} {queueId : String}

theorem state?_modifyQueue (target : String) (f : Queue → Queue) :
    state? (h.modifyQueue target f) queueId =
      if queueId = target then (h.entry? queueId).map fun e => (f e.queue).state
      else h.state? queueId := by
  unfold state?
  rw [entry?_modifyQueue]
  split
  · rw [Option.map_map]
    rfl
  · rfl

theorem state?_of_entry {h' : Hub} (hentry : h'.entry? queueId = h.entry? queueId) :
    h'.state? queueId = h.state? queueId := by
  rw [state?, hentry, state?]

end Hub

theorem Act.KeepsState.state?_apply {a : Act} (ha : a.KeepsState) (o : Outside) (h : Hub)
    (queueId : String) : Hub.state? (a.apply o h) queueId = h.state? queueId := by
  have hreport : ∀ r, a ≠ .report r := by
    rintro r rfl
    exact ha
  cases htarget : a.queueId? with
  | none =>
    refine Hub.state?_of_entry (Hub.entry?_apply_of_none o htarget ?_ ?_ queueId)
    · rintro r rfl
      exact ha
    · rintro playerId rfl
      exact ha
  | some target =>
    have htouches :=
      Hub.touches_apply o (h := h) (fun r hr => absurd hr (hreport r)) htarget queueId
    by_cases hsame : queueId = target
    · rw [if_pos hsame] at htouches
      rw [Hub.state?, htouches, Option.map_map, Hub.state?]
      congr 1
      exact funext fun e => ha.state_edit o h e
    · rw [if_neg hsame] at htouches
      exact Hub.state?_of_entry htouches

/-! ## Shifts -/

/-- What a change may do to the state of a queue, and to what a program holds: both stay, or the
program begins to hold the state that is there, or the queue settles on what the program held. -/
inductive Hub.Shifts (queueId : String) (h h' : Hub) :
    Option PlayerState → Option PlayerState → Prop
  | keep (held : Option PlayerState) (hstate : h'.state? queueId = h.state? queueId) :
      Shifts queueId h h' held held
  | hold (prior : PlayerState) (hprior : h.state? queueId = some prior) :
      Shifts queueId h h' none (some prior)
  | settle (prior : PlayerState)
      (hstate : h'.state? queueId = (h.state? queueId).map prior.settle) :
      Shifts queueId h h' (some prior) none

namespace Program

variable {α β : Type} (queueId : String)

/-- Whether a program shifts the state of a queue, from what it holds on, until it ends with
something for which `Q` holds. `seen` is the hub at this instant, as far as it was seen. -/
def Minds (Q : Option PlayerState → Option (Outside × Hub) → α → Prop) :
    Option PlayerState → Option (Outside × Hub) → Program α → Prop
  | held, seen, done value => Q held seen value
  | held, none, read next => ∀ o h, (next o h).Minds Q held (some (o, h))
  | held, some (o, h), read next => (next o h).Minds Q held (some (o, h))
  | held, some (o, h), write h' next =>
    ∃ held', ((∃ a : Act, h' = a.apply o h) ∧ h.Shifts queueId h' held held') ∧
      next.Minds Q held' (some (o, h'))
  | _, none, write _ _ => False
  | held, _, call _ next => ∀ reply, (next reply).Minds Q held none
  | held, _, sleep _ next => next.Minds Q held none
  | held, _, turn next => next.Minds Q held none

variable {queueId} {P : Option PlayerState → Option (Outside × Hub) → α → Prop}
  {Q : Option PlayerState → Option (Outside × Hub) → β → Prop} {held : Option PlayerState}

theorem Minds.bind {p : Program α} {f : α → Program β} {seen : Option (Outside × Hub)}
    (hp : p.Minds queueId P held seen)
    (hf : ∀ held seen v, P held seen v → (f v).Minds queueId Q held seen) :
    (p.bind f).Minds queueId Q held seen := by
  induction p generalizing held seen with
  | done value => exact hf held seen value hp
  | read next ih =>
    cases seen with
    | none => exact fun o h => ih o h (hp o h)
    | some at_ => exact ih at_.1 at_.2 hp
  | write h' next ih =>
    cases seen with
    | none => exact hp.elim
    | some at_ =>
      obtain ⟨held', hshift, hnext⟩ := hp
      exact ⟨held', hshift, ih hnext⟩
  | call c next ih => exact fun reply => ih reply (hp reply)
  | sleep ms next ih => exact ih hp
  | turn next ih => exact ih hp

/-- What may be done without having seen the hub may be done after seeing it. -/
theorem Minds.afterSeeing {P : Option PlayerState → α → Prop} {p : Program α}
    (hp : p.Minds queueId (fun held _ => P held) held none) (seen : Option (Outside × Hub)) :
    p.Minds queueId (fun held _ => P held) held seen := by
  cases seen with
  | none => exact hp
  | some at_ =>
    cases p with
    | read next => exact hp at_.1 at_.2
    | write h next => exact hp.elim
    | _ => exact hp

theorem Minds.mono {P' : Option PlayerState → Option (Outside × Hub) → α → Prop} {p : Program α}
    {seen : Option (Outside × Hub)} (hp : p.Minds queueId P held seen)
    (hP : ∀ held seen v, P held seen v → P' held seen v) : p.Minds queueId P' held seen := by
  rw [← p.bind_done]
  exact hp.bind hP

end Program

/-- The rules of programs that leave the state of a queue alone. -/
def Rules.sparing (queueId : String) : Rules :=
  { act := fun a => ∀ o h, Hub.state? (a.apply o h) queueId = h.state? queueId
    call := fun _ => True }

theorem Rules.keepingState_le_sparing (queueId : String) :
    Rules.keepingState ≤ Rules.sparing queueId :=
  ⟨fun _ ha o h => ha.state?_apply o h queueId, fun _ _ => trivial⟩

/-- A program that leaves the state alone holds what it held. -/
theorem Program.Yields.minds {α : Type} {queueId : String} {P : α → Prop} {p : Program α}
    {seen : Option (Outside × Hub)} (hp : p.Yields (.sparing queueId) P seen)
    (held : Option PlayerState) :
    p.Minds queueId (fun held' _ value => held' = held ∧ P value) held seen := by
  induction p generalizing seen with
  | done value => exact ⟨rfl, hp⟩
  | read next ih =>
    cases seen with
    | none => exact fun o h => ih o h (hp o h)
    | some at_ => exact ih at_.1 at_.2 (hp at_.1 at_.2)
  | write h' next ih =>
    cases seen with
    | none => exact hp.elim
    | some at_ =>
      obtain ⟨⟨a, ha, heq⟩, hnext⟩ := hp
      refine ⟨held, ⟨⟨a, heq⟩, .keep held ?_⟩,
        Minds.afterSeeing (P := fun held' value => held' = held ∧ P value) (ih hnext) _⟩
      rw [heq]
      exact ha at_.1 at_.2
  | call c next ih => exact fun reply => ih reply (hp.2 reply)
  | sleep ms next ih => exact @ih none hp
  | turn next ih => exact @ih none hp

namespace Command

variable {α β : Type} (queueId : String)

/-- Whether a command shifts the state of a queue until it ends with something for which `Q` holds;
if it fails it holds nothing any more. -/
def Minds (Q : Option PlayerState → Option (Outside × Hub) → α → Prop) (held : Option PlayerState)
    (seen : Option (Outside × Hub)) (c : Command α) : Prop :=
  c.run.Minds queueId (fun held seen result =>
    match result with
    | .ok v => Q held seen v
    | .error _ => held = none) held seen

/-- Whether a command, however it ends, gives back what it held of a queue. -/
def Returns (c : Command α) : Prop := c.Minds queueId (fun held _ _ => held = none) none none

variable {queueId} {P : Option PlayerState → Option (Outside × Hub) → α → Prop}
  {Q : Option PlayerState → Option (Outside × Hub) → β → Prop} {held : Option PlayerState}

theorem Minds.bind {c : Command α} {f : α → Command β} {seen : Option (Outside × Hub)}
    (hc : c.Minds queueId P held seen)
    (hf : ∀ held seen v, P held seen v → (f v).Minds queueId Q held seen) :
    (c >>= f).Minds queueId Q held seen := by
  refine Program.Minds.bind hc fun held seen result hresult => ?_
  cases result with
  | error failure => exact hresult
  | ok v => exact hf held seen v hresult

theorem Minds.afterSeeing {P : Option PlayerState → α → Prop} {c : Command α}
    (hc : c.Minds queueId (fun held _ => P held) held none) (seen : Option (Outside × Hub)) :
    c.Minds queueId (fun held _ => P held) held seen :=
  Program.Minds.afterSeeing hc seen

theorem Obeys.minds {c : Command α} (hc : c.Obeys (.sparing queueId)) (held : Option PlayerState)
    (seen : Option (Outside × Hub)) :
    (Command.outcome c).Minds queueId (fun held' _ _ => held' = held) held seen := by
  have hrun := Program.Minds.afterSeeing (P := fun held' _ => held' = held ∧ True)
    (hc.yields_run.minds held) seen
  refine Program.Minds.bind hrun ?_
  rintro held seen result ⟨rfl, -⟩
  exact rfl

/-- What leaves the state alone may come before what gives back. -/
theorem Yields.returns_bind {P : α → Prop} {c : Command α} {f : α → Command β}
    (hc : c.Yields (.sparing queueId) P) (hf : ∀ v, P v → (f v).Returns queueId) :
    (c >>= f).Returns queueId := by
  refine Program.Minds.bind (Program.Yields.minds hc none) ?_
  rintro held seen result ⟨rfl, hresult⟩
  cases result with
  | error failure => exact rfl
  | ok v => exact Minds.afterSeeing (P := fun held _ => held = none) (hf v (hresult v rfl)) seen

theorem Obeys.returns {c : Command α} (hc : c.Obeys (.sparing queueId)) : c.Returns queueId := by
  refine Program.Minds.mono (hc.yields_run.minds none) ?_
  rintro held seen result ⟨rfl, -⟩
  cases result <;> exact rfl

theorem Returns.bind {c : Command α} {f : α → Command β} (hc : c.Returns queueId)
    (hf : ∀ v, (f v).Returns queueId) : (c >>= f).Returns queueId := by
  refine Minds.bind hc ?_
  rintro held seen v rfl
  exact (hf v).afterSeeing seen

theorem Returns.outcome {c : Command α} (hc : c.Returns queueId) :
    (Command.outcome c).Returns queueId := by
  refine Program.Minds.bind hc fun held seen result hresult => ?_
  cases result <;> exact hresult

/-! ## Playing an item -/

theorem minds_entry (queueId : String) :
    (entry queueId).Minds queueId (fun held seen e => held = none ∧
      ∃ o h, seen = some (o, h) ∧ Hub.entry? h queueId = some e) none none := by
  have hlook : (look fun _ h => Hub.entry? h queueId).Minds queueId (fun held seen e =>
      held = none ∧ ∃ o h, seen = some (o, h) ∧ Hub.entry? h queueId = e) none none :=
    fun o h => ⟨rfl, o, h, rfl, rfl⟩
  refine Minds.bind hlook ?_
  rintro _ _ e ⟨rfl, o, h, rfl, he⟩
  cases e with
  | none => exact rfl
  | some e => exact ⟨rfl, o, h, rfl, he⟩

theorem minds_find (e : Entry) (key : ItemKey) {seen : Option (Outside × Hub)} :
    (find e key).Minds queueId (fun held seen' _ => held = none ∧ seen' = seen) none seen := by
  have hitem : ∀ index : Nat, (find e (.index index)).Minds queueId
      (fun held seen' _ => held = none ∧ seen' = seen) none seen := by
    intro index
    simp only [find, pure_bind]
    cases e.items[index]? with
    | none => exact rfl
    | some item => exact ⟨rfl, rfl⟩
  cases key with
  | index index => exact hitem index
  | id id =>
    simp only [find]
    cases indexOf? e.items id with
    | none => exact rfl
    | some index => exact hitem index

/-- A change of a queue that is there lets the program hold the state before. -/
theorem minds_hold {o : Outside} {h : Hub} {e : Entry} (he : h.entry? queueId = some e)
    (change : QueueChange) :
    (modifyQueue queueId change.apply).Minds queueId
      (fun held _ _ => held = some e.queue.state) none (some (o, h)) := by
  have hq : h.queue? queueId = some e.queue := by rw [Hub.queue?_eq_map, he, Option.map_some]
  have hprior : h.state? queueId = some e.queue.state := by rw [Hub.state?, he, Option.map_some]
  refine ⟨some e.queue.state, ⟨⟨.modify queueId change, ?_⟩, .hold _ hprior⟩, ?_⟩
  · simp only [hq]
    rfl
  · simp only [hq]
    exact rfl

/-- A change that settles the queue, if it is still there, ends what was held. -/
theorem minds_settle {prior : PlayerState} (change : QueueChange)
    (hchange : ∀ q, (change.apply q).state = prior.settle q.state)
    (seen : Option (Outside × Hub)) :
    (modifyQueue queueId change.apply).Minds queueId (fun held _ _ => held = none) (some prior)
      seen := by
  refine Minds.afterSeeing (P := fun held _ => held = none) ?_ seen
  intro o h
  have hstate : Hub.state? (h.modifyQueue queueId change.apply) queueId =
      (h.state? queueId).map prior.settle := by
    rw [Hub.state?_modifyQueue, if_pos rfl, Hub.state?, Option.map_map]
    congr 1
    exact funext fun e => hchange e.queue
  cases hq : h.queue? queueId with
  | none =>
    have hsame : h.modifyQueue queueId change.apply = h := by
      simp [Hub.modifyQueue, Hub.modifyEntry, Option.map_eq_none_iff.1 hq]
    rw [hsame] at hstate
    simp only [hq]
    exact ⟨none, ⟨⟨.modify queueId change, hsame.symm⟩, .settle prior hstate⟩, rfl⟩
  | some q =>
    simp only [hq]
    exact ⟨none, ⟨⟨.modify queueId change, rfl⟩, .settle prior hstate⟩, rfl⟩

/-- A queue at whose item a player is sent is given back its state. -/
theorem playIndex_returns_own (queueId : String) (key : ItemKey) (seek : UInt32)
    (fadeIn debounce : Bool) : (playIndex queueId key seek fadeIn debounce).Returns queueId := by
  have hkeep := Rules.keepingState_le_sparing queueId
  have hloading : Rules.loading.confined queueId ≤ .sparing queueId :=
    Rules.le_trans Rules.confined_le (Rules.le_trans Rules.loading_le_keepingState hkeep)
  refine Minds.bind (minds_entry queueId) ?_
  rintro _ _ e ⟨rfl, o, h, rfl, he⟩
  refine Minds.bind (minds_find e key) ?_
  rintro _ _ ⟨index, item⟩ ⟨rfl, rfl⟩
  -- nothing happens between the look at the queue and its change
  refine Minds.bind (P := fun held seen _ => held = none ∧ seen = some (o, h)) ⟨rfl, rfl⟩ ?_
  rintro _ _ flow ⟨rfl, rfl⟩
  refine Minds.bind (minds_hold he (.buffer index item flow)) ?_
  rintro _ seen _ rfl
  refine Minds.bind (Obeys.minds ((loadItem_obeys _ _ _ _ _ _).within hloading) _ seen) ?_
  rintro _ seen result rfl
  cases result with
  | error failure =>
    refine Minds.bind (minds_settle (.settle e.queue.state)
      (fun q => q.state_settle e.queue.state) seen) ?_
    rintro _ seen _ rfl
    refine Minds.afterSeeing (P := fun held _ => held = none) (Obeys.returns ?_) seen
    refine obeys_ite _ ?_ (obeys_throw failure)
    exact (updateItem_obeys queueId _ .unavailable (hloading.1 _ ⟨⟨_, _, _, rfl⟩, rfl⟩) rfl).bind
      fun _ => obeys_throw failure
  | ok loaded =>
    refine Minds.bind (minds_settle (.arrive e.queue.state loaded)
      (fun q => q.state_settle e.queue.state) seen) ?_
    rintro _ seen _ rfl
    refine Minds.afterSeeing (P := fun held _ => held = none) (Obeys.returns ?_) seen
    exact send_obeys queueId (fun delay media => hkeep.1 _ trivial) (hkeep.1 _ trivial) loaded flow
      debounce

/-- Another queue is left alone. -/
theorem playIndex_spares {target : String} (htarget : target ≠ queueId) (key : ItemKey)
    (seek : UInt32) (fadeIn debounce : Bool) :
    (playIndex target key seek fadeIn debounce).Obeys (.sparing queueId) := by
  have hkeep := Rules.keepingState_le_sparing queueId
  have hmodify : ∀ change, (Rules.sparing queueId).act (.modify target change) := by
    intro change o h
    change Hub.state? (h.modifyQueue target change.apply) queueId = _
    rw [Hub.state?_modifyQueue, if_neg htarget.symm]
  rw [playIndex_eq]
  refine Obeys.bind ?_ fun found => ?_
  · exact loadAt_obeys target
      (Rules.le_trans Rules.confined_le (Rules.le_trans Rules.loading_le_keepingState hkeep))
      (fun _ _ _ => hmodify _) (fun _ => hmodify _) (fun _ _ => hmodify _) key seek fadeIn
  · exact send_obeys target (fun delay media => hkeep.1 _ trivial) (hkeep.1 _ trivial) _ _ _

/-- A command that plays an item gives every queue back the state that it held. -/
theorem playIndex_returns (target : String) (key : ItemKey) (seek : UInt32)
    (fadeIn debounce : Bool) : (playIndex target key seek fadeIn debounce).Returns queueId := by
  by_cases htarget : target = queueId
  · subst htarget
    exact playIndex_returns_own target key seek fadeIn debounce
  · exact (playIndex_spares htarget key seek fadeIn debounce).returns

/-- Giving back is kept as commands are put together. -/
theorem returns_composes (queueId target : String) :
    Composes target (.sparing queueId) (Returns queueId) where
  obeys hc := hc.returns
  part hc hf := hc.returns_bind hf
  bind hc hf := hc.bind hf
  outcome hc := hc.outcome
  playIndex := playIndex_returns target

end Command

/-! ## Requests and jobs -/

/-- Every request gives back what it held of a queue, however it ends. -/
theorem Request.command_returns (request : Request) (queueId : String) :
    request.command.Returns queueId := by
  have hkeep := Rules.keepingState_le_sparing queueId
  by_cases hup : request = .shutdown
  · subst hup
    exact ((shutdown_obeys Rules.handling_le_keepingState trivial).within hkeep).returns
  · have hbeside := Rules.le_trans Rules.beside_le_keepingState hkeep
    exact Command.Composes.requestAny
      (fun target => (Command.returns_composes queueId target).within hbeside) request hup

/-- No job changes the state of a queue. -/
theorem Job.command_keepsState (job : Job) : job.command.Obeys .keepingState := by
  by_cases hsends : ∃ queueId media, job = .dispatch queueId media
  · obtain ⟨queueId, media, rfl⟩ := hsends
    exact Command.obeys_call trivial
  · by_cases hother : ∃ queueId itemId, job = .preload queueId itemId
    · obtain ⟨queueId, itemId, rfl⟩ := hother
      exact Command.preload_obeys queueId itemId
        (Rules.le_trans Rules.confined_le Rules.loading_le_keepingState) (fun _ => trivial) trivial
        fun _ => trivial
    · refine (job.command_beside (fun queueId media h => ?_) fun queueId itemId h => ?_).within
        Rules.beside_le_keepingState
      · exact hsends ⟨queueId, media, h⟩
      · exact hother ⟨queueId, itemId, h⟩

end Jukebox
