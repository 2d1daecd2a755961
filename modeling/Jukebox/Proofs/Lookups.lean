import Jukebox.Proofs.Isolation
import Jukebox.Proofs.WriteBack

/-!
# Looking an item up

What the parts of a lookup see, hear and change. An item that is played or handed over is one of the
list that was seen; the last answer about it is written back before anything else is asked and
before the lookup ends, whether its stream was found or the item was not (`Command.Settles`). So
whatever goes on in a session meanwhile, a lookup undoes no change of a list (`lookup_writes_back`).
-/

namespace Jukebox

namespace Command

variable {α β : Type}

/-- Whether a command writes back what it hears of items that it saw before it asks for anything
else, and `Q` holds of what it remembers and ends with, or `E` where it fails. -/
def WritesBack (queueId : String) (E : Memory → Failure → Prop) (Q : Memory → α → Prop) (m : Memory)
    (c : Command α) : Prop :=
  c.run.WritesBack queueId
    (fun m result => match result with
      | .ok v => Q m v
      | .error failure => E m failure) none m

/-- Nothing is said of what a command ends with but that all that it heard was written back. -/
abbrev settled (queueId : String) (m : Memory) (_ : α) : Prop := m.Settled queueId

/-- Whether a command writes back what it hears of items before it asks for anything else, and
before it ends. -/
abbrev Settles (queueId : String) (m : Memory) (c : Command α) : Prop :=
  c.WritesBack queueId (settled queueId) (settled queueId) m

variable {queueId : String} {E : Memory → Failure → Prop} {P : Memory → α → Prop}
  {Q : Memory → β → Prop} {m : Memory}

theorem WritesBack.bind {c : Command α} {f : α → Command β} (hc : c.WritesBack queueId E P m)
    (hf : ∀ m' v, m.seen ⊆ m'.seen → P m' v → (f v).WritesBack queueId E Q m') :
    (c >>= f).WritesBack queueId E Q m := by
  refine Program.WritesBack.bind hc fun m' result hmore hresult => ?_
  cases result with
  | error failure => exact hresult
  | ok v => exact hf m' v hmore hresult

theorem writesBack_pure {v : α} (hv : P m v) : (pure v : Command α).WritesBack queueId E P m := hv

theorem writesBack_throw {failure : Failure} (hfailure : E m failure) :
    (throw failure : Command α).WritesBack queueId E P m :=
  hfailure

theorem WritesBack.outcome {E' : Memory → Failure → Prop} {c : Command α}
    (hc : c.WritesBack queueId E P m) :
    (outcome c).WritesBack queueId E'
      (fun m result => match result with
        | .ok v => P m v
        | .error failure => E m failure) m :=
  Program.WritesBack.bind hc fun _ _ _ hresult => hresult

theorem writesBack_look {f : Outside → Hub → α} (hf : ∀ o h, P (m.see queueId h) (f o h)) :
    (look f).WritesBack queueId E P m :=
  hf

theorem writesBack_call {c : Call} {P : Memory → c.Answer → Prop} (hm : m.Settled queueId)
    (hok : ∀ v, P (m.hear c (.ok v)) v)
    (herror : ∀ failure, E (m.hear c (.error failure)) failure) :
    (call c).WritesBack queueId E P m := by
  refine ⟨hm, fun reply => ?_⟩
  cases reply with
  | ok v => exact hok v
  | error failure => exact herror failure

theorem writesBack_step {f : Outside → Hub → Hub.Outcome α}
    (hallowed : ∀ o h, (m.see queueId h).Allows queueId h (f o h).2)
    (hf : ∀ o h, match (f o h).1 with
      | .ok v => P ((m.see queueId h).wrote h (f o h).2) v
      | .error failure => E ((m.see queueId h).wrote h (f o h).2) failure) :
    (step f).WritesBack queueId E P m :=
  fun o h => ⟨hallowed o h, hf o h⟩

theorem Obeys.settles {c : Command α} (hc : c.Obeys .keepingLists) (hm : m.Settled queueId) :
    c.Settles queueId m := by
  refine Program.WritesBack.weaken (Program.Yields.writesBack hc hm) fun m' result hsettled => ?_
  cases result <;> exact hsettled

/-- A queue that is changed in place goes on with what was heard before. -/
theorem modifyQueue_writesBack (change : QueueChange)
    (hE : ∀ h failure, h.entry? queueId = none → E ((m.see queueId h).wrote h h) failure) :
    (modifyQueue queueId change.apply).WritesBack queueId E (fun m' _ => m.Grows m') m := by
  refine writesBack_step (fun o h => ?_) fun o h => ?_
  · cases hq : h.queue? queueId with
    | none => exact .inl fun _ => rfl
    | some q => exact .inl (Hub.sameLists_apply (a := .modify queueId change) trivial o h)
  · cases hq : h.queue? queueId with
    | none => exact hE h _ (Option.map_eq_none_iff.1 hq)
    | some q => exact Memory.grows_see.trans Memory.grows_wrote

theorem entry_writesBack (hm : m.Settled queueId) :
    (entry queueId).WritesBack queueId (settled queueId)
      (fun m e => m.Settled queueId ∧ ∀ i ∈ e.items, i ∈ m.seen) m := by
  refine WritesBack.bind (P := fun m e? => m.Settled queueId ∧
      ∀ e : Entry, e? = some e → ∀ i ∈ e.items, i ∈ m.seen)
    (writesBack_look fun o h => ⟨Memory.grows_see.settled hm, fun e he i hi => .inr ?_⟩)
    fun m' e? _ he => ?_
  · show i ∈ h.items queueId
    rwa [h.items_eq_of_entry queueId he]
  · cases e? with
    | none => exact writesBack_throw he.1
    | some e => exact writesBack_pure ⟨he.1, he.2 e rfl⟩

/-- An item that is found by a key is one of the list. -/
theorem find_writesBack (e : Entry) (key : ItemKey) (hm : m.Settled queueId) :
    (find e key).WritesBack queueId (settled queueId)
      (fun m found => m.Settled queueId ∧ found.2 ∈ e.items) m := by
  have hitem : ∀ index : Nat, (find e (.index index)).WritesBack queueId
      (settled queueId) (fun m found => m.Settled queueId ∧ found.2 ∈ e.items) m := by
    intro index
    simp only [find, pure_bind]
    cases hitem : e.items[index]? with
    | none => exact writesBack_throw hm
    | some item => exact writesBack_pure ⟨hm, List.mem_of_getElem? hitem⟩
  cases key with
  | index index => exact hitem index
  | id id =>
    simp only [find]
    cases indexOf? e.items id with
    | none => exact writesBack_throw hm
    | some index => exact hitem index

/-! ## Looking an item up -/

/-- What is to be done about a failure in looking an item up: where it says that something can not
be found, that is the last answer, and it was not written back yet. -/
def Blames (queueId : String) (item : QueueItem) (m : Memory) (failure : Failure) : Prop :=
  if failure.isNotFound then m.Warrants item .unavailable else m.Settled queueId

/-- What was just heard of an item was not written back yet. -/
theorem blames_hear {item : QueueItem} {c : Call} {failure : Failure}
    (hnot : failure.isNotFound = true → (m.hear c (.error failure)).Warrants item .unavailable) :
    Blames queueId item (m.hear c (.error failure)) failure := by
  unfold Blames
  split
  · next h => exact hnot h
  · next h => exact Memory.settled_hear fun htells => h htells.isNotFound

theorem Blames.grow {item : QueueItem} {failure : Failure} {m' : Memory}
    (hblames : Blames queueId item m failure) (hgrows : m.Grows m') :
    Blames queueId item m' failure := by
  unfold Blames at *
  split at hblames
  · next hnot =>
    rw [if_pos hnot]
    exact hgrows.warrants_iff.2 hblames
  · next hfound =>
    rw [if_neg hfound]
    exact hgrows.settled hblames

/-- A queue that is gone has no item to mark. -/
theorem Blames.settled_of_unknown {item : QueueItem} {failure : Failure}
    (hblames : Blames queueId item m failure) (hseen : item ∈ m.seen) {h : Hub}
    (hunknown : h.entry? queueId = none) : ((m.see queueId h).wrote h h).Settled queueId := by
  have hsees : m.Grows (m.see queueId h) := Memory.grows_see
  have hgrown := hblames.grow hsees
  unfold Blames at hgrown
  split at hgrown
  · exact Memory.WritesBack.settled
      ⟨item, .inl hseen, .unavailable, hgrown, Hub.writtenBack_unknown _ hunknown⟩
  · exact Memory.grows_wrote.settled hgrown

theorem freshMedia_writesBack (item : QueueItem) (hm : m.Settled queueId) :
    (freshMedia item).WritesBack queueId (Blames queueId item) (settled queueId) m := by
  unfold freshMedia
  cases hmedia : item.media with
  | none => exact writesBack_pure hm
  | some media =>
    have hknown : (call (.libraryItem media)).WritesBack queueId (Blames queueId item)
        (settled queueId) m := by
      refine writesBack_call hm (fun _ => Memory.settled_hear id) fun failure => ?_
      exact blames_hear fun hnot => ⟨failure, hnot, .inl ⟨media, hmedia, rfl⟩⟩
    refine hknown.bind fun m' known _ hsettled => ?_
    cases known with
    | some known => exact writesBack_pure hsettled
    | none =>
      dsimp only
      split
      · have hfull : (call (.itemByUri item.uri)).Settles queueId m' :=
          writesBack_call hsettled (fun _ => Memory.settled_hear id)
            fun _ => Memory.settled_hear id
        refine hfull.outcome.bind fun m'' result _ hresult => ?_
        cases result with
        | ok full => exact writesBack_pure hresult
        | error failure => exact writesBack_pure hresult
      · exact writesBack_pure hsettled

/-- What was found for an item is written back. -/
theorem updateItem_writesBack {item : QueueItem} (hseen : item ∈ m.seen) {change : ItemChange}
    (hwarrants : m.Warrants item change)
    (hE : ∀ m, m.Settled queueId → E m (.noQueue queueId)) :
    (updateItem queueId item.id change.apply).WritesBack queueId E (settled queueId) m := by
  have hback : ∀ h : Hub, (m.see queueId h).WritesBack queueId h
      (h.updateItem queueId item.id change.apply).2 := fun h =>
    ⟨item, .inl hseen, change, Memory.grows_see.warrants_iff.2 hwarrants,
      h.writtenBack_updateItem queueId item.id change⟩
  refine writesBack_step (fun o h => .inr (hback h)) fun o h => ?_
  cases hresult : (h.updateItem queueId item.id change.apply).1 with
  | ok changed => exact (hback h).settled
  | error failure =>
    rw [Hub.eq_noQueue_of_updateItem hresult]
    exact hE _ (hback h).settled

/-- An item that was seen is looked up, and what was found is written back. -/
theorem loadItem_writesBack {item : QueueItem} (hm : m.Settled queueId) (hseen : item ∈ m.seen)
    (following : Option Nat) (isStart : Bool) (seek : UInt32) (fadeIn : Bool) :
    (loadItem queueId item following isStart seek fadeIn).WritesBack queueId (Blames queueId item)
      (settled queueId) m := by
  refine WritesBack.bind (P := settled queueId)
    (writesBack_look fun _ _ => Memory.grows_see.settled hm) fun m₁ list hmore₁ hsettled₁ => ?_
  refine (freshMedia_writesBack item hsettled₁).bind fun m₂ media hmore₂ hsettled₂ => ?_
  have hcall : ∀ request : StreamRequest,
      (call (.streamDetails { item with media } request)).WritesBack queueId (Blames queueId item)
        (fun m details => m.heard =
          some ⟨.streamDetails { item with media } request, .ok details⟩) m₂ := by
    refine fun request => writesBack_call hsettled₂ (fun _ => rfl) fun failure => ?_
    exact blames_hear fun hnot => ⟨failure, hnot, .inr ⟨media, request, rfl⟩⟩
  refine (hcall _).bind fun m₃ details hmore₃ hheard => ?_
  refine WritesBack.bind (P := fun m _ => m.heard = m₃.heard) (writesBack_look fun _ _ => rfl)
    fun m₄ crossfade hmore₄ hsame => ?_
  have hseen₄ : item ∈ m₄.seen := hmore₄ (hmore₃ (hmore₂ (hmore₁ hseen)))
  refine WritesBack.bind (P := settled queueId) ?_
    fun _ _ _ hsettled => writesBack_pure hsettled
  have hwarrants : m₄.Warrants item (.loaded media (some
      (if crossfade then { details with stripSilenceEnd := true, stripSilenceBegin := !isStart }
        else details))) := by
    refine ⟨_, details, ?_⟩
    rw [hsame, hheard]
    cases crossfade with
    | true => exact ⟨!isStart, true, rfl, rfl⟩
    | false => exact ⟨details.stripSilenceBegin, details.stripSilenceEnd, rfl, rfl⟩
  exact updateItem_writesBack hseen₄ hwarrants fun _ => id

/-- An item that can not be found is marked, and whatever comes then goes on. -/
theorem markUnavailable_settles {item : QueueItem} (hseen : item ∈ m.seen) {failure : Failure}
    (hblames : Blames queueId item m failure) {c d : Command α}
    (hc : ∀ m, m.Settled queueId → c.Settles queueId m)
    (hd : ∀ m, m.Settled queueId → d.Settles queueId m) :
    (if failure.isNotFound then
        updateItem queueId item.id QueueItem.markUnavailable >>= fun _ => c
      else d).Settles queueId m := by
  unfold Blames at hblames
  split at hblames
  · next hnot =>
    rw [if_pos hnot]
    have hmark : (updateItem queueId item.id QueueItem.markUnavailable).Settles queueId m :=
      updateItem_writesBack hseen hblames fun _ => id
    exact hmark.bind fun m' _ _ hsettled => hc m' hsettled
  · next hfound =>
    rw [if_neg hfound]
    exact hd m hblames

/-! ## Loads -/

/-- An item is looked up to be played, and what was found is written back. -/
theorem loadAt_settles (key : ItemKey) (seek : UInt32) (fadeIn : Bool) (hm : m.Settled queueId) :
    (loadAt queueId key seek fadeIn).Settles queueId m := by
  refine (entry_writesBack hm).bind fun m₁ e _ ⟨hsettled₁, hlist⟩ => ?_
  refine (find_writesBack e key hsettled₁).bind fun m₂ found hmore₂ ⟨hsettled₂, hfound⟩ => ?_
  refine WritesBack.bind (P := settled queueId)
    (writesBack_look fun _ _ => Memory.grows_see.settled hsettled₂)
    fun m₃ flow hmore₃ hsettled₃ => ?_
  have hkept : ∀ {m : Memory}, m.Settled queueId → ∀ (h : Hub) (_ : Failure),
      h.entry? queueId = none → ((m.see queueId h).wrote h h).Settled queueId :=
    fun hm _ _ _ => (Memory.grows_see.trans Memory.grows_wrote).settled hm
  refine (modifyQueue_writesBack (.buffer found.1 found.2 flow) (hkept hsettled₃)).bind
    fun m₄ _ hmore₄ hgrows => ?_
  have hseen : found.2 ∈ m₄.seen := hmore₄ (hmore₃ (hmore₂ (hlist _ hfound)))
  refine (loadItem_writesBack (hgrows.settled hsettled₃) hseen _ _ _ _).outcome.bind
    fun m₅ result hmore₅ hresult => ?_
  cases result with
  | error failure =>
    have hseen₅ : found.2 ∈ m₅.seen := hmore₅ hseen
    refine (modifyQueue_writesBack (.settle e.queue.state) fun h _ hunknown =>
      hresult.settled_of_unknown hseen₅ hunknown).bind fun m₆ _ hmore₆ hgrows => ?_
    exact markUnavailable_settles (hmore₆ hseen₅) (hresult.grow hgrows)
      (fun _ hsettled => writesBack_throw hsettled) fun _ hsettled => writesBack_throw hsettled
  | ok loaded =>
    exact (modifyQueue_writesBack (.arrive e.queue.state loaded) (hkept hresult)).bind
      fun _ _ _ hgrows => writesBack_pure (hgrows.settled hresult)

theorem playIndex_settles (key : ItemKey) (seek : UInt32) (fadeIn debounce : Bool)
    (hm : m.Settled queueId) :
    (playIndex queueId key seek fadeIn debounce).Settles queueId m := by
  rw [playIndex_eq]
  refine (loadAt_settles key seek fadeIn hm).bind fun m' found _ hsettled => ?_
  exact Obeys.settles (send_obeys queueId (fun _ _ => trivial) trivial _ _ _) hsettled

theorem loadFrom_settles (tries position : Nat) (hm : m.Settled queueId) :
    (loadFrom queueId tries position).Settles queueId m := by
  induction tries generalizing position m with
  | zero => exact writesBack_throw hm
  | succ tries ih =>
    refine (entry_writesBack hm).bind fun m₁ e _ ⟨hsettled₁, hlist⟩ => ?_
    rcases hnext : nextIndex e.items.length e.queue.repeatMode (some position) false true
      with _ | index
    · simp only [hnext]
      exact writesBack_throw hsettled₁
    · rcases hitem : e.items[index]? with _ | item
      · simp only [hnext, hitem]
        exact writesBack_throw hsettled₁
      · simp only [hnext, hitem]
        have hseen : item ∈ m₁.seen := hlist item (List.mem_of_getElem? hitem)
        refine (loadItem_writesBack hsettled₁ hseen _ _ _ _).outcome.bind
          fun m₂ result hmore hresult => ?_
        cases result with
        | ok loaded => exact writesBack_pure hresult
        | error failure =>
          exact markUnavailable_settles (hmore hseen) hresult (fun _ => ih (position + 1))
            fun _ hsettled => writesBack_throw hsettled

theorem loadNextItem_settles (currentItemId : String) (hm : m.Settled queueId) :
    (loadNextItem queueId currentItemId).Settles queueId m := by
  refine (entry_writesBack hm).bind fun m' e _ ⟨hsettled, _⟩ => ?_
  cases indexOf? e.items currentItemId with
  | none => exact writesBack_throw hsettled
  | some index => exact loadFrom_settles _ _ hsettled

theorem preload_settles (currentItemId : String) (hm : m.Settled queueId) :
    (preload queueId currentItemId).Settles queueId m := by
  have hmark : ∀ item : QueueItem, Obeys .keepingLists (do
      let _ ← modifyQueue queueId fun q => { q with enqueuedNext := some item.id }) :=
    fun item => (modifyQueue_obeys queueId (.handOver item.id) trivial rfl).bind
      fun _ => obeys_pure ()
  have hhand : (enqueueNext queueId currentItemId).Settles queueId m := by
    refine (loadNextItem_settles currentItemId hm).bind fun m' item _ hsettled =>
      Obeys.settles ?_ hsettled
    refine (queue_obeys queueId).bind fun q => ?_
    refine obeys_ite _ (obeys_pure ()) (obeys_ite _ ?_ (hmark item))
    exact (obeys_look _).bind fun url => (obeys_call id).bind fun _ => hmark item
  refine hhand.outcome.bind fun m' result _ hresult => Obeys.settles ?_ ?_
  · refine (obeys_change (a := .modify queueId .release) trivial fun _ _ => rfl).bind fun _ => ?_
    cases result with
    | ok _ => exact obeys_pure ()
    | error failure => exact obeys_throw failure
  · cases result <;> exact hresult

/-- The commands that look items of a queue up. -/
inductive IsLoad (queueId : String) : {α : Type} → Command α → Prop
  | playIndex (key : ItemKey) (seek : UInt32) (fadeIn debounce : Bool) :
    IsLoad queueId (playIndex queueId key seek fadeIn debounce)
  | loadNextItem (currentItemId : String) : IsLoad queueId (loadNextItem queueId currentItemId)
  | preload (currentItemId : String) : IsLoad queueId (preload queueId currentItemId)

theorem IsLoad.settles {c : Command α} (hload : IsLoad queueId c) : c.Settles queueId {} := by
  cases hload with
  | playIndex key seek fadeIn debounce =>
    exact playIndex_settles key seek fadeIn debounce Memory.settled_start
  | loadNextItem currentItemId => exact loadNextItem_settles currentItemId Memory.settled_start
  | preload currentItemId => exact preload_settles currentItemId Memory.settled_start

end Command

/-! ## Loads in a session -/

namespace Program

variable {α β : Type} {queueId : String} {m : Memory} {p p' : Program α}

/-- Whether a program came about from another one by going on, with what it remembers. As in
`Leads`, others may do anything to the hub between two stops. -/
inductive Comes (queueId : String) (p : Program α) : Memory → Program α → Prop
  | refl : Comes queueId p {} p
  | advance {m : Memory} {p' : Program α} (hcomes : Comes queueId p m p') (o : Outside)
    (answers : Answers) (h : Hub) :
    Comes queueId p (p'.remembers queueId o answers h m) (p'.advance o answers h).1

theorem Leads.comes (hp : p.Leads p') (queueId : String) : ∃ m, p.Comes queueId m p' := by
  induction hp with
  | refl => exact ⟨{}, .refl⟩
  | advance _ o answers h ih =>
    obtain ⟨m, hcomes⟩ := ih
    exact ⟨_, hcomes.advance o answers h⟩

theorem Comes.writesBack {P : Memory → α → Prop} (hcomes : p.Comes queueId m p')
    (hp : p.WritesBack queueId P none {}) : p'.WritesBack queueId P none m := by
  induction hcomes with
  | refl => exact hp
  | advance _ o answers h ih => exact (ih.advance o answers h).1

/-- A program that goes on with another one remembers no more than it did alone. -/
theorem remembers_bind {f : α → Program β} (hgoing : p.isDone = false)
    (hf : ∀ v h' rest, f v ≠ .write h' rest) (o : Outside) (answers : Answers) (h : Hub) :
    (p.bind f).remembers queueId o answers h m = p.remembers queueId o answers h m := by
  cases p with
  | done value => cases hgoing
  | read next =>
    cases hcase : next o h with
    | done value =>
      simp only [Program.bind, remembers, hcase]
      cases hrest : f value with
      | write h' rest => exact absurd hrest (hf value h' rest)
      | _ => rfl
    | _ => simp only [Program.bind, remembers, hcase]
  | _ => rfl

end Program

section

variable {β : Type} {queueId : String} {rest : Except Failure β → Program (Except Failure Unit)}
  {m : Memory} {a : Activity}

/-- Whether an activity is looking an item of a queue up and goes on with something then, with what
it remembers since it began to look. -/
def Activity.Loads (queueId : String) (rest : Except Failure β → Program (Except Failure Unit))
    (m : Memory) (a : Activity) : Prop :=
  ∃ (load : Command β) (p : Program (Except Failure β)),
    load.IsLoad queueId ∧ load.run.Comes queueId m p ∧ p.isDone = false ∧
      (∀ result h next, rest result ≠ .write h next) ∧ a.program = p.bind rest

/-- A load that an activity does all by itself. -/
theorem Activity.loads_of_leads {c : Command Unit} (hload : c.IsLoad queueId)
    {p : Program (Except Failure Unit)} (hp : c.run.Leads p) (hgoing : p.isDone = false)
    (job : Option Job) : ∃ m, Activity.Loads queueId .done m ⟨job, p⟩ := by
  obtain ⟨m, hcomes⟩ := hp.comes queueId
  exact ⟨m, c, p, hload, hcomes, hgoing, (fun _ _ _ hwrite => nomatch hwrite),
    (Program.bind_done p).symm⟩

/-- A stop of a load is allowed by what it remembers. The load goes on, and has written back what it
heard if it asks for anything, or it ends, and has written back what it heard. -/
theorem Activity.Loads.advance (hloads : a.Loads queueId rest m) (o : Outside) (answers : Answers)
    (h : Hub) :
    let m' := a.program.remembers queueId o answers h m
    let (next, h') := a.program.advance o answers h
    m'.Allows queueId h h' ∧
      ((Activity.Loads queueId rest m' { a with program := next } ∧
        (next.call?.isSome → m'.Settled queueId)) ∨
      ((∃ result, next = rest result) ∧ m'.Settled queueId)) := by
  obtain ⟨load, p, hload, hcomes, hgoing, hrest, hprogram⟩ := hloads
  obtain ⟨hgoes, hallowed⟩ := (hcomes.writesBack hload.settles).advance o answers h
  rw [hprogram, Program.remembers_bind hgoing hrest,
    Program.advance_bind hgoing o answers h fun v _ h' next => hrest v h' next]
  refine ⟨hallowed, ?_⟩
  have hcomes' := hcomes.advance o answers h
  cases hcase : (p.advance o answers h).1 with
  | done result =>
    rw [hcase] at hgoes
    refine .inr ⟨⟨result, rfl⟩, ?_⟩
    cases result <;> exact hgoes
  | call c next =>
    rw [hcase] at hgoes hcomes'
    exact .inl ⟨⟨load, _, hload, hcomes', rfl, hrest, rfl⟩, fun _ => hgoes.1⟩
  | _ =>
    rw [hcase] at hcomes'
    exact .inl ⟨⟨load, _, hload, hcomes', rfl, hrest, rfl⟩, fun hcalls => nomatch hcalls⟩

/-- A stop of a load leaves all lists alone or writes back what was heard of an item, wherever that
is by now, and whatever went on since the item was seen. What was heard is written back before the
load asks for anything else, and before it ends. -/
theorem lookup_writes_back (s : Session) {index : Nat} (ha : s.active[index]? = some a)
    (hloads : a.Loads queueId rest m) (o : Outside) (answers : Answers) :
    let s' := s.step o (.proceed index answers)
    let m' := a.program.remembers queueId o answers s.hub m
    let a' := { a with program := (a.program.advance o answers s.hub).1 }
    (s.hub.SameLists s'.hub ∨ m'.WritesBack queueId s.hub s'.hub) ∧
      ((a'.Loads queueId rest m' ∧ (a'.program.call?.isSome → m'.Settled queueId)) ∨
        ((∃ result, a'.program = rest result) ∧ m'.Settled queueId)) := by
  intro s' m' a'
  have hhub : s'.hub = (a.program.advance o answers s.hub).2 := by
    show (s.step o (.proceed index answers)).hub = _
    simp only [Session.step, ha]
  rw [hhub]
  exact hloads.advance o answers s.hub

end

/-! ## An item that is moved while it is looked up -/

namespace House

/-- The second item is played. -/
def playSecond : Command Unit := .playIndex "den" (.index 1) 0 false false

/-- The second of three items is looked up to be played, by so many stops. -/
def lookUp : Nat → Program (Except Failure Unit) × Hub
  | 0 => (playSecond.run, (session.run (fill ["a", "b", "c"])).hub)
  | n + 1 => (lookUp n).1.advance world answers (lookUp n).2

/-- The stream of the item was found, and then the third item was moved before it. -/
def movedMeanwhile : Session :=
  { hub := ((lookUp 7).2.moveItem world "den" "qi3" 0).2
    active := [⟨none, (lookUp 7).1⟩] }

theorem leads_lookUp (n : Nat) : playSecond.run.Leads (lookUp n).1 := by
  induction n with
  | zero => exact .refl
  | succ n ih => exact ih.advance world answers (lookUp n).2

theorem loads_movedMeanwhile : ∃ m, Activity.Loads "den" .done m ⟨none, (lookUp 7).1⟩ := by
  have hgoing : (lookUp 7).1.isDone = false := by decide +kernel
  exact Activity.loads_of_leads (.playIndex (.index 1) 0 false false) (leads_lookUp 7) hgoing none

end House

/-- What was found is written to the item where it is now. -/
theorem moved_item_written_back :
    let s := House.movedMeanwhile
    let a : Activity := ⟨none, (House.lookUp 7).1⟩
    let s' := s.step House.world (.proceed 0 House.answers)
    s.active[0]? = some a ∧
      (∃ m, a.Loads "den" .done m ∧
        (a.program.remembers "den" House.world House.answers s.hub m).WritesBack "den" s.hub
          s'.hub) ∧
      ids (s.hub.items "den") = ["qi1", "qi3", "qi2"] ∧
      ids (s'.hub.items "den") = ["qi1", "qi3", "qi2"] ∧
      (s'.hub.items "den").map (·.stream.isSome) = [false, false, true] := by
  intro s a s'
  obtain ⟨m, hloads⟩ := House.loads_movedMeanwhile
  have ha : s.active[0]? = some a := rfl
  have hback := lookup_writes_back s ha hloads House.world House.answers
  have hfound : (s'.hub.items "den").map (·.stream.isSome) ≠
      (s.hub.items "den").map (·.stream.isSome) := by decide +kernel
  have hwritten := hback.1.resolve_left fun hsame => hfound (by rw [hsame "den"])
  exact ⟨ha, ⟨m, hloads, hwritten⟩, by decide +kernel, by decide +kernel, by decide +kernel⟩

end Jukebox
