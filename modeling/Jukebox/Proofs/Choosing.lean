import Jukebox.Proofs.Handover
import Jukebox.Proofs.Labels
import Mathlib.Data.Set.Basic

/-!
# Which item is handed over

A job that hands over the next item of a queue takes it from the list, looks its stream up, which
may take any time, and hands it to the player without another look at the list. A program that only
hands over what it saw in the list before (`Program.Chooses`) does so in every session
(`labelled_chooses`). So the item that is handed over was in the list when the job looked, and it is
there when it is handed over unless somebody took it out meanwhile (`handed_item_lists_iff`). An
item that was deleted meanwhile is handed over all the same (`deleted_item_handed_over`).
-/

namespace Jukebox

namespace Hub

/-- The ids of the items in the list of a queue. -/
def listed (h : Hub) (queueId : String) : Set String := {itemId | itemId ∈ ids (h.items queueId)}

variable (h : Hub) (queueId other : String)

theorem listed_modifyQueue (f : Queue → Queue) :
    (h.modifyQueue other f).listed queueId = h.listed queueId := by
  unfold listed items
  rw [entry?_modifyQueue]
  split
  · rw [Option.map_map]
    rfl
  · rfl

theorem listed_updateItem (itemId : String) (change : ItemChange) :
    (h.updateItem other itemId change.apply).2.listed queueId = h.listed queueId := by
  unfold listed items
  rw [touches_updateItem itemId change.apply queueId]
  split
  · cases h.entry? queueId with
    | none => rfl
    | some e =>
      have hsame := e.ids_updateItem itemId change.id_apply
      exact congrArg (fun list : List String => {itemId | itemId ∈ list}) hsame
  · rfl

end Hub

/-- The player that a call hands something to go on with, and the item that this is said to be. -/
def Call.handedOver? : Call → Option (String × Option String)
  | enqueueNext playerId media => some (playerId, media.queueItemId)
  | _ => none

/-- Whether a call hands over nothing but items of a set, to one player. -/
def Call.HandsFrom (queueId : String) (seen : Set String) (c : Call) : Prop :=
  ∀ playerId named, c.handedOver? = some (playerId, named) →
    playerId = queueId ∧ ∃ itemId ∈ seen, named = some itemId

theorem Call.handsFrom_of_not {queueId : String} {seen : Set String} {c : Call}
    (hc : ¬ c.HandsOver) : c.HandsFrom queueId seen := by
  intro playerId named hnamed
  cases c with
  | enqueueNext => exact absurd trivial hc
  | _ => cases hnamed

/-! ## Programs that choose from a list -/

namespace Program

variable {α β : Type}

/-- Whether a program hands over only items that it saw in the list of a queue, puts no others into
the list, and ends with values for which `Q` holds of what it saw. -/
def Chooses (queueId : String) (Q : Set String → α → Prop) : Set String → Program α → Prop
  | seen, done value => Q seen value
  | seen, read next => ∀ o h, (next o h).Chooses queueId Q (seen ∪ h.listed queueId)
  | seen, write h next => h.listed queueId ⊆ seen ∧ next.Chooses queueId Q seen
  | seen, call c next =>
    c.HandsFrom queueId seen ∧ ∀ reply, (next reply).Chooses queueId Q seen
  | seen, sleep _ next => next.Chooses queueId Q seen
  | seen, turn next => next.Chooses queueId Q seen

variable {queueId : String} {P : Set String → α → Prop} {Q : Set String → β → Prop}
  {seen seen' : Set String} {p : Program α}

/-- What may be handed over may be handed over by who has seen more. -/
theorem Chooses.grow {P' : Set String → α → Prop} (hp : p.Chooses queueId P seen)
    (hP : ∀ {seen seen' v}, seen ⊆ seen' → P seen v → P' seen' v) (hmore : seen ⊆ seen') :
    p.Chooses queueId P' seen' := by
  induction p generalizing seen seen' with
  | done value => exact hP hmore hp
  | read next ih => exact fun o h => ih o h (hp o h) (Set.union_subset_union_left _ hmore)
  | write h next ih => exact ⟨hp.1.trans hmore, ih hp.2 hmore⟩
  | call c next ih =>
    refine ⟨fun playerId named hnamed => ?_, fun reply => ih reply (hp.2 reply) hmore⟩
    obtain ⟨hplayer, itemId, hseen, hitem⟩ := hp.1 playerId named hnamed
    exact ⟨hplayer, itemId, hmore hseen, hitem⟩
  | sleep ms next ih => exact ih hp hmore
  | turn next ih => exact ih hp hmore

theorem Chooses.bind {f : α → Program β} (hp : p.Chooses queueId P seen)
    (hf : ∀ seen' v, seen ⊆ seen' → P seen' v → (f v).Chooses queueId Q seen') :
    (p.bind f).Chooses queueId Q seen := by
  induction p generalizing seen with
  | done value => exact hf seen value subset_rfl hp
  | read next ih =>
    refine fun o h => ih o h (hp o h) fun seen' v hmore => hf seen' v ?_
    exact Set.subset_union_left.trans hmore
  | write h next ih => exact ⟨hp.1, ih hp.2 hf⟩
  | call c next ih => exact ⟨hp.1, fun reply => ih reply (hp.2 reply) hf⟩
  | sleep ms next ih => exact ih hp hf
  | turn next ih => exact ih hp hf

/-- A program that looks items up hands over nothing. -/
theorem Yields.chooses {R : α → Prop} {at_ : Option (Outside × Hub)}
    (hp : p.Yields .lookup R at_)
    (hseen : ∀ o h, at_ = some (o, h) → h.listed queueId ⊆ seen) :
    p.Chooses queueId (fun _ => R) seen := by
  induction p generalizing at_ seen with
  | done value => exact hp
  | read next ih =>
    refine fun o h => ih o h (hp o h) ?_
    rintro _ _ ⟨⟩
    exact Set.subset_union_right
  | write h' next ih =>
    cases at_ with
    | none => exact hp.elim
    | some at_ =>
      obtain ⟨⟨a, ⟨target, itemId, change, rfl⟩, rfl⟩, hnext⟩ := hp
      refine ⟨?_, ih hnext fun _ _ hnone => nomatch hnone⟩
      exact (Hub.listed_updateItem ..).subset.trans (hseen _ _ rfl)
  | call c next ih =>
    exact ⟨Call.handsFrom_of_not hp.1, fun reply => ih reply (hp.2 reply) fun _ _ h => nomatch h⟩
  | sleep ms next ih => exact @ih seen none hp fun _ _ h => nomatch h
  | turn next ih => exact @ih seen none hp fun _ _ h => nomatch h

/-- At one instant a program sees one list, as what it puts into the list is there already. -/
theorem Chooses.onward {h : Hub} (hp : p.Chooses queueId P seen)
    (hseen : h.listed queueId ⊆ seen) (o : Outside) :
    (p.onward o h).1.Chooses queueId P seen := by
  induction p generalizing h with
  | read next ih =>
    have hnext := hp o h
    rw [Set.union_eq_self_of_subset_right hseen] at hnext
    exact ih o h hnext hseen
  | write h' next ih => exact ih hp.2 hp.1
  | _ => exact hp

/-- A program that goes on has seen the list at that instant besides. -/
theorem Chooses.goOn (hp : p.Chooses queueId P seen)
    (hP : ∀ {seen seen' v}, seen ⊆ seen' → P seen v → P seen' v) (o : Outside) (answers : Answers)
    (h : Hub) : (p.goOn o answers h).1.Chooses queueId P (seen ∪ h.listed queueId) := by
  have hmore : seen ⊆ seen ∪ h.listed queueId := Set.subset_union_left
  cases p with
  | done value => exact hP hmore hp
  | read next => exact (hp o h).onward Set.subset_union_right o
  | write h' next => exact (hp.2.onward hp.1 o).grow hP hmore
  | call c next => exact (hp.2 (answers c)).grow hP hmore
  | sleep ms next => exact Chooses.grow (p := next) hp hP hmore
  | turn next => exact Chooses.grow (p := next) hp hP hmore

end Program

namespace Command

variable {α β : Type}

/-- Whether a command hands over only items that it saw in the list of a queue, puts no others into
the list, and `Q` holds of what it saw and what it ends with, if it does not fail. -/
def Chooses (queueId : String) (Q : Set String → α → Prop) (seen : Set String) (c : Command α) :
    Prop :=
  c.run.Chooses queueId (fun seen result => ∀ v, result = .ok v → Q seen v) seen

variable {queueId : String} {P : Set String → α → Prop} {Q : Set String → β → Prop}
  {seen : Set String}

theorem Chooses.bind {c : Command α} {f : α → Command β} (hc : c.Chooses queueId P seen)
    (hf : ∀ seen' v, seen ⊆ seen' → P seen' v → (f v).Chooses queueId Q seen') :
    (c >>= f).Chooses queueId Q seen := by
  refine Program.Chooses.bind hc fun seen' result hmore hresult => ?_
  cases result with
  | error failure => exact fun v hv => nomatch hv
  | ok v => exact hf seen' v hmore (hresult v rfl)

theorem Chooses.then {c : Command α} {f : α → Command β}
    (hc : c.Chooses queueId (fun _ _ => True) seen)
    (hf : ∀ seen' v, seen ⊆ seen' → (f v).Chooses queueId Q seen') :
    (c >>= f).Chooses queueId Q seen :=
  hc.bind fun seen' v hmore _ => hf seen' v hmore

theorem chooses_pure {v : α} (hv : P seen v) : (pure v : Command α).Chooses queueId P seen := by
  rintro w ⟨⟩
  exact hv

theorem chooses_throw (failure : Failure) : (throw failure : Command α).Chooses queueId P seen :=
  fun _ hv => nomatch hv

theorem chooses_ite (p : Prop) [Decidable p] {c d : Command α} (hc : c.Chooses queueId P seen)
    (hd : d.Chooses queueId P seen) : (if p then c else d).Chooses queueId P seen := by
  by_cases hp : p
  · rw [if_pos hp]
    exact hc
  · rw [if_neg hp]
    exact hd

theorem Chooses.outcome {c : Command α} (hc : c.Chooses queueId P seen) :
    (outcome c).Chooses queueId (fun seen result => ∀ v, result = .ok v → P seen v) seen := by
  refine Program.Chooses.bind hc fun seen' result _ hresult => ?_
  rintro _ ⟨⟩
  exact hresult

theorem Yields.chooses {R : α → Prop} {c : Command α} (hc : c.Yields .lookup R) :
    c.Chooses queueId (fun _ => R) seen :=
  Program.Yields.chooses hc fun _ _ hnone => nomatch hnone

theorem chooses_look {f : Outside → Hub → α}
    (hf : ∀ o h, P (seen ∪ h.listed queueId) (f o h)) : (look f).Chooses queueId P seen := by
  rintro o h _ ⟨⟩
  exact hf o h

theorem chooses_step {f : Outside → Hub → Hub.Outcome α}
    (hf : ∀ o h, (f o h).2.listed queueId = h.listed queueId) :
    (step f).Chooses queueId (fun _ _ => True) seen := by
  refine fun o h => ⟨?_, fun _ _ => trivial⟩
  rw [hf o h]
  exact Set.subset_union_right

theorem chooses_modifyQueue (target : String) (f : Queue → Queue) :
    (modifyQueue target f).Chooses queueId (fun _ _ => True) seen := by
  refine chooses_step fun o h => ?_
  split
  · rfl
  · exact h.listed_modifyQueue queueId target f

theorem chooses_entry (queueId : String) :
    (entry queueId).Chooses queueId (fun seen e => ∀ i ∈ e.items, i.id ∈ seen) seen := by
  refine Chooses.bind (P := fun seen e? => ∀ e : Entry, e? = some e → ∀ i ∈ e.items, i.id ∈ seen)
    (chooses_look fun o h e he i hi => .inr ?_) fun seen' e? _ he => ?_
  · refine List.mem_map.2 ⟨i, ?_, rfl⟩
    rw [h.items_eq_of_entry queueId he]
    exact hi
  · cases e? with
    | none => exact chooses_throw _
    | some e => exact chooses_pure (he e rfl)

/-- An item that was looked up is the one that it was. -/
theorem loadItem_yields (queueId : String) (item : QueueItem) (following : Option Nat)
    (isStart : Bool) (seek : UInt32) (fadeIn : Bool) :
    (loadItem queueId item following isStart seek fadeIn).Yields .lookup
      fun loaded => loaded.id = item.id := by
  have hload : Rules.loading.confined queueId ≤ .lookup :=
    Rules.le_trans Rules.confined_le Rules.loading_le_lookup
  refine Yields.bind (items_obeys queueId) fun list _ => ?_
  refine Yields.bind ((freshMedia_obeys queueId item).within hload) fun media _ => ?_
  refine Yields.bind (obeys_call id) fun details _ => ?_
  refine Yields.bind (obeys_look _) fun crossfade _ => ?_
  refine Yields.bind (P := fun _ => True) ?_ fun _ _ => Yields.pure rfl
  exact updateItem_obeys queueId item.id (.loaded _ _) ⟨_, _, _, rfl⟩ rfl

theorem loadFrom_chooses (tries position : Nat) :
    (loadFrom queueId tries position).Chooses queueId (fun seen item => item.id ∈ seen) seen := by
  induction tries generalizing position seen with
  | zero => exact chooses_throw _
  | succ tries ih =>
    refine (chooses_entry queueId).bind fun seen' e _ he => ?_
    rcases hnext : nextIndex e.items.length e.queue.repeatMode (some position) false true
      with _ | index
    · simp only [hnext]
      exact chooses_throw _
    rcases hitem : e.items[index]? with _ | item
    · simp only [hnext, hitem]
      exact chooses_throw _
    simp only [hnext, hitem]
    have hlisted : item.id ∈ seen' := he item (List.mem_of_getElem? hitem)
    refine (loadItem_yields _ _ _ _ _ _).chooses.outcome.bind fun seen'' result hmore hresult => ?_
    cases result with
    | ok loaded =>
      refine chooses_pure ?_
      rw [hresult loaded rfl]
      exact hmore hlisted
    | error failure =>
      refine chooses_ite _ (Chooses.then ?_ fun _ _ _ => ih (position + 1)) (chooses_throw failure)
      exact chooses_step fun o h => h.listed_updateItem queueId queueId item.id .unavailable

theorem loadNextItem_chooses (currentItemId : String) :
    (loadNextItem queueId currentItemId).Chooses queueId (fun seen item => item.id ∈ seen) seen := by
  refine (chooses_entry queueId).bind fun seen' e _ _ => ?_
  cases indexOf? e.items currentItemId with
  | none => exact chooses_throw _
  | some index => exact loadFrom_chooses e.items.length index

/-- An item that was seen is handed over. -/
theorem giveItem_chooses {item : QueueItem} (hseen : item.id ∈ seen) :
    (giveItem queueId item).Chooses queueId (fun _ _ => True) seen := by
  have hmark : ∀ seen, (markItem queueId item).Chooses queueId (fun _ _ => True) seen := by
    intro seen
    exact (chooses_modifyQueue queueId _).then fun _ _ _ => chooses_pure trivial
  refine Chooses.then (chooses_look fun _ _ => trivial) fun seen' e? hmore => ?_
  cases e? with
  | none => exact chooses_throw _
  | some e =>
    refine chooses_ite _ (chooses_pure trivial) (chooses_ite _ ?_ (hmark _))
    refine Chooses.then (chooses_look fun _ _ => trivial) fun seen'' url hmore' => ?_
    refine Chooses.then ⟨?_, fun _ _ _ => trivial⟩ fun _ _ _ => hmark _
    rintro _ _ ⟨⟩
    exact ⟨rfl, item.id, hmore' (hmore hseen), rfl⟩

theorem preload_chooses (queueId currentItemId : String) (seen : Set String) :
    (preload queueId currentItemId).Chooses queueId (fun _ _ => True) seen := by
  have hhands : (enqueueNext queueId currentItemId).Chooses queueId (fun _ _ => True) seen := by
    rw [enqueueNext_eq]
    exact (loadNextItem_chooses currentItemId).bind fun _ _ _ hseen => giveItem_chooses hseen
  refine hhands.outcome.bind fun _ result _ _ => ?_
  refine Chooses.then ?_ fun _ _ _ => ?_
  · refine fun o h => ⟨?_, fun _ _ => trivial⟩
    rw [h.listed_modifyQueue]
    exact Set.subset_union_right
  · cases result with
    | ok _ => exact chooses_pure trivial
    | error failure => exact chooses_throw failure

end Command

/-! ## Jobs in a session -/

namespace Program

/-- Whether a program obeys the rules of commands, or hands over only items that it saw in the list
of one queue. -/
def Careful (seen : String → Set String) (p : Program (Except Failure Unit)) : Prop :=
  p.Yields .command (fun _ => True) none ∨
    ∃ queueId, p.Chooses queueId (fun _ _ => True) (seen queueId)

variable {seen seen' : String → Set String} {p : Program (Except Failure Unit)}

theorem Careful.grow (hp : p.Careful seen) (hmore : ∀ queueId, seen queueId ⊆ seen' queueId) :
    p.Careful seen' := by
  refine hp.imp_right ?_
  rintro ⟨queueId, hchooses⟩
  exact ⟨queueId, hchooses.grow (fun _ _ => trivial) (hmore queueId)⟩

theorem Careful.goOn (hp : p.Careful seen) (o : Outside) (answers : Answers) (h : Hub) :
    (p.goOn o answers h).1.Careful fun queueId => seen queueId ∪ h.listed queueId := by
  rcases hp with hobeys | ⟨queueId, hchooses⟩
  · exact .inl (hobeys.goOn (I := fun _ => True) (fun _ _ _ _ => trivial) (fun _ _ => trivial)
      trivial answers).1
  · exact .inr ⟨queueId, hchooses.goOn (fun _ _ => trivial) o answers h⟩

/-- What such a program hands over it saw. -/
theorem Careful.handedOver (hp : p.Careful seen) {queueId : String} {named : Option String}
    (hhands : p.call?.bind Call.handedOver? = some (queueId, named)) :
    ∃ itemId ∈ seen queueId, named = some itemId := by
  obtain ⟨c, hcall, hnamed⟩ := Option.bind_eq_some_iff.1 hhands
  cases p with
  | call c' next =>
    cases hcall
    rcases hp with hobeys | ⟨target, hchooses⟩
    · have hnone : c.HandsFrom queueId (seen queueId) := Call.handsFrom_of_not hobeys.1
      exact (hnone queueId named hnamed).2
    · obtain ⟨rfl, hseen⟩ := hchooses.1 queueId named hnamed
      exact hseen
  | _ => cases hcall

end Program

/-- Handing over the next item goes by the list, and no other job hands over anything. -/
theorem Job.command_careful (job : Job) (seen : String → Set String) :
    job.command.run.Careful seen := by
  by_cases hhands : ∃ queueId itemId, job = .preload queueId itemId
  · obtain ⟨queueId, itemId, rfl⟩ := hhands
    have hchooses := Command.preload_chooses queueId itemId (seen queueId)
    exact .inr ⟨queueId, hchooses.grow (fun _ _ => trivial) subset_rfl⟩
  · have hobeys := job.command_obeys fun queueId itemId hjob => hhands ⟨queueId, itemId, hjob⟩
    exact .inl hobeys.yields_run

namespace Session

/-- What the activity that goes on by a move hands over at the end of it: the player, and the item
that is named. -/
def handed? (s : Session) (moves : List (Outside × Move)) (n : Nat) :
    Option (String × Option String) :=
  match moves[n]? with
  | some (o, .proceed index answers) =>
    let before := s.instants (moves.take n)
    before.active[index]?.bind fun a =>
      (a.program.goOn o answers before.hub).1.call?.bind Call.handedOver?
  | _ => none

/-- Whether the job of a number goes on by a move. -/
def Goes (s : Session) (moves : List (Outside × Move)) (n number : Nat) : Prop :=
  (s.goer? moves n).map (·.origin) = some (.job number)

instance (s : Session) (moves : List (Outside × Move)) (n number : Nat) :
    Decidable (s.Goes moves n number) :=
  inferInstanceAs (Decidable (_ = _))

/-- The items that were in the list of a queue when the job of a number went on, up to a move. -/
def seenBy (s : Session) (moves : List (Outside × Move)) (number n : Nat) (queueId : String) :
    Set String :=
  {itemId | ∃ m < n, s.Goes moves m number ∧ s.Lists moves m queueId itemId}

variable {s : Session} {moves : List (Outside × Move)} {n number : Nat}

theorem seenBy_mono {m : Nat} (hle : m ≤ n) (queueId : String) :
    s.seenBy moves number m queueId ⊆ s.seenBy moves number n queueId := by
  rintro itemId ⟨k, hk, hseen⟩
  exact ⟨k, Nat.lt_of_lt_of_le hk hle, hseen⟩

/-- A job that goes on has seen the list by then. -/
theorem seenBy_succ (hgoes : s.Goes moves n number) (queueId : String) :
    s.seenBy moves number n queueId ∪ (s.instants (moves.take n)).hub.listed queueId ⊆
      s.seenBy moves number (n + 1) queueId := by
  refine Set.union_subset (seenBy_mono (Nat.le_succ n) queueId) fun itemId hlisted => ?_
  exact ⟨n, Nat.lt_succ_self n, hgoes, hlisted⟩

/-- In every state of a session each job hands over what it saw, if anything. -/
theorem labelled_careful (hs : s.active = []) (moves : List (Outside × Move)) (n : Nat) :
    Labelled (fun label a => ∀ number, label.origin = .job number →
        a.program.Careful (s.seenBy moves number n))
      (s.labels moves n) (s.instants (moves.take n)).active := by
  refine labelled (P := fun n label a => ∀ number, label.origin = .job number →
      a.program.Careful (s.seenBy moves number n)) hs
    (fun n o request _ number horigin => ?_)
    (fun n o _ w _ _ number _ => w.job.command_careful _)
    (fun n label a h number horigin => (h number horigin).grow (seenBy_mono (Nat.le_succ n)))
    (fun n o index answers label a hmove hlabel _ h _ number horigin => ?_) n
  · cases request <;> cases horigin
  · have hgoer : s.goer? moves n = some label :=
      goer?_eq_some_iff.2 ⟨o, index, answers, hmove, hlabel⟩
    have hgoes : s.Goes moves n number := by
      rw [Goes, hgoer]
      exact congrArg some horigin
    exact ((h number horigin).goOn o answers _).grow (seenBy_succ hgoes)

end Session

/-- What a job hands to a player is an item that was in the list of the queue when the job went on
at some time before. It is in the list when it is handed over exactly if no move since then took it
out for good. -/
theorem handed_item_lists_iff (config : Config) (store : Store) (draws : Draws) (nextItem : Nat)
    (moves : List (Outside × Move)) {k number : Nat} {queueId : String} {named : Option String} :
    let s := Session.start config store draws nextItem
    s.Goes moves k number → s.handed? moves k = some (queueId, named) →
      ∃ itemId m, named = some itemId ∧ m ≤ k ∧ s.Goes moves m number ∧
        s.Lists moves m queueId itemId ∧
        (s.Lists moves (k + 1) queueId itemId ↔ ¬ s.Loses moves m (k + 1) queueId itemId) := by
  intro s hgoes hhands
  obtain ⟨label, hgoer, horigin⟩ := Option.map_eq_some_iff.1 hgoes
  obtain ⟨o, index, answers, a, hmove, -, ha, hcareful⟩ :=
    (Session.labelled_careful (s := s) rfl moves k).of_goer hgoer
  simp only [Session.handed?, hmove, ha] at hhands
  have hafter := ((hcareful number horigin).goOn o answers _).grow (Session.seenBy_succ hgoes)
  obtain ⟨itemId, ⟨m, hm, hlook, hlists⟩, hnamed⟩ := hafter.handedOver hhands
  exact ⟨itemId, m, hnamed, Nat.le_of_lt_succ hm, hlook, hlists,
    Session.lists_iff_not_loses hlists (by omega)⟩

/-! ## An item that is deleted while its stream is looked up -/

/-- The first of three items plays, and a job looks the second one up. It is deleted before the job
goes on. -/
def House.deleteInLookup : List (Outside × Move) :=
  [(world, .register den),
    (world, .ask (.playMedia "den" [.item (track "a"), .item (track "b"), .item (track "c")]
      (some .add) false none)),
    (world, .proceed 0 answers), (world, .report (playing "qi1" 100)), (world, .start 0),
    (world, .proceed 0 answers), (world, .proceed 0 answers), (world, .proceed 0 answers),
    (world, .ask (.deleteItem "den" (.id "qi2"))), (world, .proceed 1 answers),
    (world, .proceed 0 answers)]

/-- The item was in the list when the job chose it. -/
theorem chosen_item_deleted :
    let s := House.session
    s.Goes House.deleteInLookup 10 0 ∧
      s.handed? House.deleteInLookup 10 = some ("den", some "qi2") ∧
      ∃ itemId m, some "qi2" = some itemId ∧ m ≤ 10 ∧ s.Goes House.deleteInLookup m 0 ∧
        s.Lists House.deleteInLookup m "den" itemId ∧
        (s.Lists House.deleteInLookup 11 "den" itemId ↔
          ¬ s.Loses House.deleteInLookup m 11 "den" itemId) := by
  have hgoes : House.session.Goes House.deleteInLookup 10 0 := by decide +kernel
  have hhands : House.session.handed? House.deleteInLookup 10 = some ("den", some "qi2") := by
    decide +kernel
  exact ⟨hgoes, hhands, handed_item_lists_iff {} {} default 1 House.deleteInLookup hgoes hhands⟩

/-- An item is handed over that is in the list neither before nor after. -/
theorem deleted_item_handed_over :
    House.session.Goes House.deleteInLookup 10 0 ∧
      House.session.handed? House.deleteInLookup 10 = some ("den", some "qi2") ∧
      ¬ House.session.Lists House.deleteInLookup 10 "den" "qi2" ∧
      ¬ House.session.Lists House.deleteInLookup 11 "den" "qi2" := by
  decide +kernel

end Jukebox
