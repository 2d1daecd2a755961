import Jukebox.Proofs.Reserving

/-!
# Queues that are moved

Moving a queue takes the player of the target out of its group, hands the target the settings and
the position of the source, empties the source, and loads its old items into the target
(`Command.Unfolds.of_transfer`). Nothing is changed before the group is left, and nothing can fail
after that; so a queue is moved as a whole or not at all (`transfer_all_or_nothing`).
-/

namespace Jukebox

/-- Loading in place of the whole list numbers the batch. -/
theorem Edit.splice_replacing (d : Draws) (items batch : List QueueItem) :
    splice d items batch .replacing = (numbered 0 batch, d) := by
  simp [splice, LoadOptions.replacing, upcoming]

theorem Edit.numbered_inQueue (queueId : String) (items : List QueueItem) :
    numbered 0 (items.map (·.inQueue queueId)) =
      items.mapIdx fun n i => { i with queueId, sortIndex := n } :=
  List.ext_getElem? fun n => by
    simp only [numbered, List.getElem?_mapIdx, List.getElem?_map, Option.map_map, Nat.zero_add]
    rfl

/-! ## The two entries -/

namespace Entry

/-- An entry whose queue was moved away. -/
def leaving (e : Entry) : Entry := e.withItems (Hub.cleared e.queue) []

/-- An entry to which the queue of another one was moved. -/
def receiving (e : Entry) (queueId : String) (source : Entry) : Entry :=
  e.commit (Command.takeOver source.queue e.queue queueId)
    (source.items.mapIdx fun n i => { i with queueId, sortIndex := n })

/-- The items keep their ids. -/
theorem ids_receiving (s t : Entry) (targetId : String) :
    ids (t.receiving targetId s).items = ids s.items :=
  List.ext_getElem? fun n => by
    simp only [ids, receiving, commit, withItems, List.getElem?_map, List.getElem?_mapIdx,
      Option.map_map]
    rfl

/-- Whether a queue with its items came over to another one: the items in their order, with the
settings and the position. Nothing of it is left behind. -/
structure Moved (targetId : String) (source source' target' : Entry) : Prop where
  items : target'.items =
    source.items.mapIdx fun n i => { i with queueId := targetId, sortIndex := n }
  repeatMode : target'.queue.repeatMode = source.queue.repeatMode
  shuffle : target'.queue.shuffle = source.queue.shuffle
  dontStop : target'.queue.dontStop = source.queue.dontStop
  radioSource : target'.queue.radioSource = source.queue.radioSource
  requested : target'.queue.requested = source.queue.requested
  currentIndex : target'.queue.currentIndex = source.queue.currentIndex
  emptied : source'.items = []
  nowhere : source'.queue.currentIndex = none ∧ source'.queue.bufferedIndex = none ∧
    source'.queue.currentItem = none ∧ source'.queue.nextItem = none
  silenced : source'.queue.radioSource = []

theorem moved (source target : Entry) (targetId : String) :
    Moved targetId source source.leaving (target.receiving targetId source) where
  items := rfl
  repeatMode := rfl
  shuffle := rfl
  dontStop := rfl
  radioSource := rfl
  requested := rfl
  currentIndex := rfl
  emptied := rfl
  nowhere := ⟨rfl, rfl, rfl, rfl⟩
  silenced := rfl

end Entry

/-! ## What is stored -/

namespace Hub

variable {h : Hub} {queueId : String} {e : Entry} {o : Outside}
  (he : h.entry? queueId = some e)
  (hwrites : ∀ key, o.faults.writing (Store.queueBase queueId) key = false)

include he hwrites

theorem itemsText?_replace {q : Queue} (hq : q.id = queueId) (items : List QueueItem) :
    ((h.putItems queueId q items).signal o queueId true).itemsText? queueId =
      some (encode items).toText := by
  have hentry : entry? (h.putItems queueId q items) queueId = some (e.withItems q items) := by
    rw [entry?_putItems, if_pos rfl, he]
    rfl
  exact (signal_of_entry hentry hq hwrites true).2.2

variable (hid : e.queue.id = queueId)

include hid

theorem itemsText?_clear :
    (h.clear o queueId).2.itemsText? queueId = some (encode ([] : List QueueItem)).toText := by
  have hcleared : ((h.putItems queueId (cleared e.queue) []).signal o queueId true).itemsText?
      queueId = some (encode ([] : List QueueItem)).toText :=
    itemsText?_replace he hwrites (q := cleared e.queue) hid []
  unfold clear clearItems
  rw [he]
  dsimp only
  cases e.queue.state <;> exact hcleared

theorem itemsText?_load (batch : List QueueItem) (options : LoadOptions) :
    (h.load o queueId batch options).2.itemsText? queueId =
      some (encode (Edit.splice h.draws e.items batch options).1).toText := by
  have he' : entry? { h with draws := (Edit.splice h.draws e.items batch options).2 } queueId =
      some e := he
  simp only [load, he]
  exact itemsText?_replace he' hwrites (q := { e.queue with enqueuedNext := none }) hid _

omit hwrites in
/-- What is loaded into one queue leaves what is stored of the others. -/
theorem get?_load_of_ne {other : String} (hne : other ≠ queueId) (batch : List QueueItem)
    (options : LoadOptions) (key : String) :
    (h.load o queueId batch options).2.store.get? (Store.queueBase other) key =
      h.store.get? (Store.queueBase other) key := by
  have hpublishes : PublishesOnly queueId h h := by
    refine ⟨fun e' he' => ?_, ⟨[], (List.append_nil _).symm, fun _ hnone => nomatch hnone⟩,
      fun _ _ _ => rfl⟩
    rw [he] at he'
    cases he'
    exact hid
  exact ((PublishesOnly.kept o).load hpublishes batch options).store _ key
    fun heq => hne (Store.queueBase_inj heq)

end Hub

namespace Command

variable {β : Type} {S : Setting} {h h₁ : Hub} {history : List Happening}

/-- A player that follows others is taken out of its group, or that fails. -/
theorem unfolds_leaveGroup {playerId : String} {result : Except Failure Unit}
    (hunfolds : (leaveGroup playerId).Unfolds S h history result h₁) :
    Relation.ReflTransGen S.meanwhile h h₁ ∧ (result = .ok () ∨
      ∃ group failure, history = [.answered (.power group false) (.error failure)] ∧
        result = .error failure) := by
  obtain ⟨o, h', -, hothers, hasks⟩ := Unfolds.of_look hunfolds
  split at hasks
  · obtain ⟨-, rfl, rfl⟩ := hasks.of_pure
    exact ⟨.single hothers, .inl rfl⟩
  · next group hgroup =>
    rcases Unfolds.of_call (c := .power group false) hasks with
      ⟨_, rest, -, rfl, hrest⟩ | ⟨failure, -, rfl, rfl, rfl⟩
    · obtain ⟨_, h'', -, hothers', hsleeps⟩ := Unfolds.of_look hrest
      cases hsleeps with
      | sleep hnext =>
        cases hnext
        exact ⟨.tail (.single hothers) hothers', .inl rfl⟩
    · exact ⟨.single hothers, .inr ⟨group, failure, rfl, rfl⟩⟩

/-- What is done to move a queue when the group of the target was left. -/
def carryOver (source : Queue) (sourceId targetId : String) : Command Unit := do
  let list := (← items sourceId).map (·.inQueue targetId)
  let _ ← modifyQueue targetId fun target => takeOver source target targetId
  step fun o h => h.clear o sourceId
  load targetId list .replacing

theorem transfer_eq (sourceId targetId : String) :
    transfer sourceId targetId (some false) = (do
      let source ← queue sourceId
      let _ ← queue targetId
      leaveGroup targetId
      carryOver source sourceId targetId) := by
  simp only [transfer, Option.getD_some, Bool.false_eq_true, if_false, bind_pure_unit]
  rfl

/-- The hubs to which a queue was carried over at last: the source was cleared, and its items were
loaded into the target, which had its settings and its position by then. Between the two others may
have done something. -/
inductive CarriedOver (S : Setting) (sourceId targetId : String) (s t : Entry) : Hub → Prop
  | loaded {o o' : Outside} {h h' : Hub} (hclears : S.sees o) (hloads : S.sees o')
    (hfull : h.entry? sourceId = some s) (hothers : S.meanwhile (h.clear o sourceId).2 h')
    (hleft : h'.entry? sourceId = some s.leaving)
    (htaken : h'.entry? targetId = some { t with queue := takeOver s.queue t.queue targetId }) :
    CarriedOver S sourceId targetId s t
      (h'.load o' targetId (s.items.map (·.inQueue targetId)) .replacing).2

section Moving

variable {sourceId targetId : String} (hsource : S.Spares sourceId) (htarget : S.Spares targetId)
  {s t : Entry} (hs : h.entry? sourceId = some s) (ht : h.entry? targetId = some t)
  {result : Except Failure Unit}

include hsource htarget hs ht

/-- The target takes over the settings and the position of the source, which is then cleared, and
its items are loaded into the target. None of it can fail. -/
theorem unfolds_carryOver (hne : sourceId ≠ targetId)
    (hunfolds : (carryOver s.queue sourceId targetId).Unfolds S h history result h₁) :
    result = .ok () ∧ CarriedOver S sourceId targetId s t h₁ := by
  -- Others may do something before each of the four steps, so both entries go along with them.
  obtain ⟨_, h₂, -, hothers₂, hsets⟩ := Unfolds.of_look hunfolds
  have hs₂ := (hsource h h₂ hothers₂).trans hs
  have ht₂ := (htarget h h₂ hothers₂).trans ht
  rw [Hub.items_eq_of_entry _ _ hs₂] at hsets
  obtain ⟨_, h₃, _, -, hothers₃, -, hclears⟩ := Unfolds.of_step hsets
  have hs₃ := (hsource h₂ h₃ hothers₃).trans hs₂
  have ht₃ := (htarget h₂ h₃ hothers₃).trans ht₂
  rw [Hub.queue?_of_entry ht₃] at hclears
  obtain ⟨o, h₄, _, hsees, hothers₄, -, hloads⟩ := Unfolds.of_step (hclears t.queue rfl)
  have hs₄ : h₄.entry? sourceId = some s := by
    rw [hsource _ h₄ hothers₄, Hub.entry?_modifyQueue, if_neg hne, hs₃]
  have ht₄ : h₄.entry? targetId =
      some { t with queue := takeOver s.queue t.queue targetId } := by
    rw [htarget _ h₄ hothers₄, Hub.entry?_modifyQueue, if_pos rfl, ht₃]
    rfl
  have hload := hloads () (Hub.clear_ok hs₄ o)
  rw [← bind_pure (load _ _ _)] at hload
  obtain ⟨o', h₅, _, hsees', hothers₅, -, hends⟩ := Unfolds.of_step hload
  have hclear : Hub.Touches sourceId Entry.leaving h₄ (h₄.clear o sourceId).2 :=
    Hub.touches_clear o
  have hs₅ := (hsource _ h₅ hothers₅).trans (Hub.entry?_of_touches hclear hs₄)
  have ht₅ : h₅.entry? targetId =
      some { t with queue := takeOver s.queue t.queue targetId } := by
    rw [htarget _ h₅ hothers₅, hclear targetId, if_neg (Ne.symm hne), ht₄]
  obtain ⟨-, rfl, rfl⟩ := (hends () (Hub.load_ok ht₅ o' _ _)).of_pure
  exact ⟨rfl, .loaded hsees hsees' hs₄ hothers₅ hs₅ ht₅⟩

/-- Before anything is changed the group of the target is left, which may fail. -/
theorem Unfolds.of_transfer
    (hunfolds : (transfer sourceId targetId (some false)).Unfolds S h history result h₁) :
    (∃ h' rest, h'.entry? sourceId = some s ∧ h'.entry? targetId = some t ∧
      (carryOver s.queue sourceId targetId).Unfolds S h' rest result h₁) ∨
    ∃ group failure, history = [.answered (.power group false) (.error failure)] ∧
      result = .error failure := by
  rw [transfer_eq] at hunfolds
  obtain ⟨h₂, hothers₂, hfinds⟩ := Unfolds.of_known_queue hsource hs hunfolds
  have ht₂ := (htarget h h₂ hothers₂).trans ht
  obtain ⟨h₃, hothers₃, hleaves⟩ := Unfolds.of_known_queue htarget ht₂ hfinds
  rcases hleaves.of_bind with ⟨_, h₄, _, rest, hleft, hcarries, -⟩ | ⟨_, hstuck, rfl⟩
  · obtain ⟨hothers₄, -⟩ := unfolds_leaveGroup hleft
    have hothers := hothers₄.head hothers₃ |>.head hothers₂
    exact .inl ⟨h₄, rest, (hsource.entry?_eq hothers).trans hs,
      (htarget.entry?_eq hothers).trans ht, hcarries⟩
  · obtain ⟨-, hok | ⟨group, failure, rfl, hfailed⟩⟩ := unfolds_leaveGroup hstuck
    · cases hok
    · exact .inr ⟨group, failure, rfl, hfailed⟩

/-- A queue that was moved was carried over. -/
theorem Unfolds.of_transfer_ok (hne : sourceId ≠ targetId)
    (hunfolds : (transfer sourceId targetId (some false)).Unfolds S h history (.ok ()) h₁) :
    CarriedOver S sourceId targetId s t h₁ := by
  rcases Unfolds.of_transfer hsource htarget hs ht hunfolds with
    ⟨h', rest, hs', ht', hcarries⟩ | ⟨_, _, _, hfailed⟩
  · exact (unfolds_carryOver hsource htarget hs' ht' hne hcarries).2
  · cases hfailed

/-- A queue that was moved left its entry, and the entry of the target received it. -/
theorem unfolds_transfer_ok (hne : sourceId ≠ targetId)
    (hunfolds : (transfer sourceId targetId (some false)).Unfolds S h history (.ok ()) h₁) :
    h₁.entry? sourceId = some s.leaving ∧ h₁.entry? targetId = some (t.receiving targetId s) := by
  obtain @⟨_, o', _, h₃, -, -, -, -, hleft, htaken⟩ :=
    Unfolds.of_transfer_ok hsource htarget hs ht hne hunfolds
  have hload : Hub.Touches targetId _ h₃
      (h₃.load o' targetId (s.items.map (·.inQueue targetId)) .replacing).2 :=
    Hub.touches_load o' _ _
  refine ⟨?_, ?_⟩
  · rw [hload, if_neg hne, hleft]
  · rw [Hub.entry?_of_touches hload htaken, Edit.splice_replacing, Edit.numbered_inQueue]
    rfl

end Moving

end Command

/-! ## All or nothing -/

/-- Why a queue is not moved, and what happened then: one of the two queues is unknown, or the
player of the target could not be taken out of its group. -/
inductive TransferFails (h : Hub) (sourceId targetId : String) : List Happening → Failure → Prop
  | source (hnone : h.entry? sourceId = none) :
    TransferFails h sourceId targetId [] (.noQueue sourceId)
  | target (hnone : h.entry? targetId = none) :
    TransferFails h sourceId targetId [] (.noQueue targetId)
  | group (group : String) (failure : Failure) :
    TransferFails h sourceId targetId [.answered (.power group false) (.error failure)] failure

section Transfer

variable {S : Setting} {sourceId targetId : String} {h h₁ : Hub} {history : List Happening}
  {failure : Failure}

theorem TransferFails.quiet (hfails : TransferFails h sourceId targetId history failure)
    (before after : Hub) : Happening.changed before after ∉ history := by
  cases hfails <;> simp

/-- A queue that is to be moved is moved if both queues are known, unless the group can not be
left. -/
theorem Command.unfolds_transfer (hne : sourceId ≠ targetId) (hsource : S.Spares sourceId)
    (htarget : S.Spares targetId) {result : Except Failure Unit}
    (hunfolds : (transfer sourceId targetId (some false)).Unfolds S h history result h₁) :
    (∃ failure, result = .error failure ∧ TransferFails h sourceId targetId history failure) ∨
      result = .ok () ∧ ∃ s t, h.entry? sourceId = some s ∧ h.entry? targetId = some t := by
  cases hs : h.entry? sourceId with
  | none =>
    rw [transfer_eq] at hunfolds
    obtain ⟨rfl, rfl⟩ := Unfolds.of_unknown_queue hsource hs hunfolds
    exact .inl ⟨_, rfl, .source hs⟩
  | some s =>
    cases ht : h.entry? targetId with
    | none =>
      rw [transfer_eq] at hunfolds
      obtain ⟨h₂, hothers, hfinds⟩ := Unfolds.of_known_queue hsource hs hunfolds
      obtain ⟨rfl, rfl⟩ :=
        Unfolds.of_unknown_queue htarget ((htarget h h₂ hothers).trans ht) hfinds
      exact .inl ⟨_, rfl, .target ht⟩
    | some t =>
      rcases Unfolds.of_transfer hsource htarget hs ht hunfolds with
        ⟨_, _, hs', ht', hcarries⟩ | ⟨group, failure, rfl, rfl⟩
      · have hok := (unfolds_carryOver hsource htarget hs' ht' hne hcarries).1
        exact .inr ⟨hok, s, t, rfl, rfl⟩
      · exact .inl ⟨failure, rfl, .group group failure⟩

/-- What is stored of the two queues when one was moved to the other. -/
theorem Command.unfolds_transfer_stored (hne : sourceId ≠ targetId)
    (hsource : S.Reserves sourceId) (htarget : S.Reserves targetId)
    (hsourceStored : S.Stores sourceId) (htargetStored : S.Stores targetId) {s t : Entry}
    (hs : h.entry? sourceId = some s) (hsid : s.queue.id = sourceId)
    (ht : h.entry? targetId = some t) (htid : t.queue.id = targetId)
    (hunfolds : (transfer sourceId targetId (some false)).Unfolds S h history (.ok ()) h₁) :
    h₁.itemsText? sourceId = some (encode s.leaving.items).toText ∧
      h₁.itemsText? targetId = some (encode (t.receiving targetId s).items).toText := by
  obtain @⟨o, o', h₂, h₃, hclears, hloads, hfull, hothers, hleft, htaken⟩ :=
    Unfolds.of_transfer_ok hsource.spares htarget.spares hs ht hne hunfolds
  refine ⟨?_, ?_⟩
  · calc (h₃.load o' targetId _ .replacing).2.itemsText? sourceId
        = h₃.itemsText? sourceId := Hub.get?_load_of_ne htaken htid hne _ _ _
      _ = (h₂.clear o sourceId).2.itemsText? sourceId := (hsource _ _ hothers).stored _
      _ = some (encode ([] : List QueueItem)).toText :=
          Hub.itemsText?_clear hfull (hsourceStored o hclears) hsid
  · rw [Hub.itemsText?_load htaken (htargetStored o' hloads) htid, Edit.splice_replacing,
      Edit.numbered_inQueue]
    rfl

end Transfer

/-- Moving a queue to another one, if it is not to play then and nobody else does anything to the
two queues, moves everything or nothing. If it fails both queues are as before, with what is stored
and published of them, and a queue was unknown or the player of the target could not be taken out of
its group. Else the target has all that belonged to the source, and nothing of it is left behind;
and while the store works, both lists are stored as they are. -/
theorem transfer_all_or_nothing {S : Setting} {sourceId targetId : String}
    (hne : sourceId ≠ targetId) (hsource : S.Reserves sourceId) (htarget : S.Reserves targetId)
    (hsourceStored : S.Stores sourceId) (htargetStored : S.Stores targetId) {h : Hub}
    (hnamed : h.Named) {history : List Happening} {result : Except Failure Unit} {h₁ : Hub}
    (hunfolds : (Command.transfer sourceId targetId (some false)).Unfolds S h history result h₁) :
    (∀ failure, result = .error failure →
      h.LeavesAlone sourceId h₁ ∧ h.LeavesAlone targetId h₁ ∧
        TransferFails h sourceId targetId history failure) ∧
    (result = .ok () → ∃ s t s' t',
      h.entry? sourceId = some s ∧ h.entry? targetId = some t ∧
        h₁.entry? sourceId = some s' ∧ h₁.entry? targetId = some t' ∧
        Entry.Moved targetId s s' t' ∧
        h₁.itemsText? sourceId = some (encode s'.items).toText ∧
        h₁.itemsText? targetId = some (encode t'.items).toText) := by
  rcases Command.unfolds_transfer hne hsource.spares htarget.spares hunfolds with
    ⟨failure, rfl, hfails⟩ | ⟨rfl, s, t, hs, ht⟩
  · refine ⟨?_, fun hok => nomatch hok⟩
    rintro _ ⟨⟩
    have hothers := Program.Unfolds.others hunfolds hfails.quiet
    exact ⟨hsource.leavesAlone hothers, htarget.leavesAlone hothers, hfails⟩
  · refine ⟨(fun _ hfailed => nomatch hfailed), fun _ => ?_⟩
    obtain ⟨hs₁, ht₁⟩ :=
      Command.unfolds_transfer_ok hsource.spares htarget.spares hs ht hne hunfolds
    obtain ⟨hstext, httext⟩ := Command.unfolds_transfer_stored hne hsource htarget hsourceStored
      htargetStored hs (hnamed _ _ hs) ht (hnamed _ _ ht) hunfolds
    exact ⟨s, t, _, _, hs, ht, hs₁, ht₁, s.moved t targetId, hstext, httext⟩

/-- Three tracks wait in one queue, and a fourth one in another. -/
def House.twoQueues : List (Outside × Move) :=
  twoPlayers ++ request (.playMedia "den" (["a", "b", "c"].map fun name => .item (track name))
      (some .add) false none) ++
    request (.playMedia "kitchen" [.item (track "d")] (some .add) false none)

/-- The three tracks come in place of the fourth one. -/
theorem den_moved_to_kitchen :
    let h := (House.session.run House.twoQueues).hub
    let S := House.alone House.answers
    ids (h.items "den") = ["qi1", "qi2", "qi3"] ∧ ids (h.items "kitchen") = ["qi4"] ∧
      ∃ history h₁,
        (Command.transfer "den" "kitchen" (some false)).Unfolds S h history (.ok ()) h₁ ∧
        ids (h₁.items "kitchen") = ["qi1", "qi2", "qi3"] ∧
        ∃ s t s' t', h.entry? "den" = some s ∧ h.entry? "kitchen" = some t ∧
          h₁.entry? "den" = some s' ∧ h₁.entry? "kitchen" = some t' ∧
          Entry.Moved "kitchen" s s' t' ∧
          h₁.itemsText? "den" = some (encode s'.items).toText ∧
          h₁.itemsText? "kitchen" = some (encode t'.items).toText := by
  intro h S
  have hnamed : h.Named := Session.named_run {} {} default 1 House.twoQueues
  obtain ⟨history, h₁, hunfolds, hlist⟩ := House.exists_unfolds
    (Command.transfer "den" "kitchen" (some false)) h (.ok ())
    (fun h₁ => ids (h₁.items "kitchen") = ["qi1", "qi2", "qi3"])
    (by decide +kernel)
  refine ⟨by decide +kernel, by decide +kernel, history, h₁, hunfolds, of_decide_eq_true hlist, ?_⟩
  exact (transfer_all_or_nothing (by decide) (House.reserves_alone _ "den")
    (House.reserves_alone _ "kitchen") (House.stores_alone _ "den")
    (House.stores_alone _ "kitchen") hnamed hunfolds).2 rfl

end Jukebox
