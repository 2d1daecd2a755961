import Jukebox.Proofs.Reporting

/-!
# Invariants of entries

The effect of every act on the entries of a hub, in one equation for each kind of act: it edits
the entry of one queue (`touches_apply`), or a player comes (`entry?_register`) or goes
(`entry?_remove`). A property of entries that edits keep and new entries have is therefore kept by
every act (`All.apply`). First of these: every queue is kept under its own id, and its items are
its own.
-/

namespace Jukebox

namespace Act

/-- The queue whose entry an act edits. -/
def queueId? : Act → Option String
  | modify queueId _ => some queueId
  | updateItem queueId _ _ => some queueId
  | load queueId _ _ => some queueId
  | moveItem queueId _ _ => some queueId
  | deleteItem queueId _ => some queueId
  | clear queueId => some queueId
  | startOver queueId => some queueId
  | setShuffle queueId _ => some queueId
  | setRepeat queueId _ => some queueId
  | setDontStop queueId _ => some queueId
  | trackLoaded queueId _ => some queueId
  | logFlow queueId _ => some queueId
  | report r => some r.playerId
  | _ => none

/-- How an act edits an entry. -/
def edit (o : Outside) (h : Hub) : Act → Entry → Entry
  | modify _ change, e => { e with queue := change.apply e.queue }
  | updateItem _ itemId change, e => e.updateItem itemId change.apply
  | load _ batch options, e => e.commit e.queue (Edit.splice h.draws e.items batch options).1
  | moveItem _ itemId shift, e => e.edit fun q items => Edit.move q items itemId shift
  | deleteItem _ key, e => e.edit fun q items => Edit.delete q items key
  | clear _, e => e.withItems (Hub.cleared e.queue) []
  | startOver _, e => e.startOver
  | setShuffle _ enabled, e => e.setShuffle h.draws enabled
  | setRepeat _ mode, e => { e with queue := { e.queue with repeatMode := mode } }
  | setDontStop _ enabled, e => e.setDontStop o enabled
  | trackLoaded _ itemId, e =>
    { e with queue := { e.queue with bufferedIndex := indexOf? e.items itemId } }
  | logFlow _ entry, e => e.logFlow entry
  | report r, e => e.reported o r
  | _, e => e

end Act

/-- Whether a property holds of every entry of a hub. -/
def Hub.All (P : String → Entry → Prop) (h : Hub) : Prop :=
  ∀ queueId e, h.entry? queueId = some e → P queueId e

/-- Whether every queue is kept under its own id. -/
def Hub.Named : Hub → Prop := Hub.All fun queueId e => e.queue.id = queueId

namespace Hub

variable {h : Hub} (o : Outside)

/-! ## Edits -/

/-- An act edits the entry that it concerns; a report finds it by the id that the queue holds. -/
theorem touches_apply {a : Act} (hnamed : ∀ r, a = .report r → h.Named) {queueId : String}
    (ha : a.queueId? = some queueId) : Touches queueId (a.edit o h) h (a.apply o h) := by
  cases a with
  | modify => cases ha; exact touches_modifyQueue _
  | updateItem => cases ha; exact touches_updateItem _ _
  | load => cases ha; exact touches_load o _ _
  | moveItem => cases ha; exact touches_edit o _
  | deleteItem => cases ha; exact touches_edit o _
  | clear => cases ha; exact touches_clear o
  | startOver => cases ha; exact touches_startOver
  | setShuffle => cases ha; exact touches_setShuffle o _
  | setRepeat => cases ha; exact touches_setRepeat o _
  | setDontStop => cases ha; exact touches_setDontStop o _
  | trackLoaded => cases ha; exact touches_trackLoaded o _
  | logFlow => cases ha; exact touches_logFlow _
  | report r => cases ha; exact touches_onReport o r fun e he => hnamed r rfl _ e he
  | _ => cases ha

/-! ## Players that come and go -/

/-- The entry of a queue that is registered. -/
def registered (h : Hub) (queueId displayName : String) (available : Bool) : Entry :=
  let restored := (h.restored? o queueId).getD (Queue.empty queueId displayName available, [])
  { queue := { restored.1 with displayName, available, itemCount := restored.2.length }
    items := restored.2 }

/-- The entry of a new player before its first report. -/
def newEntry (h : Hub) (r : PlayerReport) : Entry :=
  h.registered o r.playerId r.displayName r.available

variable {o} in
theorem stored?_eq_some_iff {base key text : String} :
    h.stored? o base key = some text ↔
      o.faults.reading base key = false ∧ h.store.get? base key = some text := by
  unfold stored?
  cases o.faults.reading base key <;> simp

variable {o} in
theorem storedItems?_eq_some_iff {base : String} {items : List QueueItem} :
    h.storedItems? o base = some items ↔
      o.faults.reading base Store.itemsKey = false ∧
        (h.store.get? base Store.itemsKey = none ∧ items = [] ∨
          ∃ text, h.store.get? base Store.itemsKey = some text ∧ parse? text = some items) := by
  unfold storedItems?
  cases o.faults.reading base Store.itemsKey with
  | true => simp
  | false => cases h.store.get? base Store.itemsKey <;> simp [eq_comm]

/-- What is restored is what is stored, if both parts can be read and belong together. -/
theorem restored?_eq_some_iff {queueId : String} {q : Queue} {items : List QueueItem} :
    h.restored? o queueId = some (q, items) ↔
      ∃ text stored, h.stored? o (Store.queueBase queueId) Store.stateKey = some text ∧
        parse? text = some stored ∧ h.storedItems? o (Store.queueBase queueId) = some items ∧
        belong queueId stored items ∧ q = settled stored items := by
  unfold restored?
  dsimp only
  constructor
  · intro hrestored
    split at hrestored
    · cases hrestored
    · next text htext =>
      split at hrestored
      · next stored list hstored hlist =>
        by_cases hbelong : belong queueId stored list
        · rw [if_pos hbelong] at hrestored
          cases hrestored
          exact ⟨text, stored, htext, hstored, hlist, hbelong, rfl⟩
        · rw [if_neg hbelong] at hrestored
          cases hrestored
      · cases hrestored
  · rintro ⟨text, stored, htext, hstored, hitems, hbelong, rfl⟩
    simp [htext, hstored, hitems, hbelong]

/-- What is restored for a queue belongs to it. -/
theorem belong_of_restored? {queueId : String} {q : Queue} {items : List QueueItem}
    (hrestored : h.restored? o queueId = some (q, items)) : belong queueId q items := by
  obtain ⟨text, stored, -, -, -, hbelong, rfl⟩ := (restored?_eq_some_iff o).1 hrestored
  exact hbelong

theorem belong_newEntry (r : PlayerReport) :
    belong r.playerId (h.newEntry o r).queue (h.newEntry o r).items := by
  unfold newEntry registered
  rcases hrestored : h.restored? o r.playerId with _ | ⟨q, items⟩
  · simp [belong, Queue.empty]
  · have hbelong := belong_of_restored? o hrestored
    exact hbelong

theorem belong_iff {queueId : String} {q : Queue} {items : List QueueItem} :
    belong queueId q items ↔ q.id = queueId ∧ (∀ i ∈ q.currentIndex, i < items.length) ∧
      ∀ i ∈ items, i.queueId = queueId := by
  cases hindex : q.currentIndex <;> simp [belong, hindex, and_assoc]

theorem id_newEntry (r : PlayerReport) : (h.newEntry o r).queue.id = r.playerId :=
  (belong_iff.1 (belong_newEntry o r)).1

theorem entry?_register (r : PlayerReport) (other : String) :
    entry? ((Act.register r).apply o h) other =
      if other = r.playerId then some ((h.newEntry o r).reported o r) else h.entry? other := by
  have hput : (h.register o r.playerId r.displayName r.available).2 =
      h.putEntry r.playerId (h.newEntry o r) := rfl
  have hreport : entry? (Hub.onReport (h.putEntry r.playerId (h.newEntry o r)) o r) other =
      if other = r.playerId then some ((h.newEntry o r).reported o r) else h.entry? other := by
    rw [touches_onReport o r fun e he => ?_]
    · by_cases ho : other = r.playerId <;> simp [ho]
    · simp only [entry?_putEntry, if_true, Option.some.injEq] at he
      rw [← he]
      exact id_newEntry o r
  exact hreport

theorem entry?_remove (playerId other : String) :
    entry? ((Act.remove playerId).apply o h) other =
      if other = playerId then none else h.entry? other :=
  Table.get?_erase h.queues playerId other

/-- The acts that edit no entry, make none and drop none. -/
theorem entry?_apply_of_none {a : Act} (ha : a.queueId? = none)
    (hregister : ∀ r, a ≠ .register r) (hremove : ∀ playerId, a ≠ .remove playerId)
    (other : String) : entry? (a.apply o h) other = h.entry? other := by
  cases a with
  | signal queueId itemsChanged => exact h.entry?_signal o queueId other itemsChanged
  | register r => exact absurd rfl (hregister r)
  | remove playerId => exact absurd rfl (hremove playerId)
  | dispatch => rfl
  | recordContainer => rfl
  | redraw => rfl
  | count => rfl
  | takeTurn => rfl
  | cancelAll => rfl
  | begin => rfl
  | _ => cases ha

/-! ## Properties of entries -/

theorem All.apply {P : String → Entry → Prop} (hall : h.All P) (hnamed : h.Named) {a : Act}
    (hedit : ∀ queueId e, a.queueId? = some queueId → h.entry? queueId = some e → P queueId e →
      P queueId (a.edit o h e))
    (hregister : ∀ r, a = .register r → P r.playerId ((h.newEntry o r).reported o r)) :
    (a.apply o h).All P := by
  intro queueId e he
  by_cases hr : ∃ r, a = .register r
  · obtain ⟨r, rfl⟩ := hr
    rw [entry?_register] at he
    by_cases hq : queueId = r.playerId
    · rw [if_pos hq, Option.some.injEq] at he
      rw [hq, ← he]
      exact hregister r rfl
    · rw [if_neg hq] at he
      exact hall queueId e he
  by_cases hp : ∃ playerId, a = .remove playerId
  · obtain ⟨playerId, rfl⟩ := hp
    rw [entry?_remove] at he
    by_cases hq : queueId = playerId
    · rw [if_pos hq] at he
      cases he
    · rw [if_neg hq] at he
      exact hall queueId e he
  cases ha : a.queueId? with
  | none =>
    rw [entry?_apply_of_none o ha (fun r h => hr ⟨r, h⟩) fun p h => hp ⟨p, h⟩] at he
    exact hall queueId e he
  | some target =>
    rw [touches_apply o (fun _ _ => hnamed) ha queueId] at he
    by_cases hq : queueId = target
    · rw [if_pos hq] at he
      obtain ⟨before, hbefore, rfl⟩ := Option.map_eq_some_iff.1 he
      exact hedit queueId before (by rw [ha, hq]) hbefore (hall queueId before hbefore)
    · rw [if_neg hq] at he
      exact hall queueId e he

end Hub

/-! ## Items of a queue -/

/-- Whether all items of a list have a queue as their owner. -/
def OwnedBy (queueId : String) (items : List QueueItem) : Prop :=
  ∀ i ∈ items, i.queueId = queueId

namespace OwnedBy

variable {queueId : String} {items batch : List QueueItem}

theorem of_perm {other : List QueueItem} (h : OwnedBy queueId items) (hp : other.Perm items) :
    OwnedBy queueId other :=
  fun i hi => h i (hp.mem_iff.1 hi)

theorem append {other : List QueueItem} (h : OwnedBy queueId items) (h' : OwnedBy queueId other) :
    OwnedBy queueId (items ++ other) := by
  intro i hi
  rcases List.mem_append.1 hi with hi | hi
  · exact h i hi
  · exact h' i hi

theorem upcoming (h : OwnedBy queueId items) (hbatch : OwnedBy queueId batch)
    (options : LoadOptions) : OwnedBy queueId (Edit.upcoming items batch options) := by
  unfold Edit.upcoming
  refine append ?_ ?_
  · intro i hi
    obtain ⟨n, hn, rfl⟩ := List.mem_mapIdx.1 hi
    exact hbatch batch[n] (List.getElem_mem hn)
  · split
    · intro i hi
      obtain ⟨before, hbefore, rfl⟩ := List.mem_map.1 hi
      exact h before (List.mem_of_mem_drop hbefore)
    · intro i hi
      cases hi

theorem splice (h : OwnedBy queueId items) (hbatch : OwnedBy queueId batch) (d : Draws)
    (options : LoadOptions) : OwnedBy queueId (Edit.splice d items batch options).1 := by
  have hplayed : OwnedBy queueId
      (if options.keepPlayed then items.take options.insertAt else []) := by
    split
    · exact fun i hi => h i (List.mem_of_mem_take hi)
    · intro i hi
      cases hi
  unfold Edit.splice
  cases options.shuffle with
  | false => exact hplayed.append (h.upcoming hbatch options)
  | true => exact hplayed.append ((h.upcoming hbatch options).of_perm (d.shuffle_perm _))

theorem reorder (h : OwnedBy queueId items) (d : Draws) (q : Queue) (shuffle : Bool) :
    OwnedBy queueId (Edit.reorder d q items shuffle).1 := by
  have hnext : OwnedBy queueId (items.drop (Edit.firstUpcoming q)) :=
    fun i hi => h i (List.mem_of_mem_drop hi)
  unfold Edit.reorder
  refine h.splice ?_ d _
  cases shuffle with
  | true => exact hnext
  | false => exact hnext.of_perm (List.mergeSort_perm _ _)

theorem move (h : OwnedBy queueId items) {q : Queue} {itemId : String} {shift : Int}
    {moved : List QueueItem} (hmove : Edit.move q items itemId shift = .ok (some moved)) :
    OwnedBy queueId moved := by
  obtain ⟨index, item, -, hitem, -, -, -, rfl⟩ := Edit.move_eq_some_iff.1 hmove
  intro i hi
  rcases (List.mem_insertIdx (Nat.min_le_right _ _)).1 hi with rfl | hi
  · exact h i (List.mem_of_find?_eq_some hitem)
  · exact h i (List.mem_of_mem_eraseIdx hi)

theorem delete (h : OwnedBy queueId items) {q : Queue} {key : ItemKey}
    {others : List QueueItem} (hdelete : Edit.delete q items key = .ok (some others)) :
    OwnedBy queueId others := by
  unfold Edit.delete at hdelete
  split at hdelete
  · cases hdelete
  · split at hdelete
    · cases hdelete
    · cases hdelete
      exact fun i hi => h i (List.mem_of_mem_eraseIdx hi)

end OwnedBy

theorem ItemChange.queueId_apply (change : ItemChange) (i : QueueItem) :
    (change.apply i).queueId = i.queueId := by
  cases change <;> rfl

/-- What an edit of a list makes of an entry whose queue and list are fine. -/
theorem Entry.edit_items {P : List QueueItem → Prop} {e : Entry}
    {f : Queue → List QueueItem → Except Failure (Option (List QueueItem))} (he : P e.items)
    (hf : ∀ items, f e.queue e.items = .ok (some items) → P items) : P (e.edit f).items := by
  unfold Entry.edit
  split
  · next items hitems => exact hf items hitems
  · exact he

/-! ## Every queue under its own id, with its own items -/

/-- Whether an entry belongs under an id: its queue has the id, and its items are owned by it. -/
def Entry.BelongsTo (queueId : String) (e : Entry) : Prop :=
  e.queue.id = queueId ∧ OwnedBy queueId e.items

/-- Whether an act loads only items of the queue that it loads them into. -/
def Act.Loads : Act → Prop
  | load queueId batch _ => OwnedBy queueId batch
  | _ => True

theorem QueueChange.id_apply (change : QueueChange) (q : Queue) :
    (change.apply q).id = q.id := by
  cases change with
  | settle prior =>
    simp only [QueueChange.apply, Queue.settle]
    split <;> rfl
  | arrive prior loaded =>
    simp only [QueueChange.apply, Queue.settle]
    split <;> rfl
  | keepPosition clock onlyActive =>
    simp only [QueueChange.apply]
    split <;> rfl
  | _ => rfl

namespace Entry

variable (e : Entry) (o : Outside)

theorem id_edit (f : Queue → List QueueItem → Except Failure (Option (List QueueItem))) :
    (e.edit f).queue.id = e.queue.id := by
  unfold Entry.edit
  split <;> rfl

theorem id_updateItem (itemId : String) (f : QueueItem → QueueItem) :
    (e.updateItem itemId f).queue.id = e.queue.id := by
  unfold Entry.updateItem
  split <;> rfl

theorem ownedBy_updateItem {queueId : String} (h : OwnedBy queueId e.items) (itemId : String)
    {f : QueueItem → QueueItem} (hf : ∀ i, (f i).queueId = i.queueId) :
    OwnedBy queueId (e.updateItem itemId f).items := by
  unfold Entry.updateItem
  split
  · next index item _ hitem =>
    intro i hi
    rcases List.mem_or_eq_of_mem_set hi with hi | rfl
    · exact h i hi
    · rw [hf]
      exact h item (List.mem_of_find?_eq_some hitem)
  · exact h

end Entry

/-- An edit leaves the id of the queue alone. -/
theorem Act.id_edit (a : Act) (o : Outside) (h : Hub) (e : Entry) :
    (a.edit o h e).queue.id = e.queue.id := by
  cases a with
  | modify queueId change => exact change.id_apply e.queue
  | updateItem queueId itemId change => exact e.id_updateItem itemId _
  | moveItem queueId itemId shift => exact e.id_edit _
  | deleteItem queueId key => exact e.id_edit _
  | startOver queueId =>
    simp only [edit, Entry.startOver]
    split <;> rfl
  | setShuffle queueId enabled =>
    simp only [edit, Entry.setShuffle]
    split <;> rfl
  | setDontStop queueId enabled =>
    simp only [edit, Entry.setDontStop]
    split
    · rfl
    · split <;> rfl
  | logFlow queueId entry =>
    simp only [edit, Entry.logFlow]
    split <;> rfl
  | report r => exact (e.reported_eq o r).1
  | _ => rfl

/-- An edit keeps the items of an entry its own. -/
theorem Act.ownedBy_edit {a : Act} (ha : a.Loads) (o : Outside) (h : Hub) {queueId : String}
    (hq : a.queueId? = some queueId) {e : Entry} (he : OwnedBy queueId e.items) :
    OwnedBy queueId (a.edit o h e).items := by
  cases a with
  | updateItem target itemId change => exact e.ownedBy_updateItem he itemId change.queueId_apply
  | load target batch options =>
    cases hq
    exact he.splice ha h.draws options
  | moveItem target itemId shift => exact Entry.edit_items he fun items hmove => he.move hmove
  | deleteItem target key => exact Entry.edit_items he fun items hdelete => he.delete hdelete
  | clear target =>
    intro i hi
    cases hi
  | startOver target =>
    simp only [edit, Entry.startOver]
    split
    · intro i hi
      cases hi
    · exact he
  | setShuffle target enabled =>
    simp only [edit, Entry.setShuffle]
    split
    · exact he
    · exact he.reorder h.draws e.queue enabled
  | setDontStop target enabled =>
    simp only [edit, Entry.setDontStop]
    split
    · exact he
    · split <;> exact he
  | logFlow target entry =>
    simp only [edit, Entry.logFlow]
    split <;> exact he
  | report r =>
    simp only [edit, (e.reported_eq o r).2.1]
    exact he
  | _ => exact he

namespace Hub

variable {h : Hub} (o : Outside)

theorem Named.putEntry (hnamed : h.Named) {queueId : String} {e : Entry}
    (hid : e.queue.id = queueId) : (h.putEntry queueId e).Named := by
  intro other e' he
  rw [entry?_putEntry] at he
  by_cases ho : other = queueId
  · rw [if_pos ho, Option.some.injEq] at he
    rw [← he, hid, ho]
  · rw [if_neg ho] at he
    exact hnamed other e' he

theorem Named.apply (hnamed : h.Named) (a : Act) : (a.apply o h).Named := by
  refine All.apply o hnamed hnamed (fun queueId e _ _ hid => ?_) fun r _ => ?_
  · rw [a.id_edit, hid]
  · rw [(Entry.reported_eq _ o r).1]
    exact id_newEntry o r

/-- An act that loads only items of the queue keeps every entry where it belongs. -/
theorem belongsTo_apply (hall : h.All Entry.BelongsTo) {a : Act} (ha : a.Loads) :
    (a.apply o h).All Entry.BelongsTo := by
  have hnamed : h.Named := fun queueId e he => (hall queueId e he).1
  refine All.apply o hall hnamed (fun queueId e hq _ hbelongs => ?_) fun r _ => ?_
  · exact ⟨by rw [a.id_edit, hbelongs.1], Act.ownedBy_edit ha o h hq hbelongs.2⟩
  · obtain ⟨hid, -, howner⟩ := belong_iff.1 (belong_newEntry (h := h) o r)
    obtain ⟨hreported, hitems, -, -⟩ := Entry.reported_eq (h.newEntry o r) o r
    exact ⟨by rw [hreported, hid], by rw [hitems]; exact howner⟩

end Hub

end Jukebox
