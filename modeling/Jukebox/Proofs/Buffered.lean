import Jukebox.Proofs.Ids
import Jukebox.Proofs.Runs
import Mathlib.Data.List.InsertIdx

/-!
# What is buffered stays in place

Up to the buffered position the player was handed the items of a queue. Deleting an item and turning
shuffle on or off leave them alone. A move takes no item from there either, but it may put one
there: it asks that the target is not before the current item, and the current item may be buffered,
with others behind it (`Act.Overtakes`). These moves are the only commands on the list that change
what is buffered (`buffered_kept_iff`).
-/

namespace Jukebox

/-- Whether an act rearranges the list of a queue. -/
def Act.Rearranges (queueId : String) : Act → Prop
  | moveItem other _ _ => other = queueId
  | deleteItem other _ => other = queueId
  | setShuffle other _ => other = queueId
  | _ => False

/-- Whether an act moves an item from behind the buffered position `last` to a place up to it. -/
def Act.Overtakes (e : Entry) (last : Nat) : Act → Prop
  | moveItem _ itemId shift =>
    ∃ index, indexOf? e.items itemId = some index ∧ last < index ∧
      (e.queue.currentIndex.getD 0 : Nat) ≤ Edit.target e.queue index shift ∧
      Edit.target e.queue index shift ≤ last
  | _ => False

variable {q : Queue} {items : List QueueItem} {last : Nat}

/-! ## Lists -/

theorem isBuffered_iff (hlast : q.bufferedIndex = some last) (index : Nat) :
    q.isBuffered index ↔ index ≤ last := by
  rw [Queue.isBuffered, hlast, Option.any_some, decide_eq_true_eq]

/-- An item has the searched id at the place where it is found, and at none before. -/
theorem ids_getElem?_ne {itemId : String} {index place : Nat}
    (hindex : indexOf? items itemId = some index) (hplace : place < index) :
    (ids items)[place]? ≠ some itemId := by
  intro hid
  obtain ⟨hlt, -, hfirst⟩ := List.findIdx?_eq_some_iff_getElem.1 hindex
  have hother := hfirst place hplace
  rw [ids, List.getElem?_map, List.getElem?_eq_getElem (by omega), Option.map_some,
    Option.some.injEq] at hid
  rw [hid] at hother
  exact hother (decide_eq_true rfl)

theorem exists_find?_of_indexOf? {itemId : String} {index : Nat}
    (hindex : indexOf? items itemId = some index) :
    ∃ item, items.find? (fun i => i.id = itemId) = some item := by
  obtain ⟨hlt, hid, -⟩ := List.findIdx?_eq_some_iff_getElem.1 hindex
  exact Option.isSome_iff_exists.1 (List.find?_isSome.2 ⟨_, List.getElem_mem hlt, hid⟩)

/-- What is taken from behind a place and put in front of it changes what is up to there. -/
theorem take_ids_insertIdx_iff {item : QueueItem} {index place : Nat}
    (hindex : indexOf? items item.id = some index) (hlast : last < index)
    (hplace : place ≤ (items.eraseIdx index).length) :
    (ids ((items.eraseIdx index).insertIdx place item)).take (last + 1) =
        (ids items).take (last + 1) ↔ last < place := by
  constructor
  · intro hsame
    refine Nat.lt_of_not_le fun hle => ids_getElem?_ne hindex (by omega : place < index) ?_
    have hat : ((ids ((items.eraseIdx index).insertIdx place item)).take (last + 1))[place]? =
        some item.id := by
      rw [List.getElem?_take_of_lt (by omega), ids, List.getElem?_map,
        List.getElem?_insertIdx_self, if_pos hplace, Option.map_some]
    rwa [hsame, List.getElem?_take_of_lt (by omega)] at hat
  · intro hlt
    rw [← ids_take, ← ids_take, List.take_insertIdx_eq_take_of_le _ _ _ _ hlt,
      List.take_eraseIdx_eq_take_of_le _ _ _ hlast]

/-- A move changes what is buffered exactly when it overtakes it. -/
theorem take_ids_move_iff {e : Entry} (hlast : e.queue.bufferedIndex = some last)
    (hlt : last < e.items.length) (queueId itemId : String) (shift : Int) :
    (ids (e.edit fun q items => Edit.move q items itemId shift).items).take (last + 1) =
        (ids e.items).take (last + 1) ↔ ¬ (Act.moveItem queueId itemId shift).Overtakes e last := by
  by_cases hmoves : ∃ moved, Edit.move e.queue e.items itemId shift = .ok (some moved)
  · obtain ⟨moved, hmove⟩ := hmoves
    obtain ⟨index, item, hindex, hitem, hbuffered, hfrom, -, rfl⟩ := Edit.move_eq_some_iff.1 hmove
    have hid : item.id = itemId := by simpa using List.find?_some hitem
    have hbehind : last < index := by
      rw [← Bool.not_eq_true, isBuffered_iff hlast] at hbuffered
      omega
    have hitems : (e.edit fun q items => Edit.move q items itemId shift).items =
        (e.items.eraseIdx index).insertIdx
          (min (Edit.target e.queue index shift).toNat (e.items.eraseIdx index).length) item := by
      simp only [Entry.edit, hmove]
      rfl
    have hlength := List.length_eraseIdx_of_lt (lt_length_of_indexOf? hindex)
    have hinside := lt_length_of_indexOf? hindex
    rw [hitems, take_ids_insertIdx_iff (hid ▸ hindex) hbehind (Nat.min_le_right _ _)]
    simp only [Act.Overtakes, hindex, Option.some.injEq, exists_eq_left']
    omega
  · -- nothing was moved, so nothing can have been overtaken
    have hitems : (e.edit fun q items => Edit.move q items itemId shift).items = e.items := by
      refine Entry.edit_items (P := fun items => items = e.items) rfl ?_
      intro moved hmove
      exact absurd ⟨moved, hmove⟩ hmoves
    rw [hitems]
    refine iff_of_true rfl ?_
    rintro ⟨index, hindex, hbehind, hfrom, hto⟩
    obtain ⟨item, hitem⟩ := exists_find?_of_indexOf? hindex
    have hbuffered : e.queue.isBuffered index = false := by
      rw [← Bool.not_eq_true, isBuffered_iff hlast]
      omega
    refine hmoves ⟨_, Edit.move_eq_some_iff.2 ⟨index, item, hindex, hitem, hbuffered, hfrom, ?_,
      rfl⟩⟩
    omega

/-- A deletion leaves alone what is buffered. -/
theorem take_ids_delete {e : Entry} (hlast : e.queue.bufferedIndex = some last) (key : ItemKey) :
    (ids (e.edit fun q items => Edit.delete q items key).items).take (last + 1) =
      (ids e.items).take (last + 1) := by
  refine Entry.edit_items (P := fun items => (ids items).take (last + 1) = _) rfl ?_
  intro others hdelete
  unfold Edit.delete at hdelete
  split at hdelete
  · cases hdelete
  · next index _ =>
    split at hdelete
    · cases hdelete
    · next hbuffered =>
      rw [isBuffered_iff hlast] at hbuffered
      cases hdelete
      rw [← ids_take, ← ids_take, List.take_eraseIdx_eq_take_of_le _ _ _ (by omega)]

/-- A new order of what is not buffered leaves alone what is. -/
theorem take_ids_reorder (hlast : q.bufferedIndex = some last) (hlt : last < items.length)
    (d : Draws) (shuffle : Bool) :
    (ids (Edit.reorder d q items shuffle).1).take (last + 1) = (ids items).take (last + 1) := by
  have hfirst : Edit.firstUpcoming q = last + 1 := by
    rw [Edit.firstUpcoming, hlast, Option.orElse_some]
  have hlength : (ids (items.take (last + 1))).length = last + 1 := by
    rw [ids, List.length_map, List.length_take]
    omega
  unfold Edit.reorder Edit.splice
  dsimp only
  rw [if_pos rfl, hfirst, ids_append, List.take_left' hlength, ids_take]

/-! ## Commands on the list -/

/-- Of a command that rearranges the list, what is buffered stays in place exactly when no item is
moved there from behind it. -/
theorem buffered_kept_iff {h : Hub} {queueId : String} {e : Entry}
    (he : h.entry? queueId = some e) {last : Nat} (hlast : e.queue.bufferedIndex = some last)
    (hlt : last < e.items.length) {a : Act} (ha : a.Rearranges queueId) (o : Outside) :
    (ids (Hub.items (a.apply o h) queueId)).take (last + 1) = (ids e.items).take (last + 1) ↔
      ¬ a.Overtakes e last := by
  have hitems : a.queueId? = some queueId → (∀ r, a ≠ .report r) →
      Hub.items (a.apply o h) queueId = (a.edit o h e).items := by
    intro htarget hreport
    have htouches :=
      Hub.touches_apply o (h := h) (fun r hr => absurd hr (hreport r)) htarget queueId
    rw [if_pos rfl, he] at htouches
    exact Hub.items_eq_of_entry _ _ htouches
  cases a with
  | moveItem other itemId shift =>
    rw [hitems (congrArg some ha) fun r hr => nomatch hr]
    exact take_ids_move_iff hlast hlt other itemId shift
  | deleteItem other key =>
    rw [hitems (congrArg some ha) fun r hr => nomatch hr]
    exact iff_of_true (take_ids_delete hlast key) id
  | setShuffle other enabled =>
    rw [hitems (congrArg some ha) fun r hr => nomatch hr]
    refine iff_of_true ?_ id
    simp only [Act.edit, Entry.setShuffle]
    split
    · rfl
    · exact take_ids_reorder hlast hlt h.draws enabled
  | _ => exact ha.elim

/-- The first of four items plays, and the player has begun to load the second one. -/
def House.secondLoads : List (Outside × Move) :=
  fill ["a", "b", "c", "d"] ++ request (.playIndex "den" (.index 0) 0 false false) ++
    [(world, .report (playing "qi1" 1))] ++ request (.trackLoaded "den" "qi2")

theorem House.secondLoads_entry :
    ∃ e, (session.run secondLoads).hub.entry? "den" = some e ∧ e.queue.bufferedIndex = some 1 ∧
      e.queue.currentIndex = some 0 ∧ ids e.items = ["qi1", "qi2", "qi3", "qi4"] := by
  have hentry : ((session.run secondLoads).hub.entry? "den").any (fun e =>
      decide (e.queue.bufferedIndex = some 1) && decide (e.queue.currentIndex = some 0) &&
        decide (ids e.items = ["qi1", "qi2", "qi3", "qi4"])) := by
    decide +kernel
  obtain ⟨e, he, hlooks⟩ := (Option.any_eq_true _ _).1 hentry
  simp only [Bool.and_eq_true, decide_eq_true_eq] at hlooks
  exact ⟨e, he, hlooks.1.1, hlooks.1.2, hlooks.2⟩

/-- The last item goes one place up, and the two that are buffered stay where they are. -/
theorem buffered_kept_secondLoads :
    let h := (House.session.run House.secondLoads).hub
    let a := Act.moveItem "den" "qi4" (-1)
    ids (Hub.items (a.apply House.world h) "den") = ["qi1", "qi2", "qi4", "qi3"] ∧
      ∃ e, h.entry? "den" = some e ∧ e.queue.bufferedIndex = some 1 ∧ 1 < e.items.length ∧
        (ids (Hub.items (a.apply House.world h) "den")).take 2 = (ids e.items).take 2 := by
  intro h a
  obtain ⟨e, he, hlast, hcurrent, hids⟩ := House.secondLoads_entry
  have hlength : e.items.length = 4 := by simpa [ids] using congrArg List.length hids
  refine ⟨by decide +kernel, e, he, hlast, by omega, ?_⟩
  refine (buffered_kept_iff he hlast (by omega) (a := a) rfl House.world).2 ?_
  rintro ⟨index, hindex, -, -, hto⟩
  obtain ⟨hid, hlt⟩ := indexOf?_spec hindex
  rw [hids] at hid
  have htarget : Edit.target e.queue index (-1) = index - 1 := rfl
  have hfour : index = 3 := by
    rw [hlength] at hlt
    obtain rfl | rfl | rfl | rfl : index = 0 ∨ index = 1 ∨ index = 2 ∨ index = 3 := by omega
    all_goals simp at hid ⊢
  omega

/-- The third item goes one place up, and the second one, which is buffered, gives way to it. -/
theorem buffered_item_displaced :
    let h := (House.session.run House.secondLoads).hub
    ∃ e, h.entry? "den" = some e ∧ e.queue.bufferedIndex = some 1 ∧ 1 < e.items.length ∧
      (ids e.items).take 2 = ["qi1", "qi2"] ∧
      (ids (Hub.items ((Act.moveItem "den" "qi3" (-1)).apply House.world h) "den")).take 2 =
        ["qi1", "qi3"] := by
  intro h
  obtain ⟨e, he, hlast, -, hids⟩ := House.secondLoads_entry
  have hlength : e.items.length = 4 := by simpa [ids] using congrArg List.length hids
  refine ⟨e, he, hlast, by omega, ?_, by decide +kernel⟩
  rw [hids]
  rfl

end Jukebox
