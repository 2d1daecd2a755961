import Jukebox.Proofs.Invariants
import Jukebox.Proofs.Shuffle
import Mathlib.Data.List.Perm.Basic

/-!
# What edits do to the ids of a list

Edits keep the items of a list as what they are: a splice adds the ids of its batch and drops those
that it is told to drop (`ids_splice`), a move and a new order keep all ids, and a deletion drops
one. An item that is looked up again keeps its id and its place.
-/

namespace Jukebox

variable {items : List QueueItem}

/-! ## Lists -/

theorem ids_perm {other : List QueueItem} (h : items.Perm other) : (ids items).Perm (ids other) :=
  h.map _

/-- The ids before and behind the place of a splice, with those of the batch. -/
theorem ids_splice (d : Draws) (items batch : List QueueItem) (options : LoadOptions) :
    (ids (Edit.splice d items batch options).1).Perm
      ((if options.keepPlayed then ids (items.take options.insertAt) else []) ++
        (ids batch ++
          if options.keepRemaining then ids (items.drop options.insertAt) else [])) := by
  have hdrop : items.drop (min options.insertAt items.length) = items.drop options.insertAt := by
    rcases Nat.le_total options.insertAt items.length with hle | hle
    · rw [Nat.min_eq_left hle]
    · rw [Nat.min_eq_right hle, List.drop_length, List.drop_of_length_le hle]
  have hupcoming : ids (Edit.upcoming items batch options) =
      ids batch ++ if options.keepRemaining then ids (items.drop options.insertAt) else [] := by
    unfold Edit.upcoming
    dsimp only
    rw [hdrop, ids_append, ids_numbered]
    cases options.keepRemaining with
    | false => rfl
    | true => simp
  have hplayed : ids (if options.keepPlayed then items.take options.insertAt else []) =
      if options.keepPlayed then ids (items.take options.insertAt) else [] := by
    cases options.keepPlayed <;> rfl
  rw [← hupcoming, ← hplayed]
  unfold Edit.splice
  dsimp only
  rw [ids_append]
  refine List.Perm.append_left _ ?_
  cases options.shuffle with
  | false => exact .refl _
  | true => exact ids_perm (d.shuffle_perm _)

/-- A splice that keeps what is around it adds the batch. -/
theorem ids_splice_keeping (d : Draws) (items batch : List QueueItem) {options : LoadOptions}
    (hplayed : options.keepPlayed = true) (hremaining : options.keepRemaining = true) :
    (ids (Edit.splice d items batch options).1).Perm (ids batch ++ ids items) := by
  refine (ids_splice d items batch options).trans ?_
  have hwhole : ids (items.take options.insertAt) ++ ids (items.drop options.insertAt) =
      ids items := by
    rw [← ids_append, List.take_append_drop]
  rw [if_pos hplayed, if_pos hremaining, ← hwhole]
  exact List.perm_append_comm_assoc _ _ _

/-- What a splice leaves are items of its batch and items of the list. -/
theorem ids_splice_subperm (d : Draws) (items batch : List QueueItem) (options : LoadOptions) :
    (ids (Edit.splice d items batch options).1).Subperm (ids batch ++ ids items) := by
  refine (ids_splice d items batch options).subperm.trans ?_
  have hwhole : (ids batch ++ ids items).Perm
      (ids (items.take options.insertAt) ++ (ids batch ++ ids (items.drop options.insertAt))) := by
    rw [← List.take_append_drop options.insertAt items, ids_append]
    rw [List.take_append_drop]
    exact List.perm_append_comm_assoc _ _ _
  refine List.Subperm.trans (List.Sublist.subperm ?_) hwhole.symm.subperm
  refine List.Sublist.append ?_ (List.Sublist.append_left ?_ _)
  · split
    · exact .refl _
    · exact List.nil_sublist _
  · split
    · exact .refl _
    · exact List.nil_sublist _

theorem ids_reorder (d : Draws) (q : Queue) (items : List QueueItem) (shuffle : Bool) :
    (ids (Edit.reorder d q items shuffle).1).Perm (ids items) := by
  have hnext : (if shuffle then items.drop (Edit.firstUpcoming q)
      else (items.drop (Edit.firstUpcoming q)).mergeSort
        fun a b => decide (a.sortIndex ≤ b.sortIndex)).Perm
      (items.drop (Edit.firstUpcoming q)) := by
    cases shuffle with
    | true => exact .refl _
    | false => exact List.mergeSort_perm _ _
  unfold Edit.reorder
  refine (ids_splice _ _ _ _).trans ?_
  simp only [if_true, Bool.false_eq_true, if_false, List.append_nil]
  refine ((ids_perm hnext).append_left _).trans ?_
  rw [← ids_append, List.take_append_drop]

theorem ids_move {q : Queue} {itemId : String} {shift : Int} {moved : List QueueItem}
    (hmove : Edit.move q items itemId shift = .ok (some moved)) : (ids moved).Perm (ids items) := by
  obtain ⟨index, item, hindex, hitem, -, -, -, rfl⟩ := Edit.move_eq_some_iff.1 hmove
  have hlt := lt_length_of_indexOf? hindex
  have hfound : items[index] = item :=
    (List.getElem?_eq_some_iff.1 (getElem?_of_indexOf? hindex hitem)).2
  refine ids_perm ((List.perm_insertIdx _ _ (Nat.min_le_right _ _)).trans ?_)
  rw [← hfound]
  exact List.getElem_cons_eraseIdx_perm hlt

theorem ids_delete {q : Queue} {key : ItemKey} {others : List QueueItem}
    (hdelete : Edit.delete q items key = .ok (some others)) : (ids others).Sublist (ids items) := by
  unfold Edit.delete at hdelete
  split at hdelete
  · cases hdelete
  · split at hdelete
    · cases hdelete
    · cases hdelete
      exact (List.eraseIdx_sublist _ _).map _

/-! ## Items that are looked up again -/

theorem ItemChange.id_apply (change : ItemChange) (i : QueueItem) : (change.apply i).id = i.id := by
  cases change <;> rfl

/-- Changing an item in place leaves the ids alone. -/
theorem Entry.ids_updateItem (e : Entry) (itemId : String) {f : QueueItem → QueueItem}
    (hf : ∀ i, (f i).id = i.id) : ids (e.updateItem itemId f).items = ids e.items := by
  unfold Entry.updateItem
  split
  · next index item hindex hitem =>
    obtain ⟨hget, hlt⟩ := indexOf?_spec hindex
    have hid : item.id = itemId := by simpa using List.find?_some hitem
    have hset : ids (e.items.set index (f item)) = (ids e.items).set index itemId := by
      rw [ids, List.map_set, hf, hid]
      rfl
    rw [← hid] at hget
    refine hset.trans ?_
    refine List.ext_getElem? fun n => ?_
    rw [List.getElem?_set]
    split
    · next heq =>
      subst heq
      rw [if_pos (by simpa [ids] using hlt), hget, hid]
    · rfl
  · rfl

end Jukebox
