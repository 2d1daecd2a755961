import Jukebox.Proofs.Buffered
import Jukebox.Proofs.Splicing

/-!
# Moves and deletions are atomic

A command that moves or deletes an item either fails, or has nothing to do, or changes the list. In
the first two cases the hub stays as it was (`Hub.edit_spec`). A move takes one item to another
place and lets all others follow one another as before (`Moves`); a deletion takes out the item that
its key names (`ItemKey.Names`). `edits_are_atomic` says which of these happens when.
-/

namespace Jukebox

/-- Whether the item at a place was played or handed to the player. -/
def Queue.Buffered (q : Queue) (place : Nat) : Prop :=
  ∃ last, q.bufferedIndex = some last ∧ place ≤ last

/-- Whether a key names the item at a place of a list. -/
def ItemKey.Names (items : List QueueItem) : ItemKey → Nat → Prop
  | index named, place => place = named ∧ named < items.length
  | id itemId, place => (ids items)[place]? = some itemId

/-- Whether a list comes from another one by taking an item from a place to another one. -/
structure Moves (items : List QueueItem) (index place : Nat) (moved : List QueueItem) : Prop where
  perm : moved.Perm items
  item : moved[place]? = items[index]?
  others : moved.eraseIdx place = items.eraseIdx index

variable {q : Queue} {items : List QueueItem} {itemId : String} {index place : Nat}

theorem isBuffered_iff_buffered : q.isBuffered index ↔ q.Buffered index := by
  rw [Queue.isBuffered, Option.any_eq_true]
  simp only [decide_eq_true_eq, Queue.Buffered]

/-! ## Lists of items with ids of their own -/

theorem indexOf?_of_notMem (habsent : itemId ∉ ids items) : indexOf? items itemId = none := by
  refine Option.eq_none_iff_forall_ne_some.2 fun index hindex => habsent ?_
  exact List.mem_of_getElem? (indexOf?_spec hindex).1

theorem index_unique (hapart : (ids items).Nodup) {other : Nat}
    (hid : (ids items)[index]? = some itemId) (hother : (ids items)[other]? = some itemId) :
    index = other :=
  (List.getElem?_inj (List.getElem?_eq_some_iff.1 hid).1 hapart).1 (hid.trans hother.symm)

theorem indexOf?_of_nodup (hapart : (ids items).Nodup) (hid : (ids items)[index]? = some itemId) :
    indexOf? items itemId = some index := by
  obtain ⟨found, hfound⟩ := exists_indexOf?_of_mem (List.mem_of_getElem? hid)
  rw [hfound, index_unique hapart (indexOf?_spec hfound).1 hid]

theorem moves_insertIdx {item : QueueItem} (hitem : items[index]? = some item)
    (hplace : place ≤ (items.eraseIdx index).length) :
    Moves items index place ((items.eraseIdx index).insertIdx place item) := by
  obtain ⟨hlt, rfl⟩ := List.getElem?_eq_some_iff.1 hitem
  refine ⟨?_, ?_, List.eraseIdx_insertIdx_self _⟩
  · exact (List.perm_insertIdx _ _ hplace).trans (List.getElem_cons_eraseIdx_perm hlt)
  · rw [List.getElem?_insertIdx_self, if_pos hplace, hitem]

namespace Edit

/-! ## Moves -/

variable {shift : Int}

theorem move_of_absent (habsent : itemId ∉ ids items) :
    move q items itemId shift = .error (.noItem itemId) := by
  rw [move, indexOf?_of_notMem habsent]

section Present

variable (hapart : (ids items).Nodup) (hid : (ids items)[index]? = some itemId)
include hapart hid

theorem exists_item : ∃ item, items[index]? = some item ∧
    items.find? (fun i => i.id = itemId) = some item := by
  have hindex := indexOf?_of_nodup hapart hid
  rw [find?_of_indexOf? hindex]
  exact ⟨_, List.getElem?_eq_getElem (lt_length_of_indexOf? hindex),
    List.getElem?_eq_getElem (lt_length_of_indexOf? hindex)⟩

theorem move_of_buffered (hbuffered : q.Buffered index) :
    move q items itemId shift = .error (.alreadyBuffered index) := by
  obtain ⟨item, -, hfound⟩ := exists_item hapart hid
  rw [move, indexOf?_of_nodup hapart hid, hfound]
  exact if_pos (isBuffered_iff_buffered.2 hbuffered)

/-- A move with a target before the current item or behind the list has nothing to do. -/
theorem move_of_outside (hfree : ¬ q.Buffered index)
    (hout : target q index shift < (q.currentIndex.getD 0 : Nat) ∨
      items.length < target q index shift) :
    move q items itemId shift = .ok none := by
  obtain ⟨item, -, hfound⟩ := exists_item hapart hid
  rw [move, indexOf?_of_nodup hapart hid, hfound]
  dsimp only
  rw [if_neg (hfree ∘ isBuffered_iff_buffered.1), if_pos hout]

/-- Any other move takes the item to its target, or to the end if that is nearer. -/
theorem exists_move_of_inside (hfree : ¬ q.Buffered index)
    (hin : ¬ (target q index shift < (q.currentIndex.getD 0 : Nat) ∨
      items.length < target q index shift)) :
    ∃ moved, move q items itemId shift = .ok (some moved) ∧
      Moves items index (min (target q index shift) (items.length - 1)).toNat moved := by
  obtain ⟨item, hitem, hfound⟩ := exists_item hapart hid
  have hlt := lt_length_of_indexOf? (indexOf?_of_nodup hapart hid)
  have hlength := List.length_eraseIdx_of_lt hlt
  have hplace : (min (target q index shift) (items.length - 1)).toNat =
      min (target q index shift).toNat (items.eraseIdx index).length := by
    omega
  rw [hplace]
  refine ⟨_, ?_, moves_insertIdx hitem (Nat.min_le_right _ _)⟩
  rw [move, indexOf?_of_nodup hapart hid, hfound]
  dsimp only
  rw [if_neg (hfree ∘ isBuffered_iff_buffered.1), if_neg hin]

end Present

/-! ## Deletions -/

/-- A key names no place where it is not found. -/
theorem position_of_absent {key : ItemKey} (habsent : ∀ place, ¬ key.Names items place) :
    ∃ failure, position items key = .error failure ∧ failure.isNotFound := by
  cases key with
  | index named =>
    refine ⟨.noIndex named, if_neg fun hlt => ?_, rfl⟩
    exact habsent named ⟨rfl, hlt⟩
  | id itemId =>
    refine ⟨.noItem itemId, ?_, rfl⟩
    rw [position, indexOf?_of_notMem fun hid => ?_]
    obtain ⟨place, hplace⟩ := List.mem_iff_getElem?.1 hid
    exact habsent place hplace

theorem position_of_names (hapart : (ids items).Nodup) {key : ItemKey}
    (hnames : key.Names items place) : position items key = .ok place := by
  cases key with
  | index named =>
    obtain ⟨rfl, hlt⟩ := hnames
    exact if_pos hlt
  | id itemId => rw [position, indexOf?_of_nodup hapart hnames]

end Edit

/-! ## The hub -/

namespace Hub

variable {h : Hub} {queueId : String} {e : Entry} (he : h.entry? queueId = some e)
include he

section Edits

variable {f : Queue → List QueueItem → Except Failure (Option (List QueueItem))}

theorem edit_of_some (o : Outside) (hf : f e.queue e.items = .ok (some items)) :
    (h.edit o queueId f).1 = .ok () ∧
      Relisted o queueId (e.commit e.queue items) h (h.edit o queueId f).2 := by
  simp only [edit, he, hf]
  exact ⟨trivial, relisted_commit he o e.queue items⟩

variable (hcounted : e.queue.itemCount = e.items.length)
include hcounted

theorem edit_of_error (o : Outside) {failure : Failure} (hf : f e.queue e.items = .error failure) :
    (h.edit o queueId f).1 = .error failure ∧ h.Unchanged (h.edit o queueId f).2 := by
  simp only [edit, he, hf]
  exact ⟨trivial, (recounted_putItems he).unchanged he hcounted⟩

theorem edit_of_none (o : Outside) (hf : f e.queue e.items = .ok none) :
    (h.edit o queueId f).1 = .ok () ∧ h.Unchanged (h.edit o queueId f).2 := by
  simp only [edit, he, hf]
  exact ⟨trivial, (recounted_putItems he).unchanged he hcounted⟩

end Edits

variable (hcounted : e.queue.itemCount = e.items.length)
include hcounted

theorem moveItem_of_absent (o : Outside) (shift : Int) (habsent : itemId ∉ ids e.items) :
    (h.moveItem o queueId itemId shift).1 = .error (.noItem itemId) ∧
      h.Unchanged (h.moveItem o queueId itemId shift).2 :=
  edit_of_error he hcounted o (Edit.move_of_absent habsent)

theorem moveItem_of_buffered (hapart : (ids e.items).Nodup) (o : Outside) (shift : Int)
    (hid : (ids e.items)[index]? = some itemId) (hbuffered : e.queue.Buffered index) :
    (h.moveItem o queueId itemId shift).1 = .error (.alreadyBuffered index) ∧
      h.Unchanged (h.moveItem o queueId itemId shift).2 :=
  edit_of_error he hcounted o (Edit.move_of_buffered hapart hid hbuffered)

/-- What a move of an item that is neither played nor buffered comes to. -/
theorem moveItem_of_free (hapart : (ids e.items).Nodup) (o : Outside) (shift : Int)
    (hid : (ids e.items)[index]? = some itemId) (hfree : ¬ e.queue.Buffered index) :
    let target := Edit.target e.queue index shift
    let r := h.moveItem o queueId itemId shift
    r.1 = .ok () ∧
      if target < (e.queue.currentIndex.getD 0 : Nat) ∨ e.items.length < target then
        h.Unchanged r.2
      else
        ∃ items, Moves e.items index (min target (e.items.length - 1)).toNat items ∧
          Relisted o queueId (e.commit e.queue items) h r.2 := by
  dsimp only
  split
  · next hout => exact edit_of_none he hcounted o (Edit.move_of_outside hapart hid hfree hout)
  · next hin =>
    obtain ⟨moved, hmove, hmoves⟩ := Edit.exists_move_of_inside hapart hid hfree hin
    obtain ⟨hok, hrelisted⟩ := edit_of_some he (f := fun q items => Edit.move q items itemId shift)
      o hmove
    exact ⟨hok, moved, hmoves, hrelisted⟩

theorem deleteItem_of_absent (o : Outside) {key : ItemKey}
    (habsent : ∀ place, ¬ key.Names e.items place) :
    ∃ failure, (h.deleteItem o queueId key).1 = .error failure ∧ failure.isNotFound ∧
      h.Unchanged (h.deleteItem o queueId key).2 := by
  obtain ⟨failure, hposition, hmissing⟩ := Edit.position_of_absent habsent
  have hdelete : Edit.delete e.queue e.items key = .error failure := by
    simp only [Edit.delete, hposition]
  obtain ⟨herror, hsame⟩ := edit_of_error he
    (f := fun q items => Edit.delete q items key) hcounted o hdelete
  exact ⟨failure, herror, hmissing, hsame⟩

theorem deleteItem_of_names (hapart : (ids e.items).Nodup) (o : Outside) {key : ItemKey}
    (hnames : key.Names e.items place) :
    (h.deleteItem o queueId key).1 = .ok () ∧
      (e.queue.Buffered place → h.Unchanged (h.deleteItem o queueId key).2) ∧
      (¬ e.queue.Buffered place →
        Relisted o queueId (e.commit e.queue (e.items.eraseIdx place)) h
          (h.deleteItem o queueId key).2) := by
  have hposition := Edit.position_of_names hapart hnames
  by_cases hbuffered : e.queue.Buffered place
  · have hdelete : Edit.delete e.queue e.items key = .ok none := by
      simp only [Edit.delete, hposition, isBuffered_iff_buffered.2 hbuffered, if_true]
    obtain ⟨hok, hsame⟩ := edit_of_none he
      (f := fun q items => Edit.delete q items key) hcounted o hdelete
    exact ⟨hok, fun _ => hsame, fun hfree => absurd hbuffered hfree⟩
  · have hdelete : Edit.delete e.queue e.items key = .ok (some (e.items.eraseIdx place)) := by
      simp only [Edit.delete, hposition]
      exact if_neg (hbuffered ∘ isBuffered_iff_buffered.1)
    obtain ⟨hok, hrelisted⟩ := edit_of_some he
      (f := fun q items => Edit.delete q items key) o hdelete
    exact ⟨hok, fun hbuffered' => absurd hbuffered' hbuffered, fun _ => hrelisted⟩

end Hub

/-- Moving fails where the item is not in the list or is buffered, and deleting where the key names
nothing. A failure leaves the hub as it was, and so do a move with a target before the current item
or behind the list and the deletion of a buffered item. Otherwise a move takes the item to its
target and a deletion takes it out, which is counted, told and stored. -/
theorem edits_are_atomic {h : Hub} {queueId : String} {e : Entry}
    (he : h.entry? queueId = some e) (hcounted : e.queue.itemCount = e.items.length)
    (hapart : (ids e.items).Nodup) (o : Outside) :
    (∀ itemId shift,
      let r := h.moveItem o queueId itemId shift
      ((∃ failure, r.1 = .error failure ∧ failure.isNotFound) ↔ itemId ∉ ids e.items) ∧
      (∀ index, r.1 = .error (.alreadyBuffered index) ↔
        (ids e.items)[index]? = some itemId ∧ e.queue.Buffered index) ∧
      (∀ failure, r.1 = .error failure → h.Unchanged r.2) ∧
      ∀ index, (ids e.items)[index]? = some itemId → ¬ e.queue.Buffered index →
        let current : Int := (e.queue.currentIndex.getD 0 : Nat)
        let target : Int :=
          if shift = 0 then (if e.queue.state = .playing then current + 1 else current)
          else index + shift
        r.1 = .ok () ∧
          if target < current ∨ e.items.length < target then h.Unchanged r.2
          else
            ∃ items, Moves e.items index (min target (e.items.length - 1)).toNat items ∧
              let queue := { e.queue with enqueuedNext := none, itemCount := items.length }
              Hub.Relisted o queueId { e with queue, items } h r.2) ∧
    ∀ key,
      let r := h.deleteItem o queueId key
      ((∃ failure, r.1 = .error failure ∧ failure.isNotFound) ↔
        ∀ place, ¬ ItemKey.Names e.items key place) ∧
      (∀ failure, r.1 = .error failure → h.Unchanged r.2) ∧
      ∀ place, key.Names e.items place →
        r.1 = .ok () ∧ (e.queue.Buffered place → h.Unchanged r.2) ∧
          (¬ e.queue.Buffered place →
            let items := e.items.eraseIdx place
            let queue := { e.queue with enqueuedNext := none, itemCount := items.length }
            Hub.Relisted o queueId { e with queue, items } h r.2) := by
  refine ⟨fun itemId shift => ?_, fun key => ?_⟩
  · by_cases hmem : itemId ∈ ids e.items
    · obtain ⟨place, hplace⟩ := List.mem_iff_getElem?.1 hmem
      have honly : ∀ index, (ids e.items)[index]? = some itemId → index = place :=
        fun index hid => index_unique hapart hid hplace
      by_cases hbuffered : e.queue.Buffered place
      · obtain ⟨herror, hsame⟩ :=
          Hub.moveItem_of_buffered he hcounted hapart o shift hplace hbuffered
        refine ⟨⟨?_, absurd hmem⟩, fun index => ⟨fun heq => ?_, ?_⟩, fun _ _ => hsame, ?_⟩
        · rintro ⟨failure, heq, hmissing⟩
          cases herror.symm.trans heq
          cases hmissing
        · cases herror.symm.trans heq
          exact ⟨hplace, hbuffered⟩
        · rintro ⟨hid, -⟩
          rw [honly index hid, herror]
        · intro index hid hfree
          exact absurd (honly index hid ▸ hbuffered) hfree
      · have hmove := Hub.moveItem_of_free he hcounted hapart o shift hplace hbuffered
        refine ⟨⟨?_, absurd hmem⟩, fun index => ⟨fun heq => ?_, ?_⟩, fun failure heq => ?_, ?_⟩
        · rintro ⟨failure, heq, -⟩
          cases hmove.1.symm.trans heq
        · cases hmove.1.symm.trans heq
        · rintro ⟨hid, hbuffered'⟩
          exact absurd (honly index hid ▸ hbuffered') hbuffered
        · cases hmove.1.symm.trans heq
        · intro index hid _
          cases honly index hid
          exact hmove
    · obtain ⟨herror, hsame⟩ := Hub.moveItem_of_absent he hcounted o shift hmem
      refine ⟨⟨fun _ => hmem, fun _ => ⟨_, herror, rfl⟩⟩, fun index => ⟨fun heq => ?_, ?_⟩,
        fun _ _ => hsame, ?_⟩
      · cases herror.symm.trans heq
      · rintro ⟨hid, -⟩
        exact absurd (List.mem_of_getElem? hid) hmem
      · intro index hid
        exact absurd (List.mem_of_getElem? hid) hmem
  · by_cases habsent : ∀ place, ¬ key.Names e.items place
    · obtain ⟨failure, herror, hmissing, hsame⟩ :=
        Hub.deleteItem_of_absent he hcounted o habsent
      exact ⟨⟨fun _ => habsent, fun _ => ⟨failure, herror, hmissing⟩⟩, fun _ _ => hsame,
        fun place hnames => absurd hnames (habsent place)⟩
    · obtain ⟨place, hnames⟩ := not_forall_not.1 habsent
      have hok := (Hub.deleteItem_of_names he hcounted hapart o hnames).1
      refine ⟨⟨?_, fun habsent' => absurd hnames (habsent' place)⟩, fun failure heq => ?_,
        fun place hnames => Hub.deleteItem_of_names he hcounted hapart o hnames⟩
      · rintro ⟨failure, heq, -⟩
        cases hok.symm.trans heq
      · cases hok.symm.trans heq

/-- Of four items the first two are buffered. The second one can neither be moved nor deleted, the
last one goes one place up, and the third one is taken out. -/
theorem edits_are_atomic_secondLoads :
    let h := (House.session.run House.secondLoads).hub
    let moved := h.moveItem House.world "den" "qi4" (-1)
    let deleted := h.deleteItem House.world "den" (.index 2)
    ids (moved.2.items "den") = ["qi1", "qi2", "qi4", "qi3"] ∧
      ids (deleted.2.items "den") = ["qi1", "qi2", "qi4"] ∧
      ∃ e, h.entry? "den" = some e ∧ e.queue.itemCount = e.items.length ∧ (ids e.items).Nodup ∧
        (h.moveItem House.world "den" "qi2" 1).1 = .error (.alreadyBuffered 1) ∧
        h.Unchanged (h.moveItem House.world "den" "qi2" 1).2 ∧
        h.Unchanged (h.deleteItem House.world "den" (.id "qi2")).2 := by
  intro h moved deleted
  obtain ⟨e, he, hlast, -, hids⟩ := House.secondLoads_entry
  have hcount : ((h.entry? "den").map (·.queue.itemCount)) = some 4 := by decide +kernel
  rw [he, Option.map_some, Option.some.injEq] at hcount
  have hcounted : e.queue.itemCount = e.items.length := by
    rw [hcount, ← List.length_map QueueItem.id]
    exact (congrArg List.length hids).symm
  have hapart : (ids e.items).Nodup := by
    rw [hids]
    decide
  have hsecond : (ids e.items)[1]? = some "qi2" := by rw [hids]; rfl
  have hbuffered : e.queue.Buffered 1 := ⟨1, hlast, Nat.le_refl 1⟩
  obtain ⟨hmove, hdelete⟩ := edits_are_atomic he hcounted hapart House.world
  have herror := ((hmove "qi2" 1).2.1 1).2 ⟨hsecond, hbuffered⟩
  exact ⟨by decide +kernel, by decide +kernel, e, he, hcounted, hapart, herror,
    (hmove "qi2" 1).2.2.1 _ herror, ((hdelete (.id "qi2")).2.2 1 hsecond).2.1 hbuffered⟩

end Jukebox
