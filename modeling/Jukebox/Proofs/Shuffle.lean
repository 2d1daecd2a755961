import Jukebox.Proofs.Entries

/-!
# Shuffling and back

Turning shuffle on, editing the upcoming items, and turning shuffle off again ends with the list
that the same edits make of the list without any shuffling, whatever was drawn. While the upcoming
items are mixed, the numbers they got on insertion order them as they would stand without
shuffling (`Untangles`): a loaded batch is numbered below all that is behind it, and a deleted item
leaves the order of the others alone.
-/

namespace Jukebox

/-! ## Items named by their ids -/

def ids (items : List QueueItem) : List String := items.map (·.id)

@[simp] theorem ids_append (a b : List QueueItem) : ids (a ++ b) = ids a ++ ids b :=
  List.map_append

theorem ids_take (n : Nat) (items : List QueueItem) : ids (items.take n) = (ids items).take n :=
  List.map_take

theorem ids_drop (n : Nat) (items : List QueueItem) : ids (items.drop n) = (ids items).drop n :=
  List.map_drop

theorem ids_filter (itemId : String) (items : List QueueItem) :
    ids (items.filter fun i => i.id ≠ itemId) = (ids items).filter (· ≠ itemId) := by
  simp [ids, List.filter_map, Function.comp_def]

@[simp] theorem ids_numbered (first : Nat) (batch : List QueueItem) :
    ids (Edit.numbered first batch) = ids batch := by
  apply List.ext_getElem
  · simp [ids, Edit.numbered]
  · intro n hn hn'
    simp [ids, Edit.numbered]

@[simp] theorem ids_renumbered (offset : Nat) (items : List QueueItem) :
    ids (Edit.renumbered offset items) = ids items := by
  simp [ids, Edit.renumbered]

/-- Where an item is depends on the ids only. -/
theorem indexOf?_eq (items : List QueueItem) (itemId : String) :
    indexOf? items itemId = (ids items).findIdx? (· = itemId) := by
  rw [ids, List.findIdx?_map]
  rfl

theorem indexOf?_cons (i : QueueItem) (items : List QueueItem) (itemId : String) :
    indexOf? (i :: items) itemId =
      if i.id = itemId then some 0 else (indexOf? items itemId).map (· + 1) := by
  unfold indexOf?
  rw [List.findIdx?_cons]
  by_cases h : i.id = itemId <;> simp [h]

theorem exists_indexOf?_of_mem {items : List QueueItem} {itemId : String}
    (h : itemId ∈ ids items) : ∃ index, indexOf? items itemId = some index := by
  obtain ⟨i, hi, rfl⟩ := List.mem_map.1 h
  exact ⟨_, List.findIdx?_eq_some_of_exists ⟨i, hi, by simp⟩⟩

/-- The item found by its id is the first one with that id. -/
theorem indexOf?_spec {items : List QueueItem} {itemId : String} {index : Nat}
    (h : indexOf? items itemId = some index) :
    (ids items)[index]? = some itemId ∧ index < items.length := by
  obtain ⟨hlt, hid, -⟩ := List.findIdx?_eq_some_iff_getElem.1 h
  simp only [decide_eq_true_eq] at hid
  exact ⟨by simp [ids, hlt, hid], hlt⟩

/-- Dropping the only item with an id by its place is dropping it by its id. -/
theorem eraseIdx_eq_filter {items : List QueueItem} {itemId : String} {index : Nat}
    (hi : indexOf? items itemId = some index) (hone : (ids items).count itemId = 1) :
    items.eraseIdx index = items.filter fun i => i.id ≠ itemId := by
  induction items generalizing index with
  | nil => simp [indexOf?] at hi
  | cons i items ih =>
    rw [indexOf?_cons] at hi
    by_cases h : i.id = itemId
    · rw [if_pos h, Option.some.injEq] at hi
      have hnone : ∀ j ∈ items, j.id ≠ itemId := by
        have hzero : (ids items).count itemId = 0 := by simpa [ids, h] using hone
        intro j hj hji
        exact List.count_eq_zero.1 hzero (List.mem_map.2 ⟨j, hj, hji⟩)
      rw [← hi, List.eraseIdx_cons_zero, List.filter_cons_of_neg (by simpa using h)]
      exact (List.filter_eq_self.2 fun j hj => by simpa using hnone j hj).symm
    · rw [if_neg h] at hi
      obtain ⟨before, hb, rfl⟩ := Option.map_eq_some_iff.1 hi
      have hone' : (ids items).count itemId = 1 := by simpa [ids, h] using hone
      rw [List.eraseIdx_cons_succ, ih hb hone',
        List.filter_cons_of_pos (by simpa using h)]

/-! ## The order of insertion -/

/-- Items ordered by the numbers they got when they were inserted. -/
def InOrder (items : List QueueItem) : Prop := items.Pairwise fun a b => a.sortIndex < b.sortIndex

theorem inOrder_numbered (first : Nat) (batch : List QueueItem) :
    InOrder (Edit.numbered first batch) := by
  unfold InOrder Edit.numbered
  rw [List.pairwise_iff_getElem]
  intro a b ha hb hab
  simp only [List.getElem_mapIdx]
  omega

theorem InOrder.renumbered {items : List QueueItem} (h : InOrder items) (offset : Nat) :
    InOrder (Edit.renumbered offset items) := by
  unfold InOrder Edit.renumbered at *
  rw [List.pairwise_map]
  exact h.imp fun hab => Nat.add_lt_add_right hab offset

/-- A batch is numbered below everything that was moved behind it. -/
theorem InOrder.behind {items : List QueueItem} (h : InOrder items) (place : Nat)
    (batch : List QueueItem) :
    InOrder (Edit.numbered place batch ++
      Edit.renumbered (place + batch.length) items) := by
  refine List.pairwise_append.2 ⟨inOrder_numbered place batch, h.renumbered _, ?_⟩
  intro a ha b hb
  obtain ⟨n, hn, rfl⟩ := List.mem_iff_getElem.1 ha
  obtain ⟨i, hi, rfl⟩ := List.mem_map.1 hb
  rw [Edit.length_numbered] at hn
  simp only [Edit.numbered, List.getElem_mapIdx]
  omega

theorem pairwise_mergeSort_sortIndex (items : List QueueItem) :
    (items.mergeSort fun a b => decide (a.sortIndex ≤ b.sortIndex)).Pairwise
      fun a b => a.sortIndex ≤ b.sortIndex := by
  refine (List.pairwise_mergeSort ?_ ?_ items).imp of_decide_eq_true
  · intro a b c hab hbc
    simp only [decide_eq_true_eq] at *
    omega
  · intro a b
    simp only [Bool.or_eq_true, decide_eq_true_eq]
    omega

/-- Sorting by number finds the order of insertion again. -/
theorem InOrder.mergeSort_eq {order mixed : List QueueItem} (h : InOrder order)
    (hp : order.Perm mixed) :
    (mixed.mergeSort fun a b => decide (a.sortIndex ≤ b.sortIndex)) = order := by
  have hsorted := pairwise_mergeSort_sortIndex mixed
  have hperm := (List.mergeSort_perm mixed
    fun a b => decide (a.sortIndex ≤ b.sortIndex)).trans hp.symm
  refine List.Perm.eq_of_pairwise ?_ hsorted (h.imp Nat.le_of_lt) hperm
  -- two items of the order with one number are one item
  intro a b ha hb hab hba
  obtain ⟨m, hm, rfl⟩ := List.mem_iff_getElem.1 (hperm.mem_iff.1 ha)
  obtain ⟨n, hn, rfl⟩ := List.mem_iff_getElem.1 hb
  have hord := List.pairwise_iff_getElem.1 h
  rcases Nat.lt_trichotomy m n with hlt | rfl | hlt
  · have := hord m n hm hn hlt; omega
  · rfl
  · have := hord n m hn hm hlt; omega

/-! ## Splicing at the first upcoming place -/

/-- What is spliced in stands behind what was played, in the order of insertion or in a drawn
one. -/
theorem splice_eq_append {items : List QueueItem} {place : Nat} (hp : place ≤ items.length)
    (d : Draws) (batch : List QueueItem) (keepRemaining shuffle : Bool) :
    ∃ behind, (Edit.splice d items batch { insertAt := place, keepRemaining, shuffle }).1 =
        items.take place ++ behind ∧
      behind.Perm (Edit.numbered place batch ++
        if keepRemaining then Edit.renumbered (place + batch.length) (items.drop place) else []) ∧
      (shuffle = false → behind = Edit.numbered place batch ++
        if keepRemaining then
          Edit.renumbered (place + batch.length) (items.drop place) else []) := by
  have hmin : min place items.length = place := Nat.min_eq_left hp
  cases shuffle with
  | false => exact ⟨_, rfl, by simp [Edit.upcoming, hmin], fun _ => by simp [Edit.upcoming, hmin]⟩
  | true =>
    have hperm := d.shuffle_perm
      (Edit.upcoming items batch { insertAt := place, keepRemaining, shuffle := true })
    refine ⟨_, rfl, hperm.trans ?_, fun h => Bool.noConfusion h⟩
    simp [Edit.upcoming, hmin]

/-! ## A mixed list beside the plain one -/

/-- The items before `place` are those of the plain list, and those from it on are mixed, but their
numbers order them as in the plain list. -/
structure Untangles (place : Nat) (plain mixed : List QueueItem) : Prop where
  place_le : place ≤ plain.length
  place_le_mixed : place ≤ mixed.length
  played : ids (mixed.take place) = ids (plain.take place)
  upcoming : ∃ order, order.Perm (mixed.drop place) ∧ InOrder order ∧
    ids order = ids (plain.drop place)

namespace Untangles

variable {place : Nat} {plain mixed : List QueueItem}

/-- The two lists have the same items. -/
theorem ids_perm (u : Untangles place plain mixed) : (ids mixed).Perm (ids plain) := by
  obtain ⟨order, hperm, -, hids⟩ := u.upcoming
  rw [← List.take_append_drop place mixed, ← List.take_append_drop place plain, ids_append,
    ids_append, u.played, ← hids]
  exact (hperm.symm.map _).append_left _

theorem mem_drop (u : Untangles place plain mixed) {itemId : String}
    (hup : itemId ∈ (ids plain).drop place) : itemId ∈ (ids mixed).drop place := by
  obtain ⟨order, hperm, -, hids⟩ := u.upcoming
  rw [← ids_drop, ← hids] at hup
  rw [← ids_drop]
  exact (hperm.map (·.id)).mem_iff.1 hup

/-- Mixing the upcoming items for the first time. -/
theorem start (hp : place ≤ plain.length) (d : Draws) :
    Untangles place plain (Edit.splice d plain (plain.drop place)
      { insertAt := place, keepRemaining := false, shuffle := true }).1 := by
  obtain ⟨behind, heq, hperm, -⟩ := splice_eq_append hp d (plain.drop place) false true
  have hlen : (plain.take place).length = place := List.length_take_of_le hp
  simp only [Bool.false_eq_true, if_false, List.append_nil] at hperm
  rw [heq]
  exact
    { place_le := hp
      place_le_mixed := by rw [List.length_append, hlen]; omega
      played := by rw [List.take_left' hlen]
      upcoming := ⟨Edit.numbered place (plain.drop place),
        by rw [List.drop_left' hlen]; exact hperm.symm, inOrder_numbered _ _, by simp⟩ }

/-- A batch loaded at the first upcoming place, shuffled on one side or not. -/
theorem load (u : Untangles place plain mixed) (d d' : Draws) (batch : List QueueItem)
    (shuffle : Bool) :
    Untangles place (Edit.splice d plain batch { insertAt := place }).1
      (Edit.splice d' mixed batch { insertAt := place, shuffle }).1 := by
  obtain ⟨order, hperm, hord, hids⟩ := u.upcoming
  obtain ⟨tail, htail, -, heq⟩ := splice_eq_append u.place_le d batch true false
  obtain ⟨behind, hbehind, hbperm, -⟩ := splice_eq_append u.place_le_mixed d' batch true shuffle
  have hplain : (plain.take place).length = place := List.length_take_of_le u.place_le
  have hmixed : (mixed.take place).length = place := List.length_take_of_le u.place_le_mixed
  rw [htail, hbehind, heq rfl]
  simp only [if_true] at hbperm ⊢
  refine
    { place_le := by rw [List.length_append, hplain]; omega
      place_le_mixed := by rw [List.length_append, hmixed]; omega
      played := by rw [List.take_left' hplain, List.take_left' hmixed, u.played]
      upcoming := ⟨Edit.numbered place batch ++ Edit.renumbered (place + batch.length) order,
        ?_, hord.behind place batch, ?_⟩ }
  · rw [List.drop_left' hmixed]
    exact ((hperm.map _).append_left _).trans hbperm.symm
  · rw [List.drop_left' hplain]
    simp [hids]

/-- An upcoming item deleted on both sides. -/
theorem filter (u : Untangles place plain mixed) {itemId : String}
    (hup : itemId ∈ (ids plain).drop place) (hone : (ids plain).count itemId = 1) :
    Untangles place (plain.filter fun i => i.id ≠ itemId)
      (mixed.filter fun i => i.id ≠ itemId) := by
  obtain ⟨order, hperm, hord, hids⟩ := u.upcoming
  have hsplit := List.take_append_drop place (ids plain)
  have hup' := List.one_le_count_iff.2 hup
  have hkeep : ((ids plain).take place).count itemId = 0 := by
    rw [← hsplit, List.count_append] at hone; omega
  -- what was played does not hold the item, so deleting it leaves that part alone
  have hpart : ∀ items : List QueueItem, ids (items.take place) = ids (plain.take place) →
      (items.filter fun i => i.id ≠ itemId) =
        items.take place ++ (items.drop place).filter fun i => i.id ≠ itemId := by
    intro items hitems
    have hnone : ∀ i ∈ items.take place, i.id ≠ itemId := by
      rintro i hi rfl
      refine List.count_eq_zero.1 hkeep ?_
      rw [← ids_take, ← hitems]
      exact List.mem_map_of_mem hi
    have hself : ((items.take place).filter fun i => i.id ≠ itemId) = items.take place :=
      List.filter_eq_self.2 fun i hi => by simpa using hnone i hi
    calc (items.filter fun i => i.id ≠ itemId)
        = ((items.take place ++ items.drop place).filter fun i => i.id ≠ itemId) := by
          rw [List.take_append_drop]
      _ = items.take place ++ (items.drop place).filter fun i => i.id ≠ itemId := by
          rw [List.filter_append, hself]
  have hplain : (plain.take place).length = place := List.length_take_of_le u.place_le
  have hmixed : (mixed.take place).length = place := List.length_take_of_le u.place_le_mixed
  rw [hpart plain rfl, hpart mixed u.played]
  refine
    { place_le := by rw [List.length_append, hplain]; omega
      place_le_mixed := by rw [List.length_append, hmixed]; omega
      played := by rw [List.take_left' hplain, List.take_left' hmixed, u.played]
      upcoming := ⟨order.filter fun i => i.id ≠ itemId, ?_, ?_, ?_⟩ }
  · rw [List.drop_left' hmixed]; exact hperm.filter _
  · exact List.Pairwise.filter _ hord
  · rw [List.drop_left' hplain, ids_filter, ids_filter, hids]

/-- Putting the upcoming items back in order gives the plain list. -/
theorem ids_reorder (u : Untangles place plain mixed) (d : Draws) :
    ids (Edit.splice d mixed
      ((mixed.drop place).mergeSort fun a b => decide (a.sortIndex ≤ b.sortIndex))
      { insertAt := place, keepRemaining := false }).1 = ids plain := by
  obtain ⟨order, hperm, hord, hids⟩ := u.upcoming
  rw [hord.mergeSort_eq hperm]
  obtain ⟨behind, heq, -, hbehind⟩ := splice_eq_append u.place_le_mixed d order false false
  rw [heq, hbehind rfl]
  simp only [Bool.false_eq_true, if_false, List.append_nil, ids_append, ids_numbered]
  rw [u.played, hids, ← ids_append, List.take_append_drop]

end Untangles

/-! ## The list of a queue -/

/-- A queue has these items, and the first place that was neither played nor buffered. -/
def Hub.Holds (h : Hub) (queueId : String) (place : Nat) (shuffle : Bool)
    (items : List QueueItem) : Prop :=
  ∃ e, h.entry? queueId = some e ∧ e.items = items ∧ e.queue.shuffle = shuffle ∧
    Edit.firstUpcoming e.queue = place

theorem not_isBuffered {q : Queue} {index : Nat} (hi : Edit.firstUpcoming q ≤ index) :
    q.isBuffered index = false := by
  unfold Queue.isBuffered
  cases hb : q.bufferedIndex with
  | none => rfl
  | some buffered =>
    simp only [Edit.firstUpcoming, hb, Option.orElse_some] at hi
    simp only [Option.any_some, decide_eq_false_iff_not]
    omega

namespace Hub.Holds

variable {h : Hub} {queueId : String} {place : Nat} {shuffle : Bool} {items : List QueueItem}

theorem items_eq (hh : h.Holds queueId place shuffle items) : h.items queueId = items := by
  obtain ⟨e, he, rfl, -, -⟩ := hh
  exact h.items_eq_of_entry queueId he

theorem commit {e : Entry} (he : h.entry? queueId = some e) (o : Outside) {q : Queue}
    (hshuffle : q.shuffle = shuffle) (hplace : Edit.firstUpcoming q = place) :
    (h.commit o queueId q items).Holds queueId place shuffle items := by
  refine ⟨{ e with queue := { q with enqueuedNext := none, itemCount := items.length }, items },
    ?_, rfl, hshuffle, hplace⟩
  rw [entry?_commit, if_pos rfl, he, Option.map_some]

theorem load (hh : h.Holds queueId place shuffle items) (o : Outside) (batch : List QueueItem)
    (options : LoadOptions) :
    (h.load o queueId batch options).2.Holds queueId place shuffle
      (Edit.splice h.draws items batch options).1 := by
  obtain ⟨e, he, rfl, rfl, rfl⟩ := hh
  have hload : (h.load o queueId batch options).2 =
      ({ h with draws := (Edit.splice h.draws e.items batch options).2 }).commit o queueId e.queue
        (Edit.splice h.draws e.items batch options).1 := by
    simp only [Hub.load, he]
  rw [hload]
  exact commit (e := e) (by rw [entry?_draws, he]) o rfl rfl

theorem deleteItem (hh : h.Holds queueId place shuffle items) (o : Outside) {key : ItemKey}
    {index : Nat} (hkey : Edit.position items key = .ok index) (hi : place ≤ index) :
    (h.deleteItem o queueId key).2.Holds queueId place shuffle (items.eraseIdx index) := by
  obtain ⟨e, he, rfl, rfl, rfl⟩ := hh
  have hdelete : Edit.delete e.queue e.items key = .ok (some (e.items.eraseIdx index)) := by
    simp [Edit.delete, hkey, not_isBuffered hi]
  simp only [Hub.deleteItem, Hub.edit, he, hdelete]
  exact commit he o rfl rfl

theorem setShuffle (hh : h.Holds queueId place shuffle items) (o : Outside) (enabled : Bool)
    (hne : shuffle ≠ enabled) :
    ∃ d : Draws, (h.setShuffle o queueId enabled).2.Holds queueId place enabled
      (Edit.splice d items
        (if enabled then items.drop place
          else (items.drop place).mergeSort fun a b => decide (a.sortIndex ≤ b.sortIndex))
        { insertAt := place, keepRemaining := false, shuffle := enabled }).1 := by
  obtain ⟨e, he, rfl, rfl, rfl⟩ := hh
  refine ⟨h.draws, ?_⟩
  have hset : (h.setShuffle o queueId enabled).2 =
      ({ h with draws := (Edit.reorder h.draws e.queue e.items enabled).2 }).commit o queueId
        { e.queue with shuffle := enabled } (Edit.reorder h.draws e.queue e.items enabled).1 := by
    simp only [Hub.setShuffle, he, if_neg hne]
  rw [hset]
  simp only [Edit.reorder]
  exact commit (e := e) (by rw [entry?_draws, he]) o rfl rfl

end Hub.Holds

/-! ## Edits of the upcoming items -/

inductive UpcomingEdit where
  /-- A batch is loaded at the first upcoming place, shuffled with what is behind it or not. -/
  | load (batch : List QueueItem) (shuffle : Bool)
  /-- An item is deleted by its id, or by the position at which it stands. -/
  | delete (itemId : String) (byPosition : Bool)

namespace UpcomingEdit

/-- The edit without any shuffling. -/
def plain : UpcomingEdit → UpcomingEdit
  | load batch _ => load batch false
  | delete itemId byPosition => delete itemId byPosition

/-- The key by which an item of a list is deleted. -/
def keyOf (items : List QueueItem) (itemId : String) (byPosition : Bool) : ItemKey :=
  if byPosition then ((indexOf? items itemId).map .index).getD (.id itemId) else .id itemId

/-- The hub after an edit at the first upcoming place. -/
def run (queueId : String) (place : Nat) (h : Hub) (o : Outside) : UpcomingEdit → Hub
  | load batch shuffle => (h.load o queueId batch { insertAt := place, shuffle }).2
  | delete itemId byPosition =>
    (h.deleteItem o queueId (keyOf (h.items queueId) itemId byPosition)).2

/-- The hub after a sequence of edits, each made at an instant of its own. -/
def runAll (queueId : String) (place : Nat) (h : Hub) (edits : List (Outside × UpcomingEdit)) :
    Hub :=
  edits.foldl (fun h edit => edit.2.run queueId place h edit.1) h

/-- Whether an edit concerns upcoming items only: what it deletes is the one item of its id. -/
def Upcoming (place : Nat) (items : List QueueItem) : UpcomingEdit → Prop
  | load _ _ => True
  | delete itemId _ => itemId ∈ (ids items).drop place ∧ (ids items).count itemId = 1

/-- Whether each edit of a sequence concerns upcoming items of the list that it meets. -/
def AllUpcoming (queueId : String) (place : Nat) (h : Hub) :
    List (Outside × UpcomingEdit) → Prop
  | [] => True
  | (o, edit) :: more =>
    edit.Upcoming place (h.items queueId) ∧
      AllUpcoming queueId place (edit.run queueId place h o) more

theorem upcoming_plain (place : Nat) (items : List QueueItem) (edit : UpcomingEdit) :
    edit.plain.Upcoming place items ↔ edit.Upcoming place items := by
  cases edit <;> exact Iff.rfl

theorem position_keyOf {items : List QueueItem} {itemId : String} {index : Nat}
    (hi : indexOf? items itemId = some index) (byPosition : Bool) :
    Edit.position items (keyOf items itemId byPosition) = .ok index := by
  obtain ⟨-, hlt⟩ := indexOf?_spec hi
  cases byPosition <;> simp [keyOf, Edit.position, hi, hlt]

/-- The deletion of an upcoming item succeeds, and takes away the item of that id. -/
theorem holds_delete {h : Hub} {queueId : String} {place : Nat} {shuffle : Bool}
    {items : List QueueItem} (hh : h.Holds queueId place shuffle items) (o : Outside)
    {itemId : String} (byPosition : Bool)
    (hup : (delete itemId byPosition).Upcoming place items) :
    ((delete itemId byPosition).run queueId place h o).Holds queueId place shuffle
      (items.filter fun i => i.id ≠ itemId) := by
  obtain ⟨hmem, hone⟩ := hup
  obtain ⟨index, hi⟩ := exists_indexOf?_of_mem (List.mem_of_mem_drop hmem)
  obtain ⟨hid, hlt⟩ := indexOf?_spec hi
  have hplace : place ≤ index := by
    rcases Nat.lt_or_ge index place with hlt' | hge
    · exfalso
      have htake : itemId ∈ (ids items).take place :=
        List.mem_take_iff_getElem.2
          ⟨index, by simp [ids]; omega, (List.getElem?_eq_some_iff.1 hid).2⟩
      have h1 := List.one_le_count_iff.2 htake
      have h2 := List.one_le_count_iff.2 hmem
      rw [← List.take_append_drop place (ids items), List.count_append] at hone
      omega
    · exact hge
  have hrun := hh.deleteItem o (position_keyOf hi byPosition) hplace
  rw [eraseIdx_eq_filter hi hone] at hrun
  simpa only [run, hh.items_eq] using hrun

/-- An edit keeps the mixed list beside the plain one. -/
theorem untangles_run {h g : Hub} {queueId : String} {place : Nat} {plain mixed : List QueueItem}
    (hh : h.Holds queueId place false plain) (hg : g.Holds queueId place true mixed)
    (u : Untangles place plain mixed) (o : Outside) (edit : UpcomingEdit)
    (hup : edit.Upcoming place plain) :
    ∃ plain' mixed', (edit.plain.run queueId place h o).Holds queueId place false plain' ∧
      (edit.run queueId place g o).Holds queueId place true mixed' ∧
      Untangles place plain' mixed' := by
  cases edit with
  | load batch shuffle =>
    exact ⟨_, _, hh.load o batch _, hg.load o batch _, u.load h.draws g.draws batch shuffle⟩
  | delete itemId byPosition =>
    have hmixed : (delete itemId byPosition).Upcoming place mixed := by
      obtain ⟨hmem, hone⟩ := hup
      exact ⟨u.mem_drop hmem, by rw [u.ids_perm.count_eq, hone]⟩
    exact ⟨_, _, holds_delete hh o byPosition hup, holds_delete hg o byPosition hmixed,
      u.filter hup.1 hup.2⟩

/-- A sequence of edits keeps the mixed list beside the plain one. -/
theorem untangles_runAll {queueId : String} {place : Nat} (edits : List (Outside × UpcomingEdit))
    {h g : Hub} {plain mixed : List QueueItem} (hh : h.Holds queueId place false plain)
    (hg : g.Holds queueId place true mixed) (u : Untangles place plain mixed)
    (hup : AllUpcoming queueId place h (edits.map fun edit => (edit.1, edit.2.plain))) :
    ∃ plain' mixed',
      (runAll queueId place h (edits.map fun edit => (edit.1, edit.2.plain))).Holds queueId place
        false plain' ∧
      (runAll queueId place g edits).Holds queueId place true mixed' ∧
      Untangles place plain' mixed' := by
  induction edits generalizing h g plain mixed with
  | nil => exact ⟨plain, mixed, hh, hg, u⟩
  | cons edit more ih =>
    obtain ⟨hfirst, hmore⟩ := hup
    rw [hh.items_eq] at hfirst
    obtain ⟨plain', mixed', hh', hg', u'⟩ :=
      untangles_run hh hg u edit.1 edit.2 ((upcoming_plain place plain edit.2).1 hfirst)
    exact ih hh' hg' u' hmore

end UpcomingEdit

/-- Shuffle is transparent to the order of a list: turned on, edited under and turned off again, it
leaves the items in the order in which the same edits leave them without any shuffling. -/
theorem shuffle_transparent {h : Hub} {queueId : String} {e : Entry}
    (he : h.entry? queueId = some e) (hoff : e.queue.shuffle = false)
    (hplace : Edit.firstUpcoming e.queue ≤ e.items.length)
    (edits : List (Outside × UpcomingEdit))
    (hup : UpcomingEdit.AllUpcoming queueId (Edit.firstUpcoming e.queue) h
      (edits.map fun edit => (edit.1, edit.2.plain)))
    (before after : Outside) :
    let mixed := UpcomingEdit.runAll queueId (Edit.firstUpcoming e.queue)
      (h.setShuffle before queueId true).2 edits
    let plain := UpcomingEdit.runAll queueId (Edit.firstUpcoming e.queue) h
      (edits.map fun edit => (edit.1, edit.2.plain))
    ids ((mixed.setShuffle after queueId false).2.items queueId) = ids (plain.items queueId) := by
  intro mixed plain
  have hh : h.Holds queueId (Edit.firstUpcoming e.queue) false e.items := ⟨e, he, rfl, hoff, rfl⟩
  obtain ⟨d, hon⟩ := hh.setShuffle before true (by decide)
  obtain ⟨plain', mixed', hplain, hmixed, u⟩ :=
    UpcomingEdit.untangles_runAll edits hh hon (Untangles.start hplace d) hup
  obtain ⟨d', hback⟩ := hmixed.setShuffle after false (by decide)
  rw [hback.items_eq, hplain.items_eq]
  exact u.ids_reorder d'

/-- A queue at the first of four items. -/
def fourItems : Entry :=
  { queue := { Queue.empty "den" "Den" true with currentIndex := some 0 }
    items := ["a", "b", "c", "d"].map fun id =>
      { id, queueId := "den", name := id, uri := id, sortIndex := 0, available := true } }

theorem shuffle_transparent_fourItems :
    let h := (Hub.start {} {} default 1).putEntry "den" fourItems
    let batch := fourItems.items.map fun i => { i with id := "new " ++ i.id }
    let edits := [(Outside.quiet, UpcomingEdit.load batch true), (.quiet, .delete "c" true)]
    let mixed := UpcomingEdit.runAll "den" 1 (h.setShuffle .quiet "den" true).2 edits
    ids ((mixed.setShuffle .quiet "den" false).2.items "den") =
      ["a", "new a", "new b", "new c", "new d", "b", "d"] := by
  intro h batch edits mixed
  have hup : UpcomingEdit.AllUpcoming "den" 1 h (edits.map fun edit => (edit.1, edit.2.plain)) :=
    ⟨trivial, ⟨by decide +kernel, by decide +kernel⟩, trivial⟩
  have hids := shuffle_transparent (h := h) (e := fourItems) rfl rfl (by decide) edits hup .quiet
    .quiet
  exact hids.trans (by decide +kernel)

end Jukebox
