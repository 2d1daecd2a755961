import Jukebox.Proofs.Shuffle
import Jukebox.Proofs.Tracing

/-!
# Passing over unplayable items

Which items are loaded, in which order, when the item that plays after another one is looked for in
a list that repeats, and each item can either be loaded or not. The positions behind the other item
are tried first, and from the end of the list on the first position is tried, over and over
(`tried_eq`): the attempts stop at the first item that loads (`loadNextItem_runs`). So every item is
tried once at most, and the one found is the first around the list that loads, exactly when the
other item is the first of the list, or the first one or one behind the other item loads
(`skipping_wraps_iff`).
-/

namespace Jukebox

/-! ## Positions -/

/-- So many positions, one after the other, behind a position of a list that repeats. -/
def tried (length : Nat) : Nat → Nat → List Nat
  | 0, _ => []
  | tries + 1, position =>
    (if length - 1 ≤ position then 0 else position + 1) :: tried length tries (position + 1)

/-- The positions behind a position up to the end of the list. -/
def behind (length position : Nat) : List Nat :=
  List.range' (position + 1) (length - 1 - position)

/-- All positions of a list from the one behind a position around to that position. -/
def around (length position : Nat) : List Nat := behind length position ++ List.range (position + 1)

/-- The beginning of a list up to the first element that passes a test. -/
def throughFirst {α : Type} (p : α → Bool) : List α → List α
  | [] => []
  | x :: xs => if p x then [x] else x :: throughFirst p xs

theorem nextIndex_all {length : Nat} (hlength : 0 < length) (position : Nat) :
    nextIndex length .all (some position) false true =
      some (if length - 1 ≤ position then 0 else position + 1) := by
  have hnone : length ≠ 0 := by omega
  have hmode : ¬ (RepeatMode.all = .one ∧ !false) := fun h => nomatch h.1
  unfold nextIndex
  dsimp only
  rw [if_neg hnone, if_neg hmode]
  by_cases hend : length - 1 ≤ position
  · rw [if_pos hend, if_pos ⟨rfl, rfl⟩, if_pos hend]
  · rw [if_neg hend, if_neg hend]

section ThroughFirst

variable {α : Type} {p : α → Bool} {xs ys : List α}

theorem throughFirst_of_none (h : ∀ x ∈ xs, p x = false) : throughFirst p xs = xs := by
  induction xs with
  | nil => rfl
  | cons x xs ih =>
    rw [throughFirst, h x List.mem_cons_self, ih fun y hy => h y (List.mem_cons_of_mem _ hy)]
    rfl

theorem throughFirst_append_of_any (h : ∃ x ∈ xs, p x = true) :
    throughFirst p (xs ++ ys) = throughFirst p xs := by
  induction xs with
  | nil => simp at h
  | cons x xs ih =>
    cases hx : p x with
    | true => simp [throughFirst, hx]
    | false =>
      have hmore : ∃ x ∈ xs, p x = true := by simpa [hx] using h
      simp [throughFirst, hx, ih hmore]

theorem throughFirst_append_of_none (h : ∀ x ∈ xs, p x = false) :
    throughFirst p (xs ++ ys) = xs ++ throughFirst p ys := by
  induction xs with
  | nil => rfl
  | cons x xs ih =>
    rw [List.cons_append, throughFirst, h x List.mem_cons_self,
      ih fun y hy => h y (List.mem_cons_of_mem _ hy)]
    rfl

theorem find?_throughFirst : (throughFirst p xs).find? p = xs.find? p := by
  induction xs with
  | nil => rfl
  | cons x xs ih =>
    cases hx : p x with
    | true => simp [throughFirst, hx]
    | false => simp [throughFirst, hx, ih]

theorem throughFirst_sublist : (throughFirst p xs).Sublist xs := by
  induction xs with
  | nil => exact .slnil
  | cons x xs ih =>
    unfold throughFirst
    split
    · exact (List.nil_sublist xs).cons_cons x
    · exact ih.cons_cons x

end ThroughFirst

theorem tried_of_le {length position : Nat} (hle : length - 1 ≤ position) (tries : Nat) :
    tried length tries position = List.replicate tries 0 := by
  induction tries generalizing position with
  | zero => rfl
  | succ tries ih =>
    rw [tried, if_pos hle, ih (Nat.le_succ_of_le hle)]
    rfl

/-- Behind the end of the list the first position is tried again and again. -/
theorem tried_eq {length position tries : Nat} (hle : length - 1 - position ≤ tries) :
    tried length tries position =
      behind length position ++ List.replicate (tries - (length - 1 - position)) 0 := by
  induction tries generalizing position with
  | zero =>
    have hnone : length - 1 - position = 0 := by omega
    simp [tried, behind, hnone]
  | succ tries ih =>
    by_cases hend : length - 1 ≤ position
    · have hnone : length - 1 - position = 0 := by omega
      rw [tried_of_le hend, behind, hnone]
      rfl
    · have hleft : length - 1 - position = length - 1 - (position + 1) + 1 := by omega
      rw [tried, if_neg hend, ih (by omega), behind, behind, hleft, List.range'_succ,
        List.cons_append, Nat.add_sub_add_right]

theorem nodup_behind (length position : Nat) : (behind length position).Nodup := List.nodup_range'

theorem mem_behind {length position index : Nat} :
    index ∈ behind length position ↔ position < index ∧ index < length := by
  rw [behind, List.mem_range'_1]
  omega

/-- The positions that are tried behind a position of a list that repeats, as the items load:
those up to the end, and then the first one as often as items are left, until an item loads. -/
def attempted (loads : Nat → Bool) (length position : Nat) : List Nat :=
  throughFirst loads (behind length position ++ List.replicate (position + 1) 0)

theorem throughFirst_tried {length position : Nat} (hlt : position < length) (loads : Nat → Bool) :
    throughFirst loads (tried length length position) = attempted loads length position := by
  have hleft : length - (length - 1 - position) = position + 1 := by omega
  rw [attempted, tried_eq (by omega), hleft]

/-- The attempts are those of going around the list, each position once at most, unless the first
item of the list and all behind the position fail, and the position is not the first one. -/
theorem attempted_iff {length position : Nat} (hlt : position < length) (loads : Nat → Bool) :
    (attempted loads length position).Nodup ∧
        (attempted loads length position).find? loads = (around length position).find? loads ↔
      position = 0 ∨ ∃ index < length, (index = 0 ∨ position < index) ∧ loads index := by
  have hzero : 0 ∉ behind length position := fun h => Nat.not_lt_zero _ (mem_behind.1 h).1
  rw [attempted, find?_throughFirst, around]
  by_cases hbehind : ∃ index ∈ behind length position, loads index = true
  · -- an item behind the position loads, and nothing else is tried
    obtain ⟨index, hindex, hloads⟩ := hbehind
    refine iff_of_true ⟨?_, ?_⟩ (.inr ⟨index, ?_⟩)
    · rw [throughFirst_append_of_any ⟨index, hindex, hloads⟩]
      exact (nodup_behind length position).sublist throughFirst_sublist
    · have hsome : ((behind length position).find? loads).isSome := by
        rw [List.find?_isSome]
        exact ⟨index, hindex, hloads⟩
      rw [List.find?_append, List.find?_append, Option.or_of_isSome hsome,
        Option.or_of_isSome hsome]
    · exact ⟨(mem_behind.1 hindex).2, .inr (mem_behind.1 hindex).1, hloads⟩
  · have hfail : ∀ index ∈ behind length position, loads index = false := by
      intro index hindex
      exact Bool.eq_false_iff.2 fun hloads => hbehind ⟨index, hindex, hloads⟩
    have hsingle : (behind length position ++ [0]).Nodup := by
      refine List.nodup_append.2 ⟨nodup_behind length position, List.pairwise_singleton _ 0, ?_⟩
      rintro index hindex _ hmem rfl
      rw [List.mem_singleton.1 hmem] at hindex
      exact hzero hindex
    rw [throughFirst_append_of_none hfail]
    by_cases hfirst : loads 0 = true
    · -- the first item of the list loads at its first attempt
      refine iff_of_true ⟨?_, ?_⟩ (.inr ⟨0, by omega, .inl rfl, hfirst⟩)
      · rw [List.replicate_succ, throughFirst, if_pos hfirst]
        exact hsingle
      · rw [List.find?_append, List.find?_append, List.replicate_succ, List.range_succ_eq_map,
          List.find?_cons_of_pos hfirst, List.find?_cons_of_pos hfirst]
    · rw [throughFirst_of_none fun index hindex => by
        rw [List.eq_of_mem_replicate hindex]
        exact Bool.eq_false_iff.2 hfirst]
      by_cases hposition : position = 0
      · subst hposition
        exact iff_of_true ⟨hsingle, rfl⟩ (.inl rfl)
      · -- the first item fails, and is tried once more for each item in front of the position
        refine iff_of_false (fun h => ?_) ?_
        · have htwice := h.1.sublist (List.sublist_append_right _ _)
          rw [List.nodup_replicate] at htwice
          omega
        · rintro (h | ⟨index, hindex, rfl | hlt, hloads⟩)
          · exact hposition h
          · exact hfirst hloads
          · exact hbehind ⟨index, mem_behind.2 ⟨hlt, hindex⟩, hloads⟩

/-! ## Lists with marked items -/

theorem QueueItem.markUnavailable_idem (i : QueueItem) :
    i.markUnavailable.markUnavailable = i.markUnavailable := by
  cases hmedia : i.media <;> simp [markUnavailable, hmedia]

/-- Whether a list is another one with some items marked as unplayable. -/
def MarkedFrom (items items' : List QueueItem) : Prop :=
  ∀ index : Nat, items'[index]? = items[index]? ∨
    items'[index]? = items[index]?.map QueueItem.markUnavailable

namespace MarkedFrom

variable {items items' : List QueueItem}

theorem refl (items : List QueueItem) : MarkedFrom items items := fun _ => .inl rfl

theorem getElem?_eq_none_iff (hmarked : MarkedFrom items items') (index : Nat) :
    items'[index]? = none ↔ items[index]? = none := by
  rcases hmarked index with h | h
  · rw [h]
  · rw [h, Option.map_eq_none_iff]

theorem length_eq (hmarked : MarkedFrom items items') : items'.length = items.length := by
  have h := hmarked.getElem?_eq_none_iff
  simp only [List.getElem?_eq_none_iff] at h
  exact Nat.le_antisymm ((h _).2 (Nat.le_refl _)) ((h _).1 (Nat.le_refl _))

theorem map_id_getElem? (hmarked : MarkedFrom items items') (index : Nat) :
    items'[index]?.map (·.id) = items[index]?.map (·.id) := by
  rcases hmarked index with h | h
  · rw [h]
  · rw [h, Option.map_map]
    rfl

theorem set (hmarked : MarkedFrom items items') {index : Nat} {item : QueueItem}
    (hitem : items'[index]? = some item) :
    MarkedFrom items (items'.set index item.markUnavailable) := by
  intro other
  by_cases ho : index = other
  · subst ho
    obtain ⟨hlt, -⟩ := List.getElem?_eq_some_iff.1 hitem
    rw [List.getElem?_set_self hlt]
    right
    rcases hmarked index with h | h
    · rw [← h, hitem, Option.map_some]
    · rw [hitem] at h
      obtain ⟨before, hbefore, rfl⟩ := Option.map_eq_some_iff.1 h.symm
      rw [hbefore, Option.map_some, QueueItem.markUnavailable_idem]
  · rw [List.getElem?_set_ne ho]
    exact hmarked other

end MarkedFrom

/-- Whether a queue repeats a list, some items of which were marked as unplayable. -/
def Hub.Repeats (h : Hub) (queueId : String) (items : List QueueItem) : Prop :=
  ∃ e, h.entry? queueId = some e ∧ e.queue.repeatMode = .all ∧ MarkedFrom items e.items

/-- Whether the entry of a queue is the same in two hubs, whatever happened to the others. -/
def Hub.SameEntry (queueId : String) (h h' : Hub) : Prop := h'.entry? queueId = h.entry? queueId

namespace Hub

variable {h h' : Hub} {queueId : String} {items : List QueueItem}

theorem Repeats.of_same (hrepeats : h.Repeats queueId items) (hsame : SameEntry queueId h h') :
    h'.Repeats queueId items := by
  obtain ⟨e, he, hlooks⟩ := hrepeats
  exact ⟨e, hsame.trans he, hlooks⟩

/-- An item that fails is marked, and the queue goes on to repeat its list. -/
theorem Repeats.mark (hrepeats : h.Repeats queueId items) (itemId : String) :
    (h.updateItem queueId itemId QueueItem.markUnavailable).2.Repeats queueId items := by
  obtain ⟨e, he, hmode, hmarked⟩ := hrepeats
  have htouches := @touches_updateItem h queueId itemId QueueItem.markUnavailable queueId
  rw [if_pos rfl, he, Option.map_some] at htouches
  refine ⟨_, htouches, ?_⟩
  unfold Entry.updateItem
  split
  · next index item hindex hitem =>
    exact ⟨hmode, hmarked.set (getElem?_of_indexOf? hindex hitem)⟩
  · exact ⟨hmode, hmarked⟩

end Hub

theorem indexOf?_of_ids {items : List QueueItem} {itemIds : List String} {itemId : String}
    {index : Nat} (hids : ids items = itemIds)
    (hindex : itemIds.findIdx? (· = itemId) = some index) :
    indexOf? items itemId = some index := by
  rw [indexOf?_eq, hids]
  exact hindex

/-! ## Attempts -/

section Attempts

variable (b : Behaviour) (queueId : String) (items : List QueueItem)

/-- Whether loading the item at a position of a list that repeats can make these calls and end so,
with nobody else at work on the queue. Items of the list may have been marked before. -/
def Attempt (index : Nat) (calls : List Call) (result : Except Failure QueueItem) : Prop :=
  ∃ h h₁ item, Hub.Repeats h queueId items ∧ (h.items queueId)[index]? = some item ∧
    (Command.loadItem queueId item (nextIndex items.length .all (some index) false false) false 0
      false).Runs b (Hub.SameEntry queueId) h calls result h₁

/-- Whether these calls are those of loading the items at some positions, one after the other. -/
inductive Attempts : List Nat → List Call → Prop
  | nil : Attempts [] []
  | cons {index : Nat} {indices : List Nat} {calls rest : List Call}
      {result : Except Failure QueueItem} (hfirst : Attempt b queueId items index calls result)
      (hrest : Attempts indices rest) : Attempts (index :: indices) (calls ++ rest)

/-- Whether the collaborators let each item of a list load, as `loads` says, or fail as one that can
not be found. -/
def Behaviour.Settles (loads : Nat → Bool) : Prop :=
  ∀ index calls result, Attempt b queueId items index calls result →
    if loads index then ∃ item, result = .ok item
    else ∃ failure, result = .error failure ∧ failure.isNotFound

end Attempts

namespace Command

variable {b : Behaviour} {queueId : String} {items : List QueueItem} {h h₁ : Hub}
  {calls : List Call}

/-- A command that begins with the entry of a queue that is there goes on with it. -/
theorem Runs.of_entry {α : Type} {f : Entry → Command α} {result : Except Failure α} {e : Entry}
    (he : h.entry? queueId = some e)
    (hruns : (entry queueId >>= f).Runs b (Hub.SameEntry queueId) h calls result h₁) :
    ∃ h', Hub.SameEntry queueId h h' ∧
      (f e).Runs b (Hub.SameEntry queueId) h' calls result h₁ := by
  unfold entry at hruns
  rw [bind_assoc] at hruns
  obtain ⟨o, h', hsame, hrest⟩ := hruns.of_look
  rw [hsame, he] at hrest
  exact ⟨h', hsame, hrest⟩

/-- Looking up the media of an item changes nothing, and fails as the library does. -/
theorem runs_freshMedia {item : QueueItem} {result : Except Failure (Option MediaItem)}
    (hruns : (freshMedia item).Runs b (Hub.SameEntry queueId) h calls result h₁) :
    h₁ = h ∧ ∀ failure, result = .error failure →
      ∃ media, b (.libraryItem media) (.error failure) := by
  have hpure : ∀ {media : Option MediaItem} {calls : List Call},
      (pure media : Command (Option MediaItem)).Runs b (Hub.SameEntry queueId) h calls result h₁ →
        h₁ = h ∧ ∀ failure, result = .error failure →
          ∃ media, b (.libraryItem media) (.error failure) := by
    intro media calls hruns
    obtain ⟨-, rfl, rfl⟩ := runs_pure_iff.1 hruns
    exact ⟨rfl, fun failure hfailed => nomatch hfailed⟩
  unfold freshMedia at hruns
  split at hruns
  · exact hpure hruns
  · next media hmedia =>
    rcases hruns.of_call with ⟨known, rest, -, -, hrest⟩ | ⟨failure, hreply, -, rfl, rfl⟩
    · cases known with
      | some known => exact hpure hrest
      | none =>
        dsimp only at hrest
        split at hrest
        · obtain ⟨full, h', first, rest, hcall, hrest, -⟩ := hrest.of_outcome_bind
          obtain ⟨-, -, rfl⟩ := runs_call_iff.1 hcall
          cases full with
          | ok full => exact hpure hrest
          | error failure => exact hpure hrest
        · exact hpure hrest
    · refine ⟨rfl, fun _ hfailed => ⟨media, ?_⟩⟩
      cases hfailed
      exact hreply

theorem updateItem_ok (hrepeats : h.Repeats queueId items) (itemId : String)
    (f : QueueItem → QueueItem) (failure : Failure) :
    (h.updateItem queueId itemId f).1 ≠ .error failure := by
  obtain ⟨e, he, -⟩ := hrepeats
  unfold Hub.updateItem
  rw [he]
  dsimp only
  split <;> exact fun hfailed => nomatch hfailed

/-- Loading an item ends with the item when its stream is found. Else it fails as the library or the
streams do, and leaves the queue as it is. -/
theorem runs_loadItem {item : QueueItem} {following : Option Nat} {isStart : Bool} {seek : UInt32}
    {fadeIn : Bool} {result : Except Failure QueueItem} (hrepeats : h.Repeats queueId items)
    (hruns : (loadItem queueId item following isStart seek fadeIn).Runs b (Hub.SameEntry queueId) h
      calls result h₁) :
    (∃ failure, result = .error failure ∧ Hub.SameEntry queueId h h₁ ∧
      ((∃ media, b (.libraryItem media) (.error failure)) ∨
        ∃ asked request, asked.id = item.id ∧
          b (.streamDetails asked request) (.error failure))) ∨
    ∃ loaded, result = .ok loaded ∧ loaded.id = item.id ∧
      ∃ asked request details, asked.id = item.id ∧
        b (.streamDetails asked request) (.ok details) := by
  obtain ⟨o, h₂, hsame, hruns⟩ := hruns.of_look
  rcases hruns.of_bind with ⟨media, h', _, _, hmedia, hruns, -⟩ | ⟨failure, hmedia, rfl⟩
  · obtain ⟨rfl, -⟩ := runs_freshMedia hmedia
    rcases hruns.of_call with ⟨details, _, hreply, -, hruns⟩ | ⟨failure, hreply, -, rfl, rfl⟩
    · obtain ⟨o', h₃, hsame', hruns⟩ := hruns.of_look
      rcases hruns.of_bind with ⟨updated, h₄, _, _, -, hruns, -⟩ | ⟨failure, hupdate, rfl⟩
      · obtain ⟨-, rfl, -⟩ := runs_pure_iff.1 hruns
        exact .inr ⟨_, rfl, rfl, { item with media }, _, details, rfl, hreply⟩
      · obtain ⟨-, o'', h₄, hsame'', hfailed, rfl⟩ := runs_step_iff.1 hupdate
        have hrepeats := ((hrepeats.of_same hsame).of_same hsame').of_same hsame''
        exact absurd hfailed.symm (updateItem_ok hrepeats _ _ _)
    · exact .inl ⟨failure, rfl, hsame, .inr ⟨{ item with media }, _, rfl, hreply⟩⟩
  · obtain ⟨rfl, hfailed⟩ := runs_freshMedia hmedia
    exact .inl ⟨failure, rfl, hsame, .inl (hfailed failure rfl)⟩

end Command

/-- The item at a position, or that nothing is left when there is none to load. -/
def Gives (items : List QueueItem) (result : Except Failure QueueItem) : Option Nat → Prop
  | some index => ∃ loaded, result = .ok loaded ∧ items[index]?.map (·.id) = some loaded.id
  | none => result = .error .noTracksLeft

namespace Command

variable {b : Behaviour} {queueId : String} {items : List QueueItem} {loads : Nat → Bool}
  {h h₁ : Hub} {calls : List Call} {result : Except Failure QueueItem}

/-- The item at each tried position is loaded in turn, up to the first one that loads. -/
theorem runs_loadFrom (hsettles : b.Settles queueId items loads) (hitems : 0 < items.length)
    {tries position : Nat} (hrepeats : h.Repeats queueId items)
    (hruns : (loadFrom queueId tries position).Runs b (Hub.SameEntry queueId) h calls result h₁) :
    Attempts b queueId items (throughFirst loads (tried items.length tries position)) calls ∧
      Gives items result ((tried items.length tries position).find? loads) := by
  induction tries generalizing position h calls with
  | zero =>
    obtain ⟨rfl, rfl, -⟩ := runs_throw_iff.1 hruns
    exact ⟨.nil, rfl⟩
  | succ tries ih =>
    obtain ⟨e, he, hmode, hmarked⟩ := hrepeats
    obtain ⟨h', hsame, hruns⟩ := hruns.of_entry he
    have hrepeats : h'.Repeats queueId items := ⟨e, hsame.trans he, hmode, hmarked⟩
    obtain ⟨index, hindex⟩ : ∃ index,
        (if items.length - 1 ≤ position then 0 else position + 1) = index := ⟨_, rfl⟩
    have hnext : nextIndex e.items.length e.queue.repeatMode (some position) false true =
        some index := by
      rw [hmode, hmarked.length_eq, nextIndex_all hitems, hindex]
    have hlt : index < e.items.length := by
      rw [hmarked.length_eq, ← hindex]
      split <;> omega
    have hitem : e.items[index]? = some e.items[index] := List.getElem?_eq_getElem hlt
    simp only [hnext, hitem] at hruns
    obtain ⟨outcome, h₂, first, rest, hload, hruns, rfl⟩ := hruns.of_outcome_bind
    rw [hmode, hmarked.length_eq] at hload
    have hattempt : Attempt b queueId items index first outcome :=
      ⟨h', h₂, e.items[index], hrepeats,
        by rw [Hub.items_eq_of_entry _ _ (hsame.trans he), hitem], hload⟩
    have hfate := hsettles _ _ _ hattempt
    rw [tried, hindex]
    by_cases hloads : loads index = true
    · -- the item loads, and nothing else is tried
      rw [if_pos hloads] at hfate
      obtain ⟨loaded, rfl⟩ := hfate
      obtain ⟨rfl, rfl, -⟩ := runs_pure_iff.1 hruns
      rw [throughFirst, if_pos hloads, List.find?_cons_of_pos hloads]
      refine ⟨.cons hattempt .nil, loaded, rfl, ?_⟩
      rcases runs_loadItem hrepeats hload with ⟨failure, hfailed, -⟩ | ⟨_, hloaded, hid, -⟩
      · cases hfailed
      · cases hloaded
        rw [← hmarked.map_id_getElem?, hitem, Option.map_some, hid]
    · -- the item fails and is marked, and the search goes on
      rw [if_neg hloads] at hfate
      obtain ⟨failure, rfl, hnotFound⟩ := hfate
      simp only [hnotFound, if_true] at hruns
      rcases runs_loadItem hrepeats hload with ⟨_, -, hkept, -⟩ | ⟨loaded, hloaded, -⟩
      · rw [throughFirst, if_neg hloads, List.find?_cons_of_neg hloads]
        have hkept := hrepeats.of_same hkept
        rcases hruns.of_bind with ⟨_, h₃, _, more, hupdate, hruns, rfl⟩ | ⟨_, hupdate, -⟩
        · obtain ⟨rfl, o, h₄, hsame', -, rfl⟩ := runs_step_iff.1 hupdate
          obtain ⟨hattempts, hgives⟩ := ih ((hkept.of_same hsame').mark e.items[index].id) hruns
          exact ⟨.cons hattempt hattempts, hgives⟩
        · obtain ⟨-, o, h₄, hsame', hfailed, -⟩ := runs_step_iff.1 hupdate
          exact absurd hfailed.symm (updateItem_ok (hkept.of_same hsame') _ _ _)
      · cases hloaded

/-- What is tried for the item that plays after another one, and what is found. -/
theorem runs_loadNextItem {e : Entry} (he : h.entry? queueId = some e)
    (hmode : e.queue.repeatMode = .all) (hsettles : b.Settles queueId e.items loads)
    {currentItemId : String} {current : Nat}
    (hcurrent : indexOf? e.items currentItemId = some current)
    (hruns : (loadNextItem queueId currentItemId).Runs b (Hub.SameEntry queueId) h calls result
      h₁) :
    Attempts b queueId e.items (attempted loads e.items.length current) calls ∧
      Gives e.items result ((attempted loads e.items.length current).find? loads) := by
  have hlt := lt_length_of_indexOf? hcurrent
  obtain ⟨h', hsame, hruns⟩ := hruns.of_entry he
  rw [hcurrent] at hruns
  rw [← throughFirst_tried hlt, find?_throughFirst]
  refine runs_loadFrom hsettles (by omega) ?_ hruns
  exact ⟨e, hsame.trans he, hmode, .refl e.items⟩

end Command

/-- While the collaborators let each item load or fail as one that can not be found, the item that
plays after another one of a list that repeats is always found or reported missing. Every item is
tried once at most, and it is the first one around the list that loads, exactly when the other item
is the first of the list, or the first item or one behind the other item loads. -/
theorem skipping_wraps_iff {b : Behaviour} (htotal : ∀ c, ∃ reply, b c reply) {h : Hub}
    {queueId : String} {e : Entry} (he : h.entry? queueId = some e)
    (hmode : e.queue.repeatMode = .all) {currentItemId : String} {current : Nat}
    (hcurrent : indexOf? e.items currentItemId = some current) {loads : Nat → Bool}
    (hsettles : b.Settles queueId e.items loads) :
    (∃ calls result h₁, (Command.loadNextItem queueId currentItemId).Runs b
        (Hub.SameEntry queueId) h calls result h₁) ∧
      (∀ calls result h₁, (Command.loadNextItem queueId currentItemId).Runs b
          (Hub.SameEntry queueId) h calls result h₁ →
        Attempts b queueId e.items (attempted loads e.items.length current) calls ∧
          Gives e.items result ((attempted loads e.items.length current).find? loads)) ∧
      ((attempted loads e.items.length current).Nodup ∧
          (attempted loads e.items.length current).find? loads =
            (around e.items.length current).find? loads ↔
        current = 0 ∨ ∃ index < e.items.length, (index = 0 ∨ current < index) ∧ loads index) := by
  refine ⟨?_, fun calls result h₁ hruns => ?_, ?_⟩
  · have hsame : ∀ h, Hub.SameEntry queueId h h := fun _ => rfl
    exact Program.exists_runs hsame htotal _ h
  · exact Command.runs_loadNextItem he hmode hsettles hcurrent hruns
  · exact attempted_iff (lt_length_of_indexOf? hcurrent) loads

namespace House

/-- The streams of some items can not be found. -/
def lacking (missing : List String) : Answers
  | .streamDetails item request =>
    if item.id ∈ missing then .error (.notFound item.id) else answers (.streamDetails item request)
  | c => answers c

/-- Every call gets the reply that is the answer for it. -/
def replies (answers : Answers) : Behaviour := fun c reply => reply = answers c

theorem settles_lacking (missing : List String) (items : List QueueItem) :
    (replies (lacking missing)).Settles "den" items
      fun index => (ids items)[index]?.any fun itemId => !missing.contains itemId := by
  rintro index calls result ⟨h, h₁, item, hrepeats, hitem, hruns⟩
  have hid : items[index]?.map (·.id) = some item.id := by
    obtain ⟨e, he, -, hmarked⟩ := hrepeats
    rw [← hmarked.map_id_getElem?, ← Hub.items_eq_of_entry _ _ he, hitem, Option.map_some]
  simp only [ids, List.getElem?_map, hid, Option.any_some]
  rcases Command.runs_loadItem hrepeats hruns with
    ⟨failure, rfl, -, hfailed⟩ | ⟨loaded, rfl, -, hfound⟩
  · rcases hfailed with ⟨media, hreply⟩ | ⟨asked, request, hasked, hreply⟩
    · cases hreply
    · rw [replies, lacking, hasked] at hreply
      split at hreply
      · next hmissing =>
        cases hreply
        simp [hmissing, Failure.isNotFound]
      · cases hreply
  · obtain ⟨asked, request, details, hasked, hreply⟩ := hfound
    rw [replies, lacking, hasked] at hreply
    split at hreply
    · cases hreply
    · next hfound => simp [hfound]

/-- The only player repeats its four tracks. -/
def repeating : List (Outside × Move) :=
  fill ["a", "b", "c", "d"] ++ request (.setRepeat "den" .all)

theorem repeating_entry :
    ∃ e, (session.run repeating).hub.entry? "den" = some e ∧ e.queue.repeatMode = .all ∧
      ids e.items = ["qi1", "qi2", "qi3", "qi4"] := by
  have hentry : ((session.run repeating).hub.entry? "den").any (fun e =>
      decide (e.queue.repeatMode = .all) &&
        decide (ids e.items = ["qi1", "qi2", "qi3", "qi4"])) := by
    decide +kernel
  obtain ⟨e, he, hlooks⟩ := (Option.any_eq_true _ _).1 hentry
  simp only [Bool.and_eq_true, decide_eq_true_eq] at hlooks
  exact ⟨e, he, hlooks⟩

theorem total_replies (answers : Answers) (c : Call) : ∃ reply, replies answers c reply :=
  ⟨answers c, rfl⟩

end House

/-- Behind the third of four tracks the fourth one fails, and the first one is found. -/
theorem skipping_wraps_to_first :
    let h := (House.session.run House.repeating).hub
    let b := House.replies (House.lacking ["qi4"])
    ∃ e, h.entry? "den" = some e ∧ indexOf? e.items "qi3" = some 2 ∧
      (∃ calls result h₁, (Command.loadNextItem "den" "qi3").Runs b (Hub.SameEntry "den") h calls
        result h₁) ∧
      ∀ calls result h₁, (Command.loadNextItem "den" "qi3").Runs b (Hub.SameEntry "den") h calls
          result h₁ →
        Attempts b "den" e.items [3, 0] calls ∧
          ∃ loaded, result = .ok loaded ∧ loaded.id = "qi1" := by
  intro h b
  obtain ⟨e, he, hmode, hids⟩ := House.repeating_entry
  have hcurrent : indexOf? e.items "qi3" = some 2 := indexOf?_of_ids hids rfl
  have hlength : e.items.length = 4 := by simpa [ids] using congrArg List.length hids
  have hsettles := House.settles_lacking ["qi4"] e.items
  rw [hids] at hsettles
  obtain ⟨hexists, hall, hround⟩ :=
    skipping_wraps_iff (House.total_replies _) he hmode hcurrent hsettles
  refine ⟨e, he, hcurrent, hexists, fun calls result h₁ hruns => ?_⟩
  obtain ⟨hattempts, hgives⟩ := hall calls result h₁ hruns
  rw [hlength] at hattempts hgives
  refine ⟨hattempts, ?_⟩
  obtain ⟨loaded, hloaded, hid⟩ := hgives
  rw [← List.getElem?_map, ← ids, hids] at hid
  exact ⟨loaded, hloaded, (Option.some.inj hid).symm⟩

/-- Behind the third of four tracks the fourth one and the first one fail. The first one is tried
twice more, and the second one, which would load, is not tried. -/
theorem skipping_retries_first :
    let h := (House.session.run House.repeating).hub
    let b := House.replies (House.lacking ["qi4", "qi1"])
    (∃ calls h₁, (Command.loadNextItem "den" "qi3").Runs b (Hub.SameEntry "den") h calls
        (.error .noTracksLeft) h₁ ∧
      (calls.filterMap fun c =>
        match c with
        | .streamDetails item _ => some item.id
        | _ => none) = ["qi4", "qi1", "qi1", "qi1"]) ∧
      ∃ e loads, h.entry? "den" = some e ∧ e.queue.repeatMode = .all ∧
        indexOf? e.items "qi3" = some 2 ∧ b.Settles "den" e.items loads ∧ loads 1 = true := by
  intro h b
  constructor
  · have hsame : ∀ h, Hub.SameEntry "den" h h := fun _ => rfl
    have hreplies : ∀ c, b c (House.lacking ["qi4", "qi1"] c) := fun _ => rfl
    have hruns := Program.runs_alone hsame hreplies House.world
      (Command.loadNextItem "den" "qi3").run h
    have hresult : Except.casesOn (motive := fun _ => Bool)
        ((Command.loadNextItem "den" "qi3").run.alone House.world
          (House.lacking ["qi4", "qi1"]) h).1
        (fun failure => decide (failure = .noTracksLeft)) (fun _ => false) = true := by
      decide +kernel
    cases hrun : ((Command.loadNextItem "den" "qi3").run.alone House.world
        (House.lacking ["qi4", "qi1"]) h).1 with
    | error failure =>
      rw [hrun] at hresult hruns
      rw [of_decide_eq_true hresult] at hruns
      exact ⟨_, _, hruns, by decide +kernel⟩
    | ok item =>
      rw [hrun] at hresult
      cases hresult
  · obtain ⟨e, he, hmode, hids⟩ := House.repeating_entry
    have hsettles := House.settles_lacking ["qi4", "qi1"] e.items
    rw [hids] at hsettles
    exact ⟨e, _, he, hmode, indexOf?_of_ids hids rfl, hsettles, rfl⟩

end Jukebox
