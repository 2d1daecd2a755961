import Jukebox.Proofs.Advancing
import Mathlib.Order.Bounds.Defs

/-!
# The item that plays next

Which item plays by itself after another one. The search moves from position to position as the
repeat mode says, passes over the items that can not be played, and looks at as many positions as
there are items. That is enough: without a repeat it comes to every position behind the first one,
and in a list that repeats to every position, last to the one where it began (`nextPlayable_ahead`).
An item that repeats is looked at over and over (`nextPlayable_one`). So the first playable item is
found, and nothing is found exactly when there is none (`next_playable_found`).
-/

namespace Jukebox

/-- There is an item at a position, and neither it nor its media is marked as unplayable. -/
def PlayableAt (items : List QueueItem) (index : Nat) : Prop :=
  ∃ item ∈ items[index]?, item.available = true ∧ ∀ media ∈ item.media, media.available = true

instance (items : List QueueItem) : DecidablePred (PlayableAt items) := fun index =>
  inferInstanceAs (Decidable (∃ item ∈ items[index]?,
    item.available = true ∧ ∀ media ∈ item.media, media.available = true))

theorem QueueItem.isUnplayable_eq_false_iff {i : QueueItem} :
    i.isUnplayable = false ↔ i.available = true ∧ ∀ media ∈ i.media, media.available = true := by
  cases hmedia : i.media with
  | none => simp [isUnplayable, hmedia]
  | some media => simp [isUnplayable, hmedia]

/-! ## Moving on -/

section Moves

variable {mode : RepeatMode} {length position : Nat}

/-- Whether the listener skips matters only where one item repeats. -/
theorem nextIndex_of_ne_one (hmode : mode ≠ .one) (cursor : Option Nat) (mayRepeat : Bool) :
    nextIndex length mode cursor false mayRepeat = nextIndex length mode cursor true mayRepeat := by
  cases cursor with
  | none => rfl
  | some position => simp [nextIndex, hmode]

theorem nextIndex_one (hlength : 0 < length) (position : Nat) :
    nextIndex length .one (some position) false true = some position := by
  have hnone : length ≠ 0 := by omega
  simp [nextIndex, hnone]

/-- From behind the end of the list one moves on as from its last position. -/
theorem nextIndex_of_le (hmode : mode ≠ .one) (hle : length - 1 ≤ position)
    (skipping mayRepeat : Bool) :
    nextIndex length mode (some position) skipping mayRepeat =
      nextIndex length mode (some (length - 1)) skipping mayRepeat := by
  simp [nextIndex, hmode, hle]

theorem mem_around (hlt : position < length) {index : Nat} :
    index ∈ around length position ↔ index < length := by
  rw [around, List.mem_append, mem_behind, List.mem_range]
  omega

/-- Around the list from its last position all of it lies ahead in order. -/
theorem around_last (length : Nat) :
    around length (length - 1) = List.range' 0 (length - 1 + 1) := by
  rw [around, behind_of_le (Nat.le_refl _), List.nil_append, List.range_eq_range']

end Moves

section Search

variable {items : List QueueItem} {mode : RepeatMode} {position index tries : Nat}

theorem PlayableAt.lt (hplayable : PlayableAt items index) : index < items.length := by
  obtain ⟨item, hitem, -⟩ := hplayable
  exact (List.getElem?_eq_some_iff.1 hitem).1

theorem playableAt_iff {item : QueueItem} (hitem : items[index]? = some item) :
    PlayableAt items index ↔ item.isUnplayable = false := by
  simp [PlayableAt, hitem, QueueItem.isUnplayable_eq_false_iff]

/-! ## The search -/

/-- One look of the search. -/
theorem seekPlayable_succ {cursor : Option Nat}
    (hnext : nextIndex items.length mode cursor false true = some index)
    (hlt : index < items.length) :
    seekPlayable items mode (tries + 1) cursor =
      if PlayableAt items index then some index
      else seekPlayable items mode tries (some index) := by
  obtain ⟨item, hitem⟩ : ∃ item, items[index]? = some item := ⟨_, List.getElem?_eq_getElem hlt⟩
  simp only [seekPlayable, hnext, hitem, playableAt_iff hitem]
  cases item.isUnplayable <;> rfl

/-- Unless one item repeats, the search finds the first playable item that skipping leads to. -/
theorem seekPlayable_skipped (hmode : mode ≠ .one) (hitems : 0 < items.length) :
    seekPlayable items mode tries (some position) =
      (skipped mode items.length tries position).find? (PlayableAt items ·) := by
  induction tries generalizing position with
  | zero => rfl
  | succ tries ih =>
    rw [skipped]
    cases hnext : nextIndex items.length mode (some position) true true with
    | none =>
      rw [seekPlayable, nextIndex_of_ne_one hmode, hnext]
      rfl
    | some index =>
      have hlt : index < items.length := nextIndex_lt hitems hnext
      rw [seekPlayable_succ ((nextIndex_of_ne_one hmode _ _).trans hnext) hlt, ih]
      by_cases hplayable : PlayableAt items index <;> simp [hplayable]

theorem nextPlayable_ahead (hmode : mode ≠ .one) (hlt : position < items.length) :
    nextPlayable items mode (some position) =
      (ahead mode items.length position).find? (PlayableAt items ·) := by
  rw [nextPlayable, seekPlayable_skipped hmode (by omega), skipped_ahead hlt]

/-- From behind the end of the list the search goes on as from its last position. -/
theorem nextPlayable_of_le (hmode : mode ≠ .one) (hle : items.length ≤ position) :
    nextPlayable items mode (some position) =
      (ahead mode items.length (items.length - 1)).find? (PlayableAt items ·) := by
  cases htries : items.length with
  | zero =>
    -- around an empty list lies its first position, where there is nothing
    have hnone : ∀ index, ¬ PlayableAt items index := fun index hplayable => by
      have hindex := hplayable.lt
      omega
    rw [nextPlayable, htries, List.find?_eq_none.2 fun index _ => by simpa using hnone index]
    rfl
  | succ tries =>
    have hmoves := nextIndex_of_le hmode (Nat.le_trans (Nat.sub_le _ 1) hle) false true
    rw [← htries, ← nextPlayable_ahead hmode (by omega), nextPlayable, nextPlayable]
    rw [htries] at hmoves ⊢
    rw [seekPlayable, seekPlayable, htries, hmoves]

/-- The search for an item that repeats looks at nothing else. -/
theorem seekPlayable_one (hlt : position < items.length) :
    seekPlayable items .one tries (some position) =
      (List.replicate tries position).find? (PlayableAt items ·) := by
  induction tries with
  | zero => rfl
  | succ tries ih =>
    rw [seekPlayable_succ (nextIndex_one (by omega) position) hlt, ih, List.replicate_succ]
    by_cases hplayable : PlayableAt items position <;> simp [hplayable]

theorem nextPlayable_one (items : List QueueItem) (position : Nat) :
    nextPlayable items .one (some position) =
      if PlayableAt items position then some position else none := by
  by_cases hlt : position < items.length
  · have hitems : items.length ≠ 0 := by omega
    rw [nextPlayable, seekPlayable_one hlt, List.find?_replicate, if_neg hitems]
    simp only [decide_eq_true_eq]
  · -- the first look is at the position itself, where there is no item
    have hmissing : items[position]? = none := List.getElem?_eq_none (by omega)
    rw [if_neg fun h : PlayableAt items position => hlt h.lt, nextPlayable]
    cases htries : items.length with
    | zero => rfl
    | succ tries =>
      rw [seekPlayable, nextIndex_one (by omega)]
      dsimp only
      rw [hmissing]

theorem nextPlayable_none (items : List QueueItem) (mode : RepeatMode) :
    nextPlayable items mode none = none := by
  unfold nextPlayable
  cases items.length <;> rfl

/-! ## Positions in ascending order -/

/-- In a run of positions up to the end of the list the first playable one is the least. -/
theorem find?_run_eq_some_iff {first count : Nat} (hcount : items.length ≤ first + count) :
    (List.range' first count).find? (PlayableAt items ·) = some index ↔
      IsLeast {index | first ≤ index ∧ PlayableAt items index} index := by
  simp only [List.find?_range'_eq_some, decide_eq_true_eq, List.mem_range'_1, Bool.not_eq_true',
    decide_eq_false_iff_not]
  constructor
  · rintro ⟨hplayable, ⟨hfrom, -⟩, hfirst⟩
    refine ⟨⟨hfrom, hplayable⟩, fun other hother => ?_⟩
    by_contra hlt
    exact hfirst other hother.1 (by omega) hother.2
  · rintro ⟨⟨hfrom, hplayable⟩, hleast⟩
    have hlt := hplayable.lt
    refine ⟨hplayable, by omega, fun other hother hbefore hplays => ?_⟩
    have hle : index ≤ other := hleast ⟨hother, hplays⟩
    omega

theorem find?_run_eq_none_iff {first count : Nat} (hcount : items.length ≤ first + count) :
    (List.range' first count).find? (PlayableAt items ·) = none ↔
      ∀ index, first ≤ index → ¬ PlayableAt items index := by
  simp only [List.find?_range'_eq_none, Bool.not_eq_true', decide_eq_false_iff_not]
  constructor
  · intro hnone index hfrom hplayable
    have hlt := hplayable.lt
    exact hnone index hfrom (by omega) hplayable
  · intro hnone index hfrom _
    exact hnone index hfrom

end Search

/-- From a position of the list the search finds the least playable position behind it; in a list
that repeats, the first playable one around the list, the position itself last; and where one item
repeats, the position itself if it is playable. From behind the end it finds nothing, but in a list
that repeats the least playable position of all. It finds nothing exactly when none of these is
playable, and without a position or in an empty list. -/
theorem next_playable_found (items : List QueueItem) :
    (∀ position < items.length,
      (∀ index, nextPlayable items .off (some position) = some index ↔
        IsLeast {index | position < index ∧ PlayableAt items index} index) ∧
      (nextPlayable items .off (some position) = none ↔
        ∀ index, position < index → ¬ PlayableAt items index) ∧
      (∀ index, nextPlayable items .all (some position) = some index ↔
        PlayableAt items index ∧ ∃ before after,
          around items.length position = before ++ index :: after ∧
            ∀ passed ∈ before, ¬ PlayableAt items passed) ∧
      (nextPlayable items .all (some position) = none ↔ ∀ index, ¬ PlayableAt items index) ∧
      nextPlayable items .one (some position) =
        if PlayableAt items position then some position else none) ∧
    (∀ position, items.length ≤ position →
      nextPlayable items .off (some position) = none ∧
      nextPlayable items .one (some position) = none ∧
      (∀ index, nextPlayable items .all (some position) = some index ↔
        IsLeast {index | PlayableAt items index} index) ∧
      (nextPlayable items .all (some position) = none ↔ ∀ index, ¬ PlayableAt items index)) ∧
    ∀ mode, nextPlayable items mode none = none ∧
      ∀ current, nextPlayable [] mode current = none := by
  refine ⟨fun position hlt => ⟨fun index => ?_, ?_, fun index => ?_, ?_, ?_⟩,
    fun position hle => ⟨?_, ?_, fun index => ?_, ?_⟩, fun mode => ⟨?_, fun current => rfl⟩⟩
  -- from a position of the list
  · rw [nextPlayable_ahead (by decide) hlt]
    exact find?_run_eq_some_iff (by omega)
  · rw [nextPlayable_ahead (by decide) hlt]
    exact find?_run_eq_none_iff (by omega)
  · rw [nextPlayable_ahead (by decide) hlt, ahead, if_pos rfl]
    simp only [List.find?_eq_some_iff_append, decide_eq_true_eq, Bool.not_eq_true',
      decide_eq_false_iff_not]
  · rw [nextPlayable_ahead (by decide) hlt, ahead, if_pos rfl]
    simp only [List.find?_eq_none, decide_eq_true_eq, mem_around hlt]
    exact ⟨fun hnone index hplayable => hnone index hplayable.lt hplayable,
      fun hnone index _ => hnone index⟩
  · exact nextPlayable_one items position
  -- from behind its end
  · rw [nextPlayable_of_le (by decide) hle, ahead, if_neg (by decide), behind_of_le (Nat.le_refl _)]
    rfl
  · rw [nextPlayable_one, if_neg fun hplayable => Nat.not_lt.2 hle hplayable.lt]
  · rw [nextPlayable_of_le (by decide) hle, ahead, if_pos rfl, around_last,
      find?_run_eq_some_iff (by omega)]
    simp only [Nat.zero_le, true_and]
  · rw [nextPlayable_of_le (by decide) hle, ahead, if_pos rfl, around_last,
      find?_run_eq_none_iff (by omega)]
    simp only [Nat.zero_le, true_implies]
  · exact nextPlayable_none items mode

namespace House

/-- Four tracks, of which the first one can be played. The second one is marked as unplayable, the
third one only by its media, and the fourth one only by itself. -/
def oneLeft : List QueueItem :=
  let item name := QueueItem.ofMedia name "den" (track name)
  [item "a", (item "b").markUnavailable,
    { item "c" with media := some { track "c" with available := false } },
    { item "d" with available := false }]

end House

/-- From the only track that is left the search goes once around the list and comes back to it. -/
theorem search_comes_back :
    0 < House.oneLeft.length ∧ nextPlayable House.oneLeft .all (some 0) = some 0 := by
  have hlt : 0 < House.oneLeft.length := by decide
  obtain ⟨-, -, hfinds, -⟩ := (next_playable_found House.oneLeft).1 0 hlt
  exact ⟨hlt, (hfinds 0).2 ⟨by decide, [1, 2, 3], [], by decide, by decide⟩⟩

-- Every look counts: with one less the track is not found.
example : seekPlayable House.oneLeft .all (House.oneLeft.length - 1) (some 0) = none := by decide

end Jukebox
