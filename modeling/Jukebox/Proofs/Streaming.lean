import Jukebox.Proofs.Moving
import Jukebox.Queue.Flow
import Mathlib.Algebra.Order.BigOperators.Group.List
import Mathlib.Algebra.Order.Field.Rat
import Mathlib.Tactic.Linarith
import Mathlib.Tactic.NormNum

/-!
# Where a continuous stream is

A continuous stream is its entries laid end to end: an entry begins when those in front of it have
lasted (`Flow.startOf`), and the one that is heard at a time is the first that has not ended before
(`Flow.HeardAt`). In exact arithmetic, the position that is computed of a time in the stream takes
this apart again (`stream_time_located`): it names the item of the entry that is heard, and how far
into it the time is. As time goes on the entry never goes back, and within one entry the elapsed
seconds grow as the time does.
-/

namespace Jukebox

/-- The seconds left out at the start of an item. -/
def QueueItem.leftOut (i : QueueItem) : Nat := (i.stream.map (·.seekPosition.toNat)).getD 0

namespace Flow

section

variable {τ : Type} [Field τ]

/-! ## Entries laid end to end -/

/-- The second of the stream at which an entry of the log begins. -/
def startOf (log : List (FlowEntry τ)) (k : Nat) : τ :=
  ((log.take k).map (effectiveLength Nat.cast)).sum

variable {log : List (FlowEntry τ)} {k k' : Nat}

@[simp] theorem startOf_zero (log : List (FlowEntry τ)) : startOf log 0 = 0 := rfl

theorem startOf_succ {e : FlowEntry τ} (he : log[k]? = some e) :
    startOf log (k + 1) = startOf log k + effectiveLength Nat.cast e := by
  rw [startOf, startOf, List.take_add_one, he, List.map_append, List.sum_append]
  simp

theorem startOf_of_length_le (hk : log.length ≤ k) : startOf log k = startOf log log.length := by
  rw [startOf, startOf, List.take_of_length_le hk, List.take_length]

/-- The spans of a log last as its entries do. -/
theorem sum_take_span (items : List QueueItem) (log : List (FlowEntry τ)) (k : Nat) :
    (((log.map (span Nat.cast items)).take k).map (·.length)).sum = startOf log k := by
  rw [← List.map_take, List.map_map]
  rfl

variable [LinearOrder τ] {t t' : τ}

/-- Whether an entry is the one that is heard at a time: the first that has not ended before. -/
structure HeardAt (log : List (FlowEntry τ)) (t : τ) (k : Nat) : Prop where
  lt : k < log.length
  reached : t ≤ startOf log (k + 1)
  first : ∀ j < k, startOf log (j + 1) < t

/-- Some entry is heard as long as not all have ended. -/
theorem exists_heardAt_iff :
    (∃ k, HeardAt log t k) ↔ ∃ k < log.length, t ≤ startOf log (k + 1) := by
  constructor
  · rintro ⟨k, hheard⟩
    exact ⟨k, hheard.lt, hheard.reached⟩
  · intro hexists
    obtain ⟨hlt, hreached⟩ := Nat.find_spec hexists
    refine ⟨Nat.find hexists, hlt, hreached, fun j hj => ?_⟩
    have hnot := Nat.find_min hexists hj
    push Not at hnot
    exact hnot (hj.trans hlt)

namespace HeardAt

/-- The entry that is heard never goes back. -/
theorem le_of_le (hheard : HeardAt log t k) (hheard' : HeardAt log t' k') (ht : t ≤ t') :
    k ≤ k' := by
  by_contra hback
  have hended := hheard.first k' (by omega)
  exact (hended.trans_le ht).not_ge hheard'.reached

theorem startOf_lt (hheard : HeardAt log t k) (hk : 0 < k) : startOf log k < t := by
  obtain ⟨j, rfl⟩ : ∃ j, k = j + 1 := ⟨k - 1, by omega⟩
  exact hheard.first j (by omega)

theorem startOf_le (hheard : HeardAt log t k) (ht : 0 ≤ t) : startOf log k ≤ t := by
  rcases Nat.eq_zero_or_pos k with rfl | hk
  · exact ht
  · exact (hheard.startOf_lt hk).le

end HeardAt

/-! ## The walk along the log -/

/-- The walk finds the first span that has not ended before the time, and what was played until
that span. -/
theorem locate_eq_some {total played : τ} {spans : List (Span τ)} {span : Span τ}
    (hspan : spans[k]? = some span)
    (hreached : total ≤ played + ((spans.take (k + 1)).map (·.length)).sum)
    (hfirst : ∀ j < k, played + ((spans.take (j + 1)).map (·.length)).sum < total) :
    locate total played spans = some (span, played + ((spans.take k).map (·.length)).sum) := by
  induction spans generalizing played k with
  | nil => cases hspan
  | cons s more ih =>
    cases k with
    | zero =>
      cases hspan
      have hhere : ¬played + span.length < total := by simpa using hreached
      rw [locate, if_neg hhere]
      simp
    | succ k =>
      have hpassed : played + s.length < total := by simpa using hfirst 0 (by omega)
      rw [locate, if_pos hpassed, ih hspan]
      · simp [add_assoc]
      · simpa [add_assoc] using hreached
      · intro j hj
        simpa [add_assoc] using hfirst (j + 1) (by omega)

/-- The walk finds nothing behind the end of all spans. -/
theorem locate_eq_none {total played : τ} {spans : List (Span τ)}
    (hended : ∀ j < spans.length, played + ((spans.take (j + 1)).map (·.length)).sum < total) :
    locate total played spans = none := by
  induction spans generalizing played with
  | nil => rfl
  | cons s more ih =>
    have hpassed : played + s.length < total := by simpa using hended 0 (by simp)
    rw [locate, if_pos hpassed]
    refine ih fun j hj => ?_
    simpa [add_assoc] using hended (j + 1) (by simpa using hj)

/-! ## The position of a time -/

variable (current : Nat) (items : List QueueItem)

/-- While an entry is heard the position is that of its item, or the present one if the list does
not hold it, and the seconds that were left out at the start of the item count as elapsed. -/
theorem streamPosition_of_heardAt (hheard : HeardAt log t k) {e : FlowEntry τ}
    (he : log[k]? = some e) :
    streamPosition Nat.cast (some current) log items t =
      ⟨some ((indexOf? items e.itemId).getD current),
        t - startOf log k + (seekAt items (indexOf? items e.itemId) : τ)⟩ := by
  have hlocated : locate t ((0 : Nat) : τ) (log.map (span Nat.cast items)) =
      some (span Nat.cast items e, startOf log k) := by
    have hspan : (log.map (span Nat.cast items))[k]? = some (span Nat.cast items e) := by
      rw [List.getElem?_map, he, Option.map_some]
    rw [locate_eq_some hspan]
    · rw [sum_take_span, Nat.cast_zero, zero_add]
    · rw [sum_take_span, Nat.cast_zero, zero_add]
      exact hheard.reached
    · intro j hj
      rw [sum_take_span, Nat.cast_zero, zero_add]
      exact hheard.first j hj
  have hindex : ((indexOf? items e.itemId).orElse fun _ => some current) =
      some ((indexOf? items e.itemId).getD current) := by
    cases indexOf? items e.itemId <;> rfl
  unfold streamPosition position
  rw [hlocated]
  dsimp only [span]
  rw [hindex, sub_add_eq_add_sub]

/-- Behind the end of the stream the present item has just begun. -/
theorem streamPosition_of_ended (hended : ∀ k < log.length, startOf log (k + 1) < t) :
    streamPosition Nat.cast (some current) log items t = ⟨some current, 0⟩ := by
  have hlocated : locate t ((0 : Nat) : τ) (log.map (span Nat.cast items)) = none := by
    refine locate_eq_none fun j hj => ?_
    rw [sum_take_span, Nat.cast_zero, zero_add]
    exact hended j (by simpa using hj)
  unfold streamPosition position
  rw [hlocated]
  dsimp only
  rw [Nat.cast_zero]

/-- Whether a position is that of a time at which a certain entry is heard: the place of its item in
the list, if it has one, and how far the time is into the entry. -/
structure Finds (log : List (FlowEntry τ)) (t : τ) (p : Position τ) (k : Nat)
    (e : FlowEntry τ) : Prop where
  entry : log[k]? = some e
  heard : HeardAt log t k
  listed : ∀ i item, items[i]? = some item → item.id = e.itemId →
    p = ⟨some i, t - startOf log k + (item.leftOut : τ)⟩
  unlisted : e.itemId ∉ ids items → p = ⟨some current, t - startOf log k⟩
  begun : 0 ≤ t - startOf log k
  notEnded : t - startOf log k ≤ effectiveLength Nat.cast e
  behind : 0 < k → 0 < t - startOf log k

variable {current items} [IsStrictOrderedRing τ]

/-- Where no entry lasts less than no time, an entry begins no earlier than those in front of it. -/
theorem startOf_mono (hlasting : ∀ e ∈ log, 0 ≤ effectiveLength Nat.cast e) (hk : k ≤ k') :
    startOf log k ≤ startOf log k' := by
  induction k', hk using Nat.le_induction with
  | base => exact le_rfl
  | succ k' _ ih =>
    cases he : log[k']? with
    | none =>
      have hlength := List.getElem?_eq_none_iff.1 he
      rwa [startOf_of_length_le (show log.length ≤ k' + 1 by omega),
        ← startOf_of_length_le hlength]
    | some e =>
      rw [startOf_succ he]
      linarith [hlasting e (List.mem_of_getElem? he)]

/-- A time inside an entry is one at which that entry is heard. -/
theorem heardAt_startOf_add (hlasting : ∀ e ∈ log, 0 ≤ effectiveLength Nat.cast e)
    {e : FlowEntry τ} (he : log[k]? = some e) {x : τ} (hx : x ≤ effectiveLength Nat.cast e)
    (hbegun : k = 0 ∨ 0 < x) : HeardAt log (startOf log k + x) k := by
  refine ⟨(List.getElem?_eq_some_iff.1 he).1, ?_, fun j hj => ?_⟩
  · rw [startOf_succ he]
    linarith
  · have hended := startOf_mono hlasting (show j + 1 ≤ k by omega)
    rcases hbegun with rfl | hpositive
    · omega
    · linarith

theorem finds_of_heardAt (hids : (ids items).Nodup) (ht : 0 ≤ t)
    (hheard : HeardAt log t k) {e : FlowEntry τ} (he : log[k]? = some e) :
    Finds current items log t (streamPosition Nat.cast (some current) log items t) k e := by
  have hposition := streamPosition_of_heardAt current items hheard he
  refine ⟨he, hheard, ?_, ?_, ?_, ?_, ?_⟩
  · intro i item hitem hid
    have hlisted : (ids items)[i]? = some e.itemId := by
      rw [ids, List.getElem?_map, hitem, Option.map_some, hid]
    rw [hposition, indexOf?_of_nodup hids hlisted]
    simp [seekAt, hitem, QueueItem.leftOut, Option.map_eq_bind]
  · intro hmissing
    rw [hposition, indexOf?_of_notMem hmissing]
    simp [seekAt]
  · linarith [hheard.startOf_le ht]
  · have hreached := hheard.reached
    rw [startOf_succ he] at hreached
    linarith
  · intro hk
    linarith [hheard.startOf_lt hk]

end

end Flow

/-- In exact arithmetic the position of a time in a stream is that of the entry that is heard then.
Behind the stream the present item has just begun. As time goes on the entry never goes back, and
within one entry the seconds go on as the time does. So the position undoes the laying end to end:
`x` seconds into an entry it names the item of the entry and `x`. -/
theorem stream_time_located {τ : Type} [Field τ] [LinearOrder τ] [IsStrictOrderedRing τ]
    (current : Nat) {items : List QueueItem} (hids : (ids items).Nodup)
    {log : List (FlowEntry τ)} (hlasting : ∀ e ∈ log, 0 ≤ Flow.effectiveLength Nat.cast e) :
    let place := Flow.streamPosition Nat.cast (some current) log items
    let total := Flow.startOf log log.length
    (∀ t, 0 ≤ t → t ≤ total → log ≠ [] → ∃ k e, Flow.Finds current items log t (place t) k e) ∧
      (∀ t, total < t ∨ log = [] → place t = ⟨some current, 0⟩) ∧
      (∀ t t' k k', Flow.HeardAt log t k → Flow.HeardAt log t' k' → t ≤ t' →
        k ≤ k' ∧ (k = k' → (place t').index = (place t).index ∧
          (place t').elapsed - (place t).elapsed = t' - t)) ∧
      ∀ k e x, log[k]? = some e → 0 ≤ x → x ≤ Flow.effectiveLength Nat.cast e →
        k = 0 ∨ 0 < x → ∀ i item, items[i]? = some item → item.id = e.itemId →
          place (Flow.startOf log k + x) = ⟨some i, x + (item.leftOut : τ)⟩ := by
  intro place total
  refine ⟨fun t ht hwithin hlog => ?_, fun t hbehind => ?_, ?_, ?_⟩
  · have hlength : log.length - 1 + 1 = log.length :=
      Nat.sub_add_cancel (List.length_pos_iff.2 hlog)
    obtain ⟨k, hheard⟩ := Flow.exists_heardAt_iff.2
      ⟨log.length - 1, by omega, hwithin.trans_eq (congrArg (Flow.startOf log) hlength.symm)⟩
    obtain ⟨e, he⟩ : ∃ e, log[k]? = some e := ⟨_, List.getElem?_eq_getElem hheard.lt⟩
    exact ⟨k, e, Flow.finds_of_heardAt hids ht hheard he⟩
  · refine Flow.streamPosition_of_ended current items fun k hk => ?_
    rcases hbehind with hbehind | rfl
    · exact (Flow.startOf_mono hlasting hk).trans_lt hbehind
    · simp at hk
  · intro t t' k k' hheard hheard' ht
    refine ⟨hheard.le_of_le hheard' ht, ?_⟩
    rintro rfl
    obtain ⟨e, he⟩ : ∃ e, log[k]? = some e := ⟨_, List.getElem?_eq_getElem hheard.lt⟩
    have hplace := Flow.streamPosition_of_heardAt current items hheard he
    have hplace' := Flow.streamPosition_of_heardAt current items hheard' he
    simp [place, hplace, hplace']
  · intro k e x he hx hlength hbegun i item hitem hid
    have hheard := Flow.heardAt_startOf_add hlasting he hlength hbegun
    have hstart := Flow.startOf_mono hlasting (Nat.zero_le k)
    have htime : 0 ≤ Flow.startOf log k + x := by
      rw [Flow.startOf_zero] at hstart
      linarith
    have hfinds : Flow.Finds current items log _ (place (Flow.startOf log k + x)) k e :=
      Flow.finds_of_heardAt hids htime hheard he
    simpa using hfinds.listed i item hitem hid

namespace Flow

/-- An item that is played from a second on. -/
def streamedItem (id : String) (seekPosition : UInt32) : QueueItem :=
  { id, queueId := "den", name := id, uri := id, sortIndex := 0, available := true
    stream := some
      { provider := "test", itemId := id, seekPosition, fadeIn := false
        preferAlbumLoudness := false, stripSilenceBegin := false, stripSilenceEnd := false } }

def streamedItems : List QueueItem := [streamedItem "qi1" 0, streamedItem "qi2" 30]

/-- The second item breaks at once, another one has left the list since, and then the second item is
streamed again. -/
def brokenLog : List (FlowEntry ℚ) :=
  [⟨"qi1", some 180, none⟩, ⟨"qi2", some 60, some 0⟩, ⟨"qi9", none, some 5⟩, ⟨"qi2", none, none⟩]

end Flow

/-- After 200 seconds of a stream of which 185 went to other entries, the second item is heard, 15
seconds behind where it was made to begin. -/
theorem second_item_heard_behind_break :
    (ids Flow.streamedItems).Nodup ∧
      (∀ e ∈ Flow.brokenLog, 0 ≤ Flow.effectiveLength Nat.cast e) ∧
      Flow.startOf Flow.brokenLog 3 = 185 ∧
      Flow.streamPosition Nat.cast (some 0) Flow.brokenLog Flow.streamedItems 200 =
        ⟨some 1, 45⟩ := by
  have hids : (ids Flow.streamedItems).Nodup := by decide
  have hlasting : ∀ e ∈ Flow.brokenLog, 0 ≤ Flow.effectiveLength Nat.cast e := by
    simp [Flow.brokenLog, Flow.effectiveLength, Flow.unknownLength]
  have hstart : Flow.startOf Flow.brokenLog 3 = 185 := by
    have hnominal : UInt32.toNat 180 = 180 := rfl
    norm_num [Flow.startOf, Flow.brokenLog, Flow.effectiveLength, hnominal]
  have hlength : (15 : ℚ) ≤ Flow.effectiveLength Nat.cast ⟨"qi2", none, none⟩ := by
    norm_num [Flow.effectiveLength, Flow.unknownLength]
  have hplace := (stream_time_located 0 hids hlasting).2.2.2 3 ⟨"qi2", none, none⟩ 15 rfl
    (by norm_num) hlength (.inr (by norm_num)) 1 (Flow.streamedItem "qi2" 30) rfl rfl
  refine ⟨hids, hlasting, hstart, ?_⟩
  have hleftOut : (Flow.streamedItem "qi2" 30).leftOut = 30 := rfl
  rw [hstart, hleftOut] at hplace
  norm_num at hplace
  exact hplace

end Jukebox
