import Jukebox.Proofs.Runs

/-!
# The position points into the list

A queue can be restored when its position points into its list. Most acts keep that. Four can
strand the position behind the list: an item is deleted while the position is at the last one, a
list is loaded that ends before the position, the position of another queue is taken over, or a
position is set in a list that was shortened meanwhile (`Act.Strands`). A run is fine in all its
states exactly when no step of it strands a position.
-/

namespace Jukebox

/-- Whether the position of an entry, if any, points into its list. -/
def Entry.InRange (e : Entry) : Prop := ∀ i ∈ e.queue.currentIndex, i < e.items.length

/-! ## Lengths of edited lists -/

/-- How long a list is after a batch was loaded into it. -/
def LoadOptions.lengthAfter (options : LoadOptions) (length batch : Nat) : Nat :=
  (if options.keepPlayed then min options.insertAt length else 0) + batch +
    if options.keepRemaining then length - options.insertAt else 0

theorem length_upcoming (items batch : List QueueItem) (options : LoadOptions) :
    (Edit.upcoming items batch options).length =
      batch.length + if options.keepRemaining then items.length - options.insertAt else 0 := by
  unfold Edit.upcoming
  rw [List.length_append, Edit.length_numbered]
  cases options.keepRemaining with
  | false => rfl
  | true =>
    simp only [if_true, Edit.length_renumbered, List.length_drop]
    omega

theorem length_splice (d : Draws) (items batch : List QueueItem) (options : LoadOptions) :
    (Edit.splice d items batch options).1.length =
      options.lengthAfter items.length batch.length := by
  have hbehind : (if options.shuffle then (d.shuffle (Edit.upcoming items batch options)).1
      else Edit.upcoming items batch options).length =
      batch.length + if options.keepRemaining then items.length - options.insertAt else 0 := by
    rw [← length_upcoming]
    split
    · exact d.length_shuffle _
    · rfl
  have hplayed : (if options.keepPlayed then items.take options.insertAt else []).length =
      if options.keepPlayed then min options.insertAt items.length else 0 := by
    split
    · exact List.length_take
    · rfl
  unfold LoadOptions.lengthAfter
  rw [Nat.add_assoc, ← hbehind, ← hplayed, ← List.length_append]
  unfold Edit.splice
  cases options.shuffle <;> rfl

theorem length_reorder (d : Draws) (q : Queue) (items : List QueueItem) (shuffle : Bool) :
    (Edit.reorder d q items shuffle).1.length = items.length := by
  have hnext : (if shuffle then items.drop (Edit.firstUpcoming q)
      else (items.drop (Edit.firstUpcoming q)).mergeSort
        fun a b => decide (a.sortIndex ≤ b.sortIndex)).length =
      items.length - Edit.firstUpcoming q := by
    cases shuffle with
    | true => exact List.length_drop
    | false => exact (List.length_mergeSort _).trans List.length_drop
  unfold Edit.reorder
  rw [length_splice, hnext]
  simp only [LoadOptions.lengthAfter, if_true, Bool.false_eq_true, if_false]
  omega

theorem length_move {q : Queue} {items moved : List QueueItem} {itemId : String} {shift : Int}
    (hmove : Edit.move q items itemId shift = .ok (some moved)) :
    moved.length = items.length := by
  obtain ⟨index, item, hindex, -, -, -, -, rfl⟩ := Edit.move_eq_some_iff.1 hmove
  have hlt := lt_length_of_indexOf? hindex
  rw [List.length_insertIdx_of_le_length (Nat.min_le_right _ _), List.length_eraseIdx_of_lt hlt]
  omega

/-! ## What strands a position -/

/-- Whether a change of a queue sets a position behind a list of a length. -/
def QueueChange.Strands (length : Nat) : QueueChange → Prop
  | buffer index _ _ => length ≤ index
  | takeOver source _ => ∃ i ∈ source.currentIndex, length ≤ i
  | markFirst _ => length = 0
  | _ => False

/-- Whether an act takes the position of an entry out of its list. -/
def Act.Strands (e : Entry) : Act → Prop
  | modify _ change => change.Strands e.items.length
  | load _ batch options =>
    ∃ i ∈ e.queue.currentIndex, options.lengthAfter e.items.length batch.length ≤ i
  | deleteItem _ key =>
    (∃ i ∈ e.queue.currentIndex, e.items.length ≤ i + 1) ∧
      ∃ index, Edit.position e.items key = .ok index ∧ ¬ e.queue.isBuffered index
  | _ => False

namespace Entry

variable {e e' : Entry}

theorem inRange_iff : e.InRange ↔ ¬ ∃ i ∈ e.queue.currentIndex, e.items.length ≤ i := by
  simp [InRange]

/-- An entry with the same position and a list as long is as good as before. -/
theorem InRange.of_eq (he : e.InRange) (hindex : e'.queue.currentIndex = e.queue.currentIndex)
    (hlength : e'.items.length = e.items.length) : e'.InRange := by
  unfold InRange
  rw [hindex, hlength]
  exact he

theorem inRange_of_none (hindex : e.queue.currentIndex = none) : e.InRange := by
  intro i hi
  rw [hindex] at hi
  cases hi

theorem InRange.modify_iff (he : e.InRange) (change : QueueChange) :
    InRange { e with queue := change.apply e.queue } ↔ ¬ change.Strands e.items.length := by
  have hsame : (change.apply e.queue).currentIndex = e.queue.currentIndex →
      InRange { e with queue := change.apply e.queue } := fun hindex => he.of_eq hindex rfl
  cases change with
  | buffer index item flow =>
    simp [InRange, QueueChange.apply, Queue.buffering, QueueChange.Strands]
  | takeOver source targetId =>
    simp [InRange, QueueChange.apply, Command.takeOver, QueueChange.Strands]
  | markFirst first =>
    simp [InRange, QueueChange.apply, QueueChange.Strands, Nat.pos_iff_ne_zero]
  | settle prior =>
    refine iff_of_true (hsame ?_) id
    simp only [QueueChange.apply, Queue.settle]
    split <;> rfl
  | arrive prior loaded =>
    refine iff_of_true (hsame ?_) id
    simp only [QueueChange.apply, Queue.settle]
    split <;> rfl
  | keepPosition clock onlyActive =>
    refine iff_of_true (hsame ?_) id
    simp only [QueueChange.apply]
    split <;> rfl
  | _ => exact iff_of_true (hsame rfl) id

theorem lt_of_position {items : List QueueItem} {key : ItemKey} {index : Nat}
    (hposition : Edit.position items key = .ok index) : index < items.length := by
  unfold Edit.position at hposition
  split at hposition
  · split at hposition
    · next hlt =>
      cases hposition
      exact hlt
    · cases hposition
  · split at hposition
    · next hindex =>
      cases hposition
      exact lt_length_of_indexOf? hindex
    · cases hposition

theorem InRange.reported (he : e.InRange) (o : Outside) (r : PlayerReport) :
    (e.reported o r).InRange := by
  obtain ⟨-, hitems, -, hindex⟩ := e.reported_eq o r
  unfold InRange
  rw [hitems]
  rcases hindex with hsame | ⟨itemId, hfound⟩
  · rw [hsame]
    exact he
  · rw [hfound]
    exact fun i hi => lt_length_of_indexOf? hi

theorem InRange.delete_iff (he : e.InRange) (key : ItemKey) :
    (e.edit fun q items => Edit.delete q items key).InRange ↔
      ¬ ((∃ i ∈ e.queue.currentIndex, e.items.length ≤ i + 1) ∧
        ∃ index, Edit.position e.items key = .ok index ∧ ¬ e.queue.isBuffered index) := by
  rcases hposition : Edit.position e.items key with failure | index
  · simp only [Entry.edit, Edit.delete, hposition]
    refine iff_of_true (he.of_eq rfl rfl) ?_
    rintro ⟨-, index, hindex, -⟩
    cases hindex
  · by_cases hbuffered : e.queue.isBuffered index
    · simp only [Entry.edit, Edit.delete, hposition, hbuffered, if_true]
      refine iff_of_true (he.of_eq rfl rfl) ?_
      rintro ⟨-, other, hother, hnot⟩
      cases hother
      exact hnot hbuffered
    · simp only [Entry.edit, Edit.delete, hposition, hbuffered, Bool.false_eq_true, if_false]
      have hlt := lt_of_position hposition
      have hlength := List.length_eraseIdx_of_lt hlt
      rw [inRange_iff]
      simp only [commit, withItems, hlength]
      refine not_congr ⟨?_, ?_⟩
      · rintro ⟨i, hi, hle⟩
        exact ⟨⟨i, hi, by omega⟩, index, rfl, hbuffered⟩
      · rintro ⟨⟨i, hi, hle⟩, -⟩
        exact ⟨i, hi, by omega⟩

end Entry

/-- An edit takes a position out of a list exactly when it strands it. -/
theorem Act.inRange_edit_iff (a : Act) (o : Outside) (h : Hub) {e : Entry} (he : e.InRange) :
    (a.edit o h e).InRange ↔ ¬ a.Strands e := by
  cases a with
  | modify queueId change => exact he.modify_iff change
  | load queueId batch options =>
    rw [Entry.inRange_iff]
    simp only [edit, Entry.commit, Entry.withItems, length_splice, Strands]
  | deleteItem queueId key => exact he.delete_iff key
  | updateItem queueId itemId change =>
    refine iff_of_true (he.of_eq ?_ ?_) id
    · simp only [edit, Entry.updateItem]
      split <;> rfl
    · simp only [edit, Entry.updateItem]
      split
      · exact List.length_set
      · rfl
  | moveItem queueId itemId shift =>
    refine iff_of_true (he.of_eq ?_ ?_) id
    · simp only [edit, Entry.edit]
      split <;> rfl
    · exact Entry.edit_items (P := fun items => items.length = e.items.length) rfl
        fun items hmove => length_move hmove
  | clear queueId => exact iff_of_true (Entry.inRange_of_none rfl) id
  | startOver queueId =>
    refine iff_of_true ?_ id
    simp only [edit, Entry.startOver]
    split
    · exact Entry.inRange_of_none rfl
    · exact he
  | setShuffle queueId enabled =>
    refine iff_of_true ?_ id
    simp only [edit, Entry.setShuffle]
    split
    · exact he.of_eq rfl rfl
    · exact he.of_eq rfl (length_reorder _ _ _ _)
  | setDontStop queueId enabled =>
    refine iff_of_true (he.of_eq ?_ ?_) id
    all_goals
      simp only [edit, Entry.setDontStop]
      split
      · rfl
      · split <;> rfl
  | logFlow queueId entry =>
    refine iff_of_true (he.of_eq ?_ ?_) id
    all_goals
      simp only [edit, Entry.logFlow]
      split <;> rfl
  | report r => exact iff_of_true (he.reported o r) id
  | _ => exact iff_of_true (he.of_eq rfl rfl) id

/-! ## Whole runs -/

/-- Whether the position of an entry points into its list, and the entry is restored if it is
stored as it is. -/
def Entry.Accepted (queueId : String) (e : Entry) : Prop :=
  e.InRange ∧ Hub.belong queueId e.queue e.items

theorem accepted_iff {queueId : String} {e : Entry} :
    e.Accepted queueId ↔ e.BelongsTo queueId ∧ e.InRange := by
  unfold Entry.Accepted Entry.BelongsTo
  rw [Hub.belong_iff]
  exact ⟨fun ⟨hr, hid, _, ho⟩ => ⟨⟨hid, ho⟩, hr⟩, fun ⟨⟨hid, ho⟩, hr⟩ => ⟨hr, hid, hr, ho⟩⟩

/-- Whether a step of a session takes the position of a queue out of its list. -/
def Session.Strands (s : Session) (o : Outside) (move : Move) : Prop :=
  ∃ a : Act, (s.step o move).hub = a.apply o s.hub ∧
    ∃ queueId e, a.queueId? = some queueId ∧ s.hub.entry? queueId = some e ∧ a.Strands e

/-- An act that strands no position keeps all of them in their lists. -/
theorem Hub.inRange_apply {h : Hub} (hnamed : h.Named) (hrange : h.All fun _ e => e.InRange)
    (o : Outside) {a : Act}
    (ha : ∀ queueId e, a.queueId? = some queueId → h.entry? queueId = some e → ¬ a.Strands e) :
    (a.apply o h).All fun _ e => e.InRange := by
  refine All.apply o hrange hnamed (fun queueId e hq he hin => ?_) fun r _ => ?_
  · exact (a.inRange_edit_iff o h hin).2 (ha queueId e hq he)
  · have hnew : (h.newEntry o r).InRange := (belong_iff.1 (belong_newEntry o r)).2.1
    exact hnew.reported o r

/-- In a run all positions point into their lists, and all entries can be restored, exactly when no
step of it strands a position. -/
theorem positions_within_iff (config : Config) (store : Store) (draws : Draws) (nextItem : Nat)
    (moves : List (Outside × Move)) :
    (∀ n, ((Session.start config store draws nextItem).run (moves.take n)).hub.All
        Entry.Accepted) ↔
      ∀ n o move, moves[n]? = some (o, move) →
        ¬ ((Session.start config store draws nextItem).run (moves.take n)).Strands o move := by
  have hbelongs := fun n => Session.belongsTo_run config store draws nextItem (moves.take n)
  have hnamed := fun n => Session.named_run config store draws nextItem (moves.take n)
  constructor
  · rintro hall n o move hmove ⟨a, hstep, queueId, e, hq, he, hstrands⟩
    have hafter := hall (n + 1)
    rw [Session.run_take_succ _ hmove, hstep] at hafter
    have hedited := Hub.touches_apply o (fun _ _ => hnamed n) hq queueId
    rw [if_pos rfl, he] at hedited
    have hin := (hafter queueId _ hedited).1
    exact (a.inRange_edit_iff o _ (hall n queueId e he).1).1 hin hstrands
  · intro hsteps
    have hrange : ∀ n, ((Session.start config store draws nextItem).run (moves.take n)).hub.All
        fun _ e => e.InRange := by
      intro n
      induction n with
      | zero => exact fun _ _ he => nomatch he
      | succ n ih =>
        cases hmove : moves[n]? with
        | none =>
          rw [Session.run_take_of_none _ hmove]
          exact ih
        | some m =>
          obtain ⟨o, move⟩ := m
          rw [Session.run_take_succ _ hmove]
          have hobedient := (Session.obedient_start config store draws nextItem).run (moves.take n)
          rcases (hobedient.step o move).2 with hsame | ⟨a, -, hact⟩
          · rw [hsame]
            exact ih
          · rw [hact]
            exact Hub.inRange_apply (hnamed n) ih o fun queueId e hq he hstrands =>
              hsteps n o move hmove ⟨a, hact, queueId, e, hq, he, hstrands⟩
    exact fun n queueId e he => accepted_iff.2 ⟨hbelongs n queueId e he, hrange n queueId e he⟩

/-- The only item of a queue that was not played yet is deleted: the position stays where the item
was, and the queue would not be restored. -/
theorem deleted_current_item_strands :
    let s := House.session.run
      (House.fill ["a"] ++ House.request (.deleteItem "den" (.index 0)))
    ∃ e, s.hub.entry? "den" = some e ∧ e.queue.currentIndex = some 0 ∧ e.items.length = 0 ∧
      Hub.belong "den" e.queue e.items = false := by
  intro s
  have hentry : (s.hub.entry? "den").any (fun e => decide (e.queue.currentIndex = some 0) &&
      decide (e.items.length = 0) && !Hub.belong "den" e.queue e.items) := by
    decide +kernel
  obtain ⟨e, he, hstranded⟩ := (Option.any_eq_true _ _).1 hentry
  simp only [Bool.and_eq_true, decide_eq_true_eq, Bool.not_eq_true'] at hstranded
  exact ⟨e, he, hstranded.1.1, hstranded.1.2, hstranded.2⟩

end Jukebox
