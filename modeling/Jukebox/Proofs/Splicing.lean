import Jukebox.Proofs.Runs
import Jukebox.Proofs.Shuffle
import Jukebox.Proofs.WriteBack

/-!
# Splices lose nothing

A batch that is loaded into a list comes to stand behind what is kept of the items before its place,
with what is kept of the items behind it, and all of them are the same as before but for their
numbers (`Edit.Splices`). The batch is numbered from its place on, and the end of the batch is added
to the numbers of the items behind it. As long as the sums fit into 64 bits (`Edit.Fits`) this keeps
the items in the order of their numbers; a sum that does not fit wraps around, and its item can come
to be numbered below the batch. Turning shuffle on or off is a splice of the upcoming items into
their own place. What becomes of the hub is the same for every command that changes a list: the new
list is counted, nothing counts as handed to the player any more, and this is told and stored
(`Hub.Relisted`). Where a command has nothing to do it still counts the items, but in a session they
are counted already (`Session.counted_run`). All this comes together in `splicing_loses_nothing`.
-/

namespace Jukebox

/-! ## Queues count their items -/

/-- Whether a queue counts its items. -/
def Entry.Counted (e : Entry) : Prop := e.queue.itemCount = e.items.length

theorem Entry.counted_reported {e : Entry} (he : e.Counted) (o : Outside) (r : PlayerReport) :
    (e.reported o r).Counted := by
  unfold Entry.reported
  split
  · exact he
  · split
    · obtain ⟨claim, radioSource, remembered, hfollowed⟩ :=
        e.followed_eq o (e.remembered.getD {}) (Hub.reportedQueue o r e)
      obtain ⟨_, _, _, _, hafter, -⟩ :=
        Hub.afterReport_eq (Hub.described e.queue e.items r) e.items r o.clock
      rw [hfollowed, Entry.Counted, Hub.reportedQueue, hafter]
      rfl
    · exact rfl

theorem QueueChange.itemCount_apply (change : QueueChange) (q : Queue) :
    (change.apply q).itemCount = q.itemCount := by
  cases change with
  | settle prior =>
    simp only [apply, Queue.settle]
    split <;> rfl
  | arrive prior loaded =>
    simp only [apply, Queue.settle]
    split <;> rfl
  | keepPosition clock onlyActive =>
    simp only [apply]
    split <;> rfl
  | _ => rfl

theorem Act.counted_edit (a : Act) (o : Outside) (h : Hub) {e : Entry} (he : e.Counted) :
    (a.edit o h e).Counted := by
  cases a with
  | modify queueId change => exact (change.itemCount_apply e.queue).trans he
  | updateItem queueId itemId change =>
    simp only [edit, Entry.updateItem]
    split <;> exact rfl
  | moveItem queueId itemId shift =>
    simp only [edit, Entry.edit]
    split <;> exact rfl
  | deleteItem queueId key =>
    simp only [edit, Entry.edit]
    split <;> exact rfl
  | startOver queueId =>
    simp only [edit, Entry.startOver]
    split
    · exact rfl
    · exact he
  | setShuffle queueId enabled =>
    simp only [edit, Entry.setShuffle]
    split <;> exact rfl
  | setDontStop queueId enabled =>
    simp only [edit, Entry.setDontStop]
    split
    · exact he
    · split <;> exact he
  | logFlow queueId entry =>
    simp only [edit, Entry.logFlow]
    split <;> exact he
  | report r => exact Entry.counted_reported he o r
  | load queueId batch options => exact rfl
  | clear queueId => exact rfl
  | _ => exact he

/-- In every state of a session all queues count their items. -/
theorem Session.counted_run (config : Config) (store : Store) (draws : Draws) (nextItem : Nat)
    (moves : List (Outside × Move)) :
    ((start config store draws nextItem).run moves).hub.All fun _ e => e.Counted := by
  refine (kept (fun h => h.Named ∧ h.All fun _ e => e.Counted) (fun a o h _ hinv => ?_)
    (obedient_start config store draws nextItem) ⟨?_, ?_⟩ moves).2
  · refine ⟨hinv.1.apply o a, Hub.All.apply o hinv.2 hinv.1 (fun queueId e _ _ he => ?_)
      fun r _ => ?_⟩
    · exact a.counted_edit o h he
    · exact Entry.counted_reported (e := h.newEntry o r) rfl o r
  · exact fun queueId e he => nomatch he
  · exact fun queueId e he => nomatch he

/-! ## What becomes of the hub -/

namespace Hub

/-- Whether a hub looks the same as another one. -/
structure Unchanged (h h' : Hub) : Prop where
  entries : ∀ queueId, h'.entry? queueId = h.entry? queueId
  apart : h' = { h with queues := h'.queues }

/-- Whether between two hubs nothing happened but that the items of a queue were counted. -/
structure Recounted (queueId : String) (e : Entry) (h h' : Hub) : Prop where
  entry_eq : h'.entry? queueId =
    some { e with queue := { e.queue with itemCount := e.items.length } }
  others : ∀ other, other ≠ queueId → h'.entry? other = h.entry? other
  apart : h' = { h with queues := h'.queues }

/-- Whether between two hubs an entry came in place of that of a queue, and nothing else happened
but that this was told, of the items first and then of the queue, and stored. -/
structure Relisted (o : Outside) (queueId : String) (e : Entry) (h h' : Hub) : Prop where
  entry_eq : h'.entry? queueId = some e
  others : ∀ other, other ≠ queueId → h'.entry? other = h.entry? other
  events_eq : h'.events =
    h.events ++ [.itemsUpdated e.queue.id e.queue.itemCount, .queueUpdated e.queue]
  store_eq : h'.store = writeSnapshot o h.store e.queue (some e.items)
  apart : h' = { h with queues := h'.queues, events := h'.events, store := h'.store }

variable {h h' : Hub} {queueId : String} {e : Entry}

/-- Where the items were counted before, counting them again changes nothing. -/
theorem Recounted.unchanged (hagain : Recounted queueId e h h')
    (he : h.entry? queueId = some e) (hcounted : e.Counted) : Unchanged h h' := by
  refine ⟨fun other => ?_, hagain.apart⟩
  by_cases hother : other = queueId
  · subst hother
    unfold Entry.Counted at hcounted
    rw [hagain.entry_eq, he, ← hcounted]
  · exact hagain.others other hother

theorem recounted_putItems (he : h.entry? queueId = some e) :
    Recounted queueId e h (h.putItems queueId e.queue e.items) := by
  refine ⟨?_, fun other hother => ?_, h.putItems_eq queueId e.queue e.items⟩
  · rw [entry?_putItems, if_pos rfl, he]
    rfl
  · rw [entry?_putItems, if_neg hother]

theorem relisted_commit (he : h.entry? queueId = some e) (o : Outside) (q : Queue)
    (items : List QueueItem) :
    Relisted o queueId (e.commit q items) h (h.commit o queueId q items) := by
  have hput := h.putItems_eq queueId { q with enqueuedNext := none } items
  have hentry : entry? (h.putItems queueId { q with enqueuedNext := none } items) queueId =
      some (e.commit q items) := by
    rw [entry?_putItems, if_pos rfl, he]
    rfl
  have hqueue : queue? (h.putItems queueId { q with enqueuedNext := none } items) queueId =
      some (e.commit q items).queue := by
    rw [queue?_eq_map, hentry]
    rfl
  have hcommit : h.commit o queueId q items =
      { h with
        queues := (h.putItems queueId { q with enqueuedNext := none } items).queues
        events := h.events ++ [.itemsUpdated (e.commit q items).queue.id
          (e.commit q items).queue.itemCount, .queueUpdated (e.commit q items).queue]
        store := writeSnapshot o h.store (e.commit q items).queue
          (some (e.commit q items).items) } := by
    unfold commit signal
    rw [hqueue]
    dsimp only
    rw [if_pos rfl, persist, entry?_publish, entry?_publish, hentry, hput]
    simp [publish]
  refine ⟨?_, fun other hother => ?_, ?_, ?_, ?_⟩
  · rw [entry?_commit, if_pos rfl, he]
    rfl
  · rw [entry?_commit, if_neg hother]
  all_goals rw [hcommit]

end Hub

/-! ## What becomes of the list -/

namespace Edit

/-- Whether no number of a batch that is numbered from a place on, or of the rest of a list that is
numbered above it, goes beyond 64 bits. -/
def Fits (place : Nat) (batch rest : List QueueItem) : Prop :=
  place + batch.length ≤ UInt64.size ∧
    ∀ i ∈ rest, i.number.toNat + (place + batch.length) < UInt64.size

/-- Whether `upcoming` are the items of a batch and those of the rest of a list behind it, the same
but for their numbers. The batch is numbered from `place` on, and the end of the batch is added to
the numbers of the rest, all in 64 bits. Where these hold the numbers, the rest is numbered above
the batch, with the same differences as before. -/
structure Renumbers (place : Nat) (batch rest upcoming : List QueueItem) : Prop where
  same : List.Forall₂ (fun i j => j = { i with sortIndex := j.sortIndex }) (batch ++ rest) upcoming
  batch_numbers : (upcoming.take batch.length).map (·.number) =
    (List.range' place batch.length).map UInt64.ofNat
  rest_numbers : (upcoming.drop batch.length).map (·.number) =
    rest.map (·.number + .ofNat (place + batch.length))
  in_order : Fits place batch rest →
    (upcoming.take batch.length).map (·.number.toNat) = List.range' place batch.length ∧
    (upcoming.drop batch.length).map (·.number.toNat) =
      rest.map (·.number.toNat + (place + batch.length))

/-- Whether `behind` are the items of a batch and of the rest of a list, numbered anew, in this
order or shuffled. -/
def Splices (place : Nat) (batch rest : List QueueItem) (shuffle : Bool)
    (behind : List QueueItem) : Prop :=
  ∃ upcoming, Renumbers place batch rest upcoming ∧ behind.Perm upcoming ∧
    (shuffle = false → behind = upcoming)

theorem numbered_same (place : Nat) (batch : List QueueItem) :
    List.Forall₂ (fun i j => j = { i with sortIndex := j.sortIndex }) batch
      (numbered place batch) := by
  rw [List.forall₂_iff_get]
  refine ⟨(length_numbered place batch).symm, fun n hn hn' => ?_⟩
  simp [numbered]

theorem renumbered_same (offset : Nat) (items : List QueueItem) :
    List.Forall₂ (fun i j => j = { i with sortIndex := j.sortIndex }) items
      (renumbered offset items) := by
  rw [renumbered, List.forall₂_map_right_iff]
  exact List.forall₂_same.2 fun _ _ => rfl

theorem number_numbered (place : Nat) (batch : List QueueItem) :
    (numbered place batch).map (·.number) = (List.range' place batch.length).map .ofNat := by
  refine List.ext_getElem (by simp [numbered]) fun n hn hn' => ?_
  simp [numbered, QueueItem.number]

theorem number_renumbered (offset : Nat) (items : List QueueItem) :
    (renumbered offset items).map (·.number) = items.map (·.number + .ofNat offset) := by
  rw [renumbered, List.map_map]
  exact List.map_congr_left fun i _ => UInt64.ofNat_add i.sortIndex offset

/-- Numbers that fit are counted up from the place of insertion. -/
theorem toNat_number_numbered {place : Nat} {batch : List QueueItem}
    (hend : place + batch.length ≤ UInt64.size) :
    (numbered place batch).map (·.number.toNat) = List.range' place batch.length := by
  refine List.ext_getElem (by simp [numbered]) fun n hn hn' => ?_
  have hlt : place + n < UInt64.size := by
    simp only [List.length_range'] at hn'
    omega
  simp only [List.getElem_map, numbered, List.getElem_mapIdx, List.getElem_range', Nat.one_mul,
    QueueItem.number]
  exact UInt64.toNat_ofNat_of_lt' hlt

/-- Numbers that fit keep their differences when the same is added to all of them. -/
theorem toNat_number_renumbered {offset : Nat} {rest : List QueueItem}
    (hfits : ∀ i ∈ rest, i.number.toNat + offset < UInt64.size) :
    (renumbered offset rest).map (·.number.toNat) = rest.map (·.number.toNat + offset) := by
  rw [renumbered, List.map_map]
  refine List.map_congr_left fun i hi => ?_
  have hlt := hfits i hi
  calc (UInt64.ofNat (i.sortIndex + offset)).toNat
      = (i.sortIndex + offset) % UInt64.size := UInt64.toNat_ofNat' ..
    _ = (i.number.toNat + offset) % UInt64.size := by
        rw [QueueItem.number, UInt64.toNat_ofNat', Nat.mod_add_mod]
    _ = i.number.toNat + offset := Nat.mod_eq_of_lt hlt

/-- What comes from the place of insertion on is numbered anew before it is shuffled. -/
theorem renumbers_append (place : Nat) (batch rest : List QueueItem) :
    Renumbers place batch rest
      (numbered place batch ++ renumbered (place + batch.length) rest) := by
  have hlength := length_numbered place batch
  refine ⟨List.rel_append (numbered_same place batch) (renumbered_same _ rest), ?_, ?_,
    fun ⟨hend, hfits⟩ => ⟨?_, ?_⟩⟩
  · rw [List.take_left' hlength, number_numbered]
  · rw [List.drop_left' hlength, number_renumbered]
  · rw [List.take_left' hlength, toNat_number_numbered hend]
  · rw [List.drop_left' hlength, toNat_number_renumbered hfits]

/-- A splice keeps what it is told to keep, and brings in the batch. -/
theorem exists_splices (d : Draws) (items batch : List QueueItem) (options : LoadOptions) :
    ∃ behind,
      let place := min options.insertAt items.length
      Splices place batch (if options.keepRemaining then items.drop place else [])
        options.shuffle behind ∧
      (splice d items batch options).1 =
        (if options.keepPlayed then items.take place else []) ++ behind := by
  have htake : items.take (min options.insertAt items.length) = items.take options.insertAt := by
    rw [← List.take_take, List.take_length]
  have hupcoming : upcoming items batch options =
      numbered (min options.insertAt items.length) batch ++
        renumbered (min options.insertAt items.length + batch.length)
          (if options.keepRemaining then items.drop (min options.insertAt items.length)
            else []) := by
    cases hkeep : options.keepRemaining <;> simp [upcoming, renumbered, hkeep]
  have hnumbers := renumbers_append (min options.insertAt items.length) batch
    (if options.keepRemaining then items.drop (min options.insertAt items.length) else [])
  rw [← hupcoming] at hnumbers
  dsimp only
  unfold splice
  cases options.shuffle with
  | false => exact ⟨_, ⟨_, hnumbers, .refl _, fun _ => rfl⟩, by simp [htake]⟩
  | true =>
    refine ⟨_, ⟨_, hnumbers, d.shuffle_perm _, fun hplain => by cases hplain⟩, ?_⟩
    simp [htake]

/-- The first upcoming place is the one behind the position. -/
theorem firstUpcoming_eq (q : Queue) :
    firstUpcoming q = ((q.bufferedIndex.or q.currentIndex).map (· + 1)).getD 0 := by
  unfold firstUpcoming
  cases q.bufferedIndex <;> cases q.currentIndex <;> rfl

/-- A new order of the upcoming items is a splice of them into their own place, in the order that
they have or in that of their numbers. -/
theorem exists_splices_reorder (d : Draws) (q : Queue) (items : List QueueItem) (shuffle : Bool) :
    ∃ batch behind,
      let first := firstUpcoming q
      batch.Perm (items.drop first) ∧ (shuffle = true → batch = items.drop first) ∧
      (shuffle = false → batch.Pairwise fun a b => a.sortIndex ≤ b.sortIndex) ∧
      Splices (min first items.length) batch [] shuffle behind ∧
      (reorder d q items shuffle).1 = items.take first ++ behind := by
  have htake : items.take (min (firstUpcoming q) items.length) = items.take (firstUpcoming q) := by
    rw [← List.take_take, List.take_length]
  cases shuffle with
  | true =>
    obtain ⟨behind, hsplices, hsplice⟩ := exists_splices d items (items.drop (firstUpcoming q))
      { insertAt := firstUpcoming q, keepRemaining := false, shuffle := true }
    dsimp only
    refine ⟨_, behind, .refl _, fun _ => rfl, (fun hplain => by cases hplain), hsplices, ?_⟩
    exact hsplice.trans (by rw [if_pos rfl, htake])
  | false =>
    obtain ⟨behind, hsplices, hsplice⟩ := exists_splices d items
      ((items.drop (firstUpcoming q)).mergeSort fun a b => decide (a.sortIndex ≤ b.sortIndex))
      { insertAt := firstUpcoming q, keepRemaining := false, shuffle := false }
    dsimp only
    refine ⟨_, behind, List.mergeSort_perm _ _, (fun hmixed => by cases hmixed),
      fun _ => pairwise_mergeSort_sortIndex _, hsplices, ?_⟩
    exact hsplice.trans (by rw [if_pos rfl, htake])

end Edit

/-! ## Loading and shuffling -/

/-- Loading a batch makes the list what is kept of the items before its place, and behind that the
batch with what is kept of the items from the place on, shuffled or not. Turning shuffle on or off
splices the items behind the position into their own place in the same way. Setting it to what it is
tells nothing and only counts the items, which changes nothing where they are counted, as they are
in any state of a session. -/
theorem splicing_loses_nothing {h : Hub} {queueId : String} {e : Entry}
    (he : h.entry? queueId = some e) (o : Outside) :
    (∀ (batch : List QueueItem) (options : LoadOptions), ∃ behind draws,
      let place := min options.insertAt e.items.length
      let items := (if options.keepPlayed then e.items.take place else []) ++ behind
      let queue := { e.queue with enqueuedNext := none, itemCount := items.length }
      let r := h.load o queueId batch options
      Edit.Splices place batch (if options.keepRemaining then e.items.drop place else [])
        options.shuffle behind ∧
      r.1 = .ok () ∧ Hub.Relisted o queueId { e with queue, items } { h with draws } r.2) ∧
    (∀ enabled, enabled ≠ e.queue.shuffle → ∃ batch behind draws,
      let first := ((e.queue.bufferedIndex.or e.queue.currentIndex).map (· + 1)).getD 0
      let items := e.items.take first ++ behind
      let queue :=
        { e.queue with shuffle := enabled, enqueuedNext := none, itemCount := items.length }
      let r := h.setShuffle o queueId enabled
      batch.Perm (e.items.drop first) ∧ (enabled = true → batch = e.items.drop first) ∧
      (enabled = false → batch.Pairwise fun a b => a.sortIndex ≤ b.sortIndex) ∧
      Edit.Splices (min first e.items.length) batch [] enabled behind ∧
      r.1 = .ok () ∧ Hub.Relisted o queueId { e with queue, items } { h with draws } r.2) ∧
    (let r := h.setShuffle o queueId e.queue.shuffle
     r.1 = .ok () ∧ Hub.Recounted queueId e h r.2 ∧ (e.Counted → h.Unchanged r.2) ∧
      ∀ config store draws nextItem moves,
        h = ((Session.start config store draws nextItem).run moves).hub → h.Unchanged r.2) := by
  refine ⟨fun batch options => ?_, fun enabled hnew => ?_, ?_⟩
  · obtain ⟨behind, hsplices, hitems⟩ := Edit.exists_splices h.draws e.items batch options
    refine ⟨behind, (Edit.splice h.draws e.items batch options).2, ?_⟩
    simp only [Hub.load, he]
    refine ⟨hsplices, trivial, ?_⟩
    rw [← hitems]
    exact Hub.relisted_commit
      (h := { h with draws := (Edit.splice h.draws e.items batch options).2 }) he o e.queue _
  · obtain ⟨batch, behind, hbatch, hsame, hsorted, hsplices, hitems⟩ :=
      Edit.exists_splices_reorder h.draws e.queue e.items enabled
    rw [Edit.firstUpcoming_eq] at hbatch hsame hsplices hitems
    refine ⟨batch, behind, (Edit.reorder h.draws e.queue e.items enabled).2, ?_⟩
    simp only [Hub.setShuffle, he, if_neg (Ne.symm hnew)]
    refine ⟨hbatch, hsame, hsorted, hsplices, trivial, ?_⟩
    rw [← hitems]
    exact Hub.relisted_commit
      (h := { h with draws := (Edit.reorder h.draws e.queue e.items enabled).2 }) he o
      { e.queue with shuffle := enabled } _
  · simp only [Hub.setShuffle, he, if_true]
    have hagain := Hub.recounted_putItems he
    refine ⟨trivial, hagain, hagain.unchanged he, ?_⟩
    rintro config store draws nextItem moves rfl
    exact hagain.unchanged he
      (Session.counted_run config store draws nextItem moves queueId e he)

/-- Two tracks come in behind the first of three: they take the numbers from one on, and the other
two go on from there. The queue was not shuffled, and telling it so once more changes nothing. -/
theorem splicing_loses_nothing_fill :
    let h := (House.session.run (House.fill ["a", "b", "c"])).hub
    let batch := ["d", "e"].map fun name => QueueItem.ofMedia name "den" (House.track name)
    let r := h.load House.world "den" batch { insertAt := 1 }
    ids (r.2.items "den") = ["qi1", "d", "e", "qi2", "qi3"] ∧
      (r.2.items "den").map (·.number) = [0, 1, 2, 4, 5] ∧
      ∃ e, h.entry? "den" = some e ∧ e.queue.shuffle = false ∧
        (∃ behind, r.2.items "den" = e.items.take 1 ++ behind ∧
          Edit.Splices 1 batch (e.items.drop 1) false behind) ∧
        h.Unchanged (h.setShuffle House.world "den" false).2 := by
  intro h batch r
  have hentry : (h.entry? "den").any (fun e =>
      !e.queue.shuffle && decide (e.items.length = 3)) := by
    decide +kernel
  obtain ⟨e, he, hlooks⟩ := (Option.any_eq_true _ _).1 hentry
  simp only [Bool.and_eq_true, Bool.not_eq_true', decide_eq_true_eq] at hlooks
  obtain ⟨hplain, hlength⟩ := hlooks
  obtain ⟨hload, -, hagain⟩ := splicing_loses_nothing he House.world
  obtain ⟨behind, draws, hsplices, -, hrelisted⟩ := hload batch { insertAt := 1 }
  rw [hplain] at hagain
  rw [hlength] at hsplices
  refine ⟨by decide +kernel, by decide +kernel, e, he, hplain, ⟨behind, ?_, hsplices⟩,
    hagain.2.2.2 {} {} default 1 (House.fill ["a", "b", "c"]) rfl⟩
  rw [Hub.items_eq_of_entry _ _ hrelisted.entry_eq, hlength]
  rfl

/-- The last of two tracks has the greatest number that 64 bits hold. Behind a third track, that
comes in before them, it has the number of this one. And where a queue does not count its items,
telling it once more that it is not shuffled counts them. -/
theorem last_number_wraps_and_items_are_counted :
    (let h := ((House.session.run (House.fill ["b", "c"])).hub.updateItem "den" "qi2" fun i =>
      { i with sortIndex := 18446744073709551615 }).2
     let batch := [QueueItem.ofMedia "a" "den" (House.track "a")]
     let r := h.load House.world "den" batch {}
     (h.items "den").map (·.number) = [0, 18446744073709551615] ∧
      ids (r.2.items "den") = ["a", "qi1", "qi2"] ∧
      (r.2.items "den").map (·.number) = [0, 1, 0] ∧
      ¬ ∀ i ∈ (r.2.items "den").take 1, ∀ j ∈ (r.2.items "den").drop 1, i.number < j.number) ∧
    (let h := (House.session.run (House.fill ["b", "c"])).hub.modifyQueue "den" fun q =>
      { q with itemCount := 7 }
     (h.entry? "den").map (·.queue.shuffle) = some false ∧
      ¬ h.Unchanged (h.setShuffle House.world "den" false).2) := by
  refine ⟨by decide +kernel, by decide +kernel, fun hsame => ?_⟩
  have hcount := congrArg (Option.map fun e : Entry => e.queue.itemCount) (hsame.entries "den")
  revert hcount
  decide +kernel

end Jukebox
