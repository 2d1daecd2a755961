import Jukebox.Proofs.Splicing
import Jukebox.Proofs.Transferring
import Mathlib.Data.List.Nodup

/-!
# Queues that are moved while they are shuffled

Turning shuffle off puts the upcoming items of a queue in the order of their numbers, which they got
when they were inserted (`Edit.restored`). A queue that is moved has its items inserted anew, in the
order in which they stand, so that turning shuffle off on the target leaves them in this order.
Moving a queue and turning shuffle off therefore commute only where the upcoming items are in the
order of their numbers anyway (`moving_unshuffling_comm_iff`).
-/

namespace Jukebox

/-! ## The order of the numbers -/

/-- Where no id is there twice, items in another order have their ids in another order. -/
theorem eq_of_ids_eq {items other : List QueueItem} (hids : (ids items).Nodup)
    (hperm : other.Perm items) (hsame : ids other = ids items) : other = items := by
  refine List.ext_getElem hperm.length_eq fun n hn hn' => ?_
  have hmem := hperm.subset (List.getElem_mem hn)
  refine List.inj_on_of_nodup_map hids hmem (List.getElem_mem hn') ?_
  have hid := congrArg (·[n]?) hsame
  simp only [ids, List.getElem?_map, List.getElem?_eq_getElem hn, List.getElem?_eq_getElem hn',
    Option.map_some] at hid
  exact Option.some.inj hid

namespace Edit

/-- The items from a position on are in the order of their numbers. -/
def restored (first : Nat) (items : List QueueItem) : List QueueItem :=
  items.take first ++ (items.drop first).mergeSort fun a b => decide (a.sortIndex ≤ b.sortIndex)

theorem ids_reorder_off (d : Draws) (q : Queue) (items : List QueueItem) :
    ids (reorder d q items false).1 = ids (restored (firstUpcoming q) items) := by
  simp [reorder, splice, upcoming, restored, ids_append, ids_numbered]

variable {items : List QueueItem} {first : Nat}

/-- Items that are in order stay there. -/
theorem restored_of_pairwise
    (hordered : (items.drop first).Pairwise fun a b => a.sortIndex ≤ b.sortIndex) :
    restored first items = items := by
  rw [restored, List.mergeSort_of_pairwise, List.take_append_drop]
  exact hordered.imp decide_eq_true

/-- Where no id is there twice, the ids tell whether the items are in order. -/
theorem ids_restored_eq_iff (hids : (ids items).Nodup) :
    ids (restored first items) = ids items ↔
      (items.drop first).Pairwise fun a b => a.sortIndex ≤ b.sortIndex := by
  refine ⟨fun hsame => ?_, fun hordered => by rw [restored_of_pairwise hordered]⟩
  have hsplit : ids items = ids (items.take first) ++ ids (items.drop first) := by
    rw [← ids_append, List.take_append_drop]
  rw [hsplit, restored, ids_append] at hsame
  have hbehind : (ids (items.drop first)).Nodup := by
    rw [ids_drop]
    exact hids.sublist (List.drop_sublist _ _)
  -- Sorting permutes the items, so ids that stay in place are items that do.
  have hstay := eq_of_ids_eq hbehind (List.mergeSort_perm _ _) (List.append_cancel_left hsame)
  rw [← hstay]
  exact pairwise_mergeSort_sortIndex _

end Edit

/-! ## Turning shuffle off -/

/-- Turning shuffle off restores the order behind what was played or buffered. -/
theorem Entry.ids_unshuffled {e : Entry} (hshuffled : e.queue.shuffle = true) (d : Draws) :
    ids (e.setShuffle d false).items =
      ids (Edit.restored (Edit.firstUpcoming e.queue) e.items) := by
  rw [setShuffle, if_neg (by rw [hshuffled]; decide)]
  exact Edit.ids_reorder_off d e.queue e.items

/-- The items of a queue that was moved are in order. -/
theorem Entry.pairwise_receiving (s t : Entry) (targetId : String) (first : Nat) :
    ((t.receiving targetId s).items.drop first).Pairwise fun a b => a.sortIndex ≤ b.sortIndex := by
  refine List.Pairwise.drop (List.pairwise_iff_getElem.2 fun m n hm hn hlt => ?_)
  simp only [receiving, commit, withItems, List.getElem_mapIdx]
  exact hlt.le

namespace Command

variable {S : Setting} {queueId : String} {h h₁ : Hub} {history : List Happening}

theorem unfolds_setShuffle {enabled : Bool} {result : Except Failure Unit}
    (hunfolds : (Request.setShuffle queueId enabled).command.Unfolds S h history result h₁) :
    ∃ o h', S.meanwhile h h' ∧ h₁ = (h'.setShuffle o queueId enabled).2 := by
  cases hunfolds with
  | read o _ hothers hnext =>
    cases hnext with
    | write _ hrest =>
      cases hrest
      exact ⟨o, _, hothers, rfl⟩

/-- Turning shuffle on or off is about one queue only. -/
theorem unfolds_setShuffle_entries (hS : S.Spares queueId) {enabled : Bool} {e : Entry}
    (he : h.entry? queueId = some e) {result : Except Failure Unit}
    (hunfolds : (Request.setShuffle queueId enabled).command.Unfolds S h history result h₁) :
    (∃ d, h₁.entry? queueId = some (e.setShuffle d enabled)) ∧
      ∀ other, other ≠ queueId → S.Spares other → h₁.entry? other = h.entry? other := by
  obtain ⟨o, h', hothers, rfl⟩ := unfolds_setShuffle hunfolds
  have hchange : Hub.Touches queueId (·.setShuffle h'.draws enabled) h'
      (h'.setShuffle o queueId enabled).2 := Hub.touches_setShuffle o enabled
  have hentry := Hub.entry?_of_touches hchange ((hS h h' hothers).trans he)
  refine ⟨⟨h'.draws, hentry⟩, fun other hother hspared => ?_⟩
  rw [hchange other, if_neg hother]
  exact hspared h h' hothers

end Command

/-! ## Moving a shuffled queue -/

section Moving

variable {S : Setting} {sourceId targetId : String} (hne : sourceId ≠ targetId)
  (hsource : S.Spares sourceId) (htarget : S.Spares targetId) {h h₁ : Hub} {s t : Entry}
  (hs : h.entry? sourceId = some s) (ht : h.entry? targetId = some t)
  (hshuffled : s.queue.shuffle = true) (hbuffered : s.queue.bufferedIndex = s.queue.currentIndex)
  {history : List Happening}

include hne hsource htarget hs ht hshuffled

/-- A queue that is moved and then no longer shuffled keeps its order. -/
theorem Command.ids_unshuffled_after_transfer
    (hunfolds : Unfolds S (do
      transfer sourceId targetId (some false)
      (Request.setShuffle targetId false).command) h history (.ok ()) h₁) :
    ids (h₁.items targetId) = ids s.items := by
  rcases hunfolds.of_bind with ⟨⟨⟩, h₂, _, _, hmoves, hunshuffles, -⟩ | ⟨_, _, hfailed⟩
  · obtain ⟨-, ht₂⟩ := unfolds_transfer_ok hsource htarget hs ht hne hmoves
    obtain ⟨⟨d, ht₁⟩, -⟩ := unfolds_setShuffle_entries htarget ht₂ hunshuffles
    rw [Hub.items_eq_of_entry _ _ ht₁,
      Entry.ids_unshuffled (e := t.receiving targetId s) hshuffled d,
      Edit.restored_of_pairwise (Entry.pairwise_receiving s t targetId _)]
    exact s.ids_receiving t targetId
  · cases hfailed

include hbuffered

/-- A queue that is no longer shuffled and then moved has its upcoming items in order. -/
theorem Command.ids_transferred_after_unshuffling
    (hunfolds : Unfolds S (do
      (Request.setShuffle sourceId false).command
      transfer sourceId targetId (some false)) h history (.ok ()) h₁) :
    ids (h₁.items targetId) =
      ids (Edit.restored ((s.queue.currentIndex.map (· + 1)).getD 0) s.items) := by
  rcases hunfolds.of_bind with ⟨⟨⟩, h₂, _, _, hunshuffles, hmoves, -⟩ | ⟨_, _, hfailed⟩
  · obtain ⟨⟨d, hs₂⟩, hothers⟩ := unfolds_setShuffle_entries hsource hs hunshuffles
    have ht₂ := (hothers targetId hne.symm htarget).trans ht
    obtain ⟨-, ht₁⟩ := unfolds_transfer_ok hsource htarget hs₂ ht₂ hne hmoves
    have hfirst : Edit.firstUpcoming s.queue = (s.queue.currentIndex.map (· + 1)).getD 0 := by
      rw [Edit.firstUpcoming_eq, hbuffered, Option.or_self]
    rw [Hub.items_eq_of_entry _ _ ht₁, Entry.ids_receiving, Entry.ids_unshuffled hshuffled d,
      hfirst]
  · cases hfailed

/-- Moving a shuffled queue and then turning shuffle off keeps the order of its items; turning
shuffle off and then moving it puts the upcoming ones in the order of their numbers. Where nothing
is buffered behind the current item, and no id is there twice, the two agree just if the upcoming
items were in this order before. -/
theorem moving_unshuffling_comm_iff (hids : (ids s.items).Nodup)
    (hmoved : Command.Unfolds S (do
      Command.transfer sourceId targetId (some false)
      (Request.setShuffle targetId false).command) h history (.ok ()) h₁)
    {later : List Happening} {h₂ : Hub}
    (hunshuffled : Command.Unfolds S (do
      (Request.setShuffle sourceId false).command
      Command.transfer sourceId targetId (some false)) h later (.ok ()) h₂) :
    let first := (s.queue.currentIndex.map (· + 1)).getD 0
    ids (h₁.items targetId) = ids s.items ∧
      ids (h₂.items targetId) = ids (Edit.restored first s.items) ∧
      (ids (h₁.items targetId) = ids (h₂.items targetId) ↔
        (s.items.drop first).Pairwise fun a b => a.sortIndex ≤ b.sortIndex) := by
  intro first
  have hkept := Command.ids_unshuffled_after_transfer hne hsource htarget hs ht hshuffled hmoved
  have hordered := Command.ids_transferred_after_unshuffling hne hsource htarget hs ht hshuffled
    hbuffered hunshuffled
  refine ⟨hkept, hordered, ?_⟩
  rw [hkept, hordered, eq_comm]
  exact Edit.ids_restored_eq_iff hids

end Moving

/-- Four items that were inserted at once are in order either way. -/
theorem four_items_unshuffled_either_way :
    let s : Entry :=
      { fourItems with queue := { fourItems.queue with bufferedIndex := some 0, shuffle := true } }
    let t : Entry := { queue := Queue.empty "kitchen" "Kitchen" true }
    let h := ((Hub.start {} {} default 1).putEntry "den" s).putEntry "kitchen" t
    let S := House.alone House.answers
    let moved : Command Unit := do
      Command.transfer "den" "kitchen" (some false)
      (Request.setShuffle "kitchen" false).command
    let unshuffled : Command Unit := do
      (Request.setShuffle "den" false).command
      Command.transfer "den" "kitchen" (some false)
    ∃ history later h₁ h₂, moved.Unfolds S h history (.ok ()) h₁ ∧
      unshuffled.Unfolds S h later (.ok ()) h₂ ∧
      ids (h₁.items "kitchen") = ids (h₂.items "kitchen") := by
  intro s t h S moved unshuffled
  have hs : h.entry? "den" = some s := by simp [h]
  have ht : h.entry? "kitchen" = some t := by simp [h]
  obtain ⟨history, h₁, hmoved, -⟩ := House.exists_unfolds moved h (.ok ())
    (fun _ => true) (by decide +kernel)
  obtain ⟨later, h₂, hunshuffled, -⟩ := House.exists_unfolds unshuffled h (.ok ())
    (fun _ => true) (by decide +kernel)
  obtain ⟨-, -, hiff⟩ := moving_unshuffling_comm_iff (by decide)
    (House.reserves_alone _ "den").spares (House.reserves_alone _ "kitchen").spares hs ht rfl rfl
    (by decide) hmoved hunshuffled
  exact ⟨history, later, h₁, h₂, hmoved, hunshuffled, hiff.2 (by decide)⟩

/-- Four tracks play and are shuffled, and another queue is empty. -/
def House.mixed : List (Outside × Move) :=
  twoPlayers ++ request (.playMedia "den" (["a", "b", "c", "d"].map fun name => .item (track name))
      (some .play) false none) ++
    request (.setShuffle "den" true)

/-- Shuffled tracks keep their mixed order when the queue is moved before shuffle is turned off. -/
theorem mixed_tracks_stay_mixed_in_kitchen :
    let h := (House.session.run House.mixed).hub
    let S := House.alone House.answers
    let moved : Command Unit := do
      Command.transfer "den" "kitchen" (some false)
      (Request.setShuffle "kitchen" false).command
    let unshuffled : Command Unit := do
      (Request.setShuffle "den" false).command
      Command.transfer "den" "kitchen" (some false)
    ∃ s t, h.entry? "den" = some s ∧ h.entry? "kitchen" = some t ∧ s.queue.shuffle = true ∧
      s.queue.bufferedIndex = s.queue.currentIndex ∧ (ids s.items).Nodup ∧ t.items = [] ∧
      ∃ history later h₁ h₂, moved.Unfolds S h history (.ok ()) h₁ ∧
        unshuffled.Unfolds S h later (.ok ()) h₂ ∧
        ids (h₁.items "kitchen") = ["qi1", "qi3", "qi2", "qi4"] ∧
        ids (h₂.items "kitchen") ≠ ids (h₁.items "kitchen") := by
  intro h S moved unshuffled
  have hden : (h.entry? "den").any fun e => decide (e.queue.shuffle = true ∧
      e.queue.bufferedIndex = e.queue.currentIndex ∧ e.queue.currentIndex = some 0 ∧
      ids e.items = ["qi1", "qi3", "qi2", "qi4"] ∧
      ¬ (e.items.drop 1).Pairwise fun a b => a.sortIndex ≤ b.sortIndex) := by
    decide +kernel
  have hkitchen : (h.entry? "kitchen").any fun e => e.items.isEmpty := by decide +kernel
  obtain ⟨s, hs, hlooks⟩ := (Option.any_eq_true _ _).1 hden
  obtain ⟨t, ht, hempty⟩ := (Option.any_eq_true _ _).1 hkitchen
  obtain ⟨hshuffled, hbuffered, hposition, hlist, hmixed⟩ := of_decide_eq_true hlooks
  have hids : (ids s.items).Nodup := by
    rw [hlist]
    decide
  refine ⟨s, t, hs, ht, hshuffled, hbuffered, hids, List.isEmpty_iff.1 hempty, ?_⟩
  obtain ⟨history, h₁, hmoved, -⟩ := House.exists_unfolds moved h (.ok ())
    (fun _ => true) (by decide +kernel)
  obtain ⟨later, h₂, hunshuffled, -⟩ := House.exists_unfolds unshuffled h (.ok ())
    (fun _ => true) (by decide +kernel)
  have hkept := Command.ids_unshuffled_after_transfer (by decide)
    (House.reserves_alone _ "den").spares (House.reserves_alone _ "kitchen").spares hs ht
    hshuffled hmoved
  have hordered := Command.ids_transferred_after_unshuffling (by decide)
    (House.reserves_alone _ "den").spares (House.reserves_alone _ "kitchen").spares hs ht
    hshuffled hbuffered hunshuffled
  rw [hposition] at hordered
  refine ⟨history, later, h₁, h₂, hmoved, hunshuffled, hkept.trans hlist, fun hsame => ?_⟩
  exact hmixed ((Edit.ids_restored_eq_iff hids).1 (hordered.symm.trans (hsame.trans hkept)))

end Jukebox
