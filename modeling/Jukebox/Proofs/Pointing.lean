import Jukebox.Proofs.Advancing
import Jukebox.Proofs.Transferring

/-!
# Where a queue points

A queue points at its list if its current item is the one at its position, and if it has none where
it has no position (`Entry.Points`). Playing an item of the list fails only as one of its calls
does, so a queue that points at its list can be resumed unless there is nothing to resume or the
item does not load. A queue that is moved goes on pointing at its list, if it has a current item;
where it has none, the target keeps the one that it had itself, and may then not be resumed
(`moved_queue_points_iff`).
-/

namespace Jukebox

/-- An item without its number. -/
def QueueItem.unnumbered (i : QueueItem) : QueueItem := { i with sortIndex := 0 }

namespace Entry

/-- The item at the position of a queue. -/
def positioned? (e : Entry) : Option QueueItem := e.queue.currentIndex.bind (e.items[·]?)

/-- Whether the current item of a queue is the one at its position, but for its number. -/
def Points (e : Entry) : Prop :=
  e.queue.currentItem.map (·.unnumbered) = e.positioned?.map (·.unnumbered)

theorem mem_ids_of_positioned? {e : Entry} {item : QueueItem} (hitem : e.positioned? = some item) :
    item.id ∈ ids e.items := by
  obtain ⟨index, -, hindex⟩ := Option.bind_eq_some_iff.1 hitem
  exact List.mem_map_of_mem (List.mem_of_getElem? hindex)

/-- The current item of a queue that points at its list is in the list. -/
theorem Points.mem_ids {e : Entry} (hpoints : e.Points) {item : QueueItem}
    (hitem : e.queue.currentItem = some item) : item.id ∈ ids e.items := by
  rw [Points, hitem] at hpoints
  obtain ⟨other, hother, hsame⟩ := Option.map_eq_some_iff.1 hpoints.symm
  have hid : other.unnumbered.id = item.unnumbered.id := congrArg QueueItem.id hsame
  rw [show item.id = other.id from hid.symm]
  exact mem_ids_of_positioned? hother

/-! ## Entries that receive a queue -/

variable {s t : Entry} {targetId : String}

theorem positioned?_receiving (s t : Entry) (targetId : String) :
    (t.receiving targetId s).positioned? = s.queue.currentIndex.bind fun index =>
      s.items[index]?.map fun i => { i with queueId := targetId, sortIndex := index } := by
  show s.queue.currentIndex.bind (fun index => (s.items.mapIdx _)[index]?) = _
  simp only [List.getElem?_mapIdx]

theorem currentItem_receiving (s t : Entry) (targetId : String) :
    (t.receiving targetId s).queue.currentItem =
      (s.queue.currentItem.map (·.inQueue targetId)).orElse fun _ => t.queue.currentItem := rfl

/-- The current item comes over with the item at the position. -/
theorem receiving_of_some (t : Entry) (targetId : String) {index : Nat} {item : QueueItem}
    (hindex : s.queue.currentIndex = some index)
    (hlist : s.items[index]? = some item) (hitem : s.queue.currentItem = some item) :
    (t.receiving targetId s).queue.currentItem = some (item.inQueue targetId) ∧
      (t.receiving targetId s).positioned? =
        some { item with queueId := targetId, sortIndex := index } := by
  rw [currentItem_receiving, positioned?_receiving, hindex, hitem]
  refine ⟨rfl, ?_⟩
  rw [Option.bind_some, hlist]
  rfl

/-- Without a current item, the one of the target stays. -/
theorem receiving_of_none (t : Entry) (targetId : String) (hitem : s.queue.currentItem = none)
    (hpoints : s.positioned? = none) :
    (t.receiving targetId s).queue.currentItem = t.queue.currentItem ∧
      (t.receiving targetId s).positioned? = none := by
  rw [currentItem_receiving, hitem]
  refine ⟨rfl, ?_⟩
  rw [positioned?_receiving, Option.bind_eq_none_iff]
  intro index hindex
  rw [positioned?, hindex, Option.bind_some] at hpoints
  rw [hpoints, Option.map_none]

/-- Where a queue points at its list, the target of the queue does if it gets a current item or had
none. -/
theorem points_receiving_iff (t : Entry) (targetId : String)
    (hpoints : s.queue.currentItem = s.positioned?) :
    (t.receiving targetId s).Points ↔
      (s.queue.currentItem = none → t.queue.currentItem = none) := by
  unfold Points
  cases hitem : s.queue.currentItem with
  | none =>
    obtain ⟨hcurrent, hlist⟩ :=
      receiving_of_none t targetId hitem (hpoints.symm.trans hitem)
    rw [hcurrent, hlist, Option.map_none, Option.map_eq_none_iff]
    exact ⟨fun hnone _ => hnone, fun hnone => hnone rfl⟩
  | some item =>
    obtain ⟨index, hindex, hlist⟩ := Option.bind_eq_some_iff.1 (hpoints.symm.trans hitem)
    obtain ⟨hcurrent, hplace⟩ := receiving_of_some t targetId hindex hlist hitem
    rw [hcurrent, hplace]
    exact ⟨(fun _ hnone => nomatch hnone), fun _ => rfl⟩

/-- The number of the current item comes over too, and the items are numbered by their places. -/
theorem currentItem_receiving_eq_iff (hpoints : s.queue.currentItem = s.positioned?) :
    (t.receiving targetId s).queue.currentItem = (t.receiving targetId s).positioned? ↔
      (s.queue.currentItem = none → t.queue.currentItem = none) ∧
        ∀ item, s.queue.currentItem = some item →
          s.queue.currentIndex = some item.sortIndex := by
  cases hitem : s.queue.currentItem with
  | none =>
    obtain ⟨hcurrent, hlist⟩ :=
      receiving_of_none t targetId hitem (hpoints.symm.trans hitem)
    rw [hcurrent, hlist]
    refine ⟨fun hnone => ⟨fun _ => hnone, fun _ hsome => nomatch hsome⟩, fun hnone => ?_⟩
    exact hnone.1 rfl
  | some item =>
    obtain ⟨index, hindex, hlist⟩ := Option.bind_eq_some_iff.1 (hpoints.symm.trans hitem)
    obtain ⟨hcurrent, hplace⟩ := receiving_of_some t targetId hindex hlist hitem
    rw [hcurrent, hplace, hindex]
    constructor
    · intro hsame
      refine ⟨(fun hnone => nomatch hnone), ?_⟩
      rintro _ ⟨⟩
      exact congrArg (fun i => some i.sortIndex) (Option.some.inj hsame).symm
    · rintro ⟨-, hnumber⟩
      have hnumber := Option.some.inj (hnumber item rfl)
      rw [hnumber]
      rfl

end Entry

/-! ## Resuming -/

/-- A failure to find the media of an item is what a call was answered with. -/
theorem QueueItem.FindsMedia.answered {item : QueueItem} {asked : List Answered}
    {failure : Failure} (hfinds : item.FindsMedia asked (.error failure)) :
    ∃ c, (⟨c, .error failure⟩ : Answered) ∈ asked := by
  cases hfinds with
  | fails => exact ⟨_, List.mem_singleton_self _⟩

/-- So is a failure to look an item up. -/
theorem QueueItem.LooksUp.answered {item : QueueItem} {asked : List Answered} {failure : Failure}
    (hlooks : item.LooksUp asked (.error failure)) :
    ∃ c, (⟨c, .error failure⟩ : Answered) ∈ asked := by
  cases hlooks with
  | unknown hfinds => exact hfinds.answered
  | missing => exact ⟨_, List.mem_append_right _ (List.mem_singleton_self _)⟩

namespace Command

variable {S : Setting} {queueId : String} {h h₁ : Hub} {history : List Happening}
  (hS : S.Spares queueId) {e : Entry} (he : h.entry? queueId = some e)

theorem find_of_mem {e : Entry} {itemId : String} (hmem : itemId ∈ ids e.items) :
    ∃ index item, find e (.id itemId) = pure (index, item) := by
  obtain ⟨index, hindex⟩ := exists_indexOf?_of_mem hmem
  have hlt := lt_length_of_indexOf? hindex
  refine ⟨index, e.items[index], ?_⟩
  simp only [find, hindex, pure_bind, List.getElem?_eq_getElem hlt]

/-- What a queue is resumed with is in its list, if its current item is. -/
theorem mem_ids_of_resumePoint {e : Entry} {clock : Float} {point : QueueItem × Float}
    (hcurrent : ∀ item, e.queue.currentItem = some item → item.id ∈ ids e.items)
    (hpoint : resumePoint e clock = some point) : point.1.id ∈ ids e.items := by
  cases hitem : e.queue.currentItem with
  | some item =>
    simp only [resumePoint, hitem] at hpoint
    cases hpoint
    exact hcurrent item hitem
  | none =>
    simp only [resumePoint, hitem] at hpoint
    obtain ⟨item, hfirst, rfl⟩ := Option.map_eq_some_iff.1 hpoint
    exact List.mem_map_of_mem (List.mem_of_getElem? hfirst)

include hS he

/-- An item that is found fails to be loaded only as a call does. -/
theorem unfolds_loadAt_error {key : ItemKey} {index : Nat} {item : QueueItem}
    (hfind : find e key = pure (index, item)) {seek : UInt32} {fadeIn : Bool} {failure : Failure}
    (hunfolds : (loadAt queueId key seek fadeIn).Unfolds S h history (.error failure) h₁) :
    ∃ c, (⟨c, .error failure⟩ : Answered) ∈ asked history := by
  obtain ⟨h₂, he₂, hfinds⟩ := Unfolds.of_entry hS he hunfolds
  rw [hfind, pure_bind] at hfinds
  obtain ⟨_, h₃, -, hothers, hbuffers⟩ := Unfolds.of_look hfinds
  have he₃ := (hS _ _ hothers).trans he₂
  obtain ⟨h₄, rest, hquiet, he₄, hloads⟩ := Unfolds.of_modifyQueue hS he₃ hbuffers
  obtain ⟨outcome, h₅, first, more, hload, hthen, rfl⟩ := hloads.of_outcome
  obtain ⟨hlooks, -, e₅, he₅, -⟩ := unfolds_lookUp hS he₄ hload
  rw [hquiet.asked_eq, asked_append]
  -- What is done about a failed load makes no call and passes the failure on.
  cases outcome with
  | ok loaded =>
    obtain ⟨h₆, _, -, -, hdone⟩ := Unfolds.of_modifyQueue hS he₅ hthen
    cases hdone.of_pure.2.1
  | error problem =>
    have hsame : failure = problem := by
      obtain ⟨h₆, _, -, he₆, hfails⟩ := Unfolds.of_modifyQueue hS he₅ hthen
      split at hfails
      · obtain ⟨h₇, _, _, -, -, hlast⟩ := Unfolds.of_updateItem hS he₆ hfails
        exact Except.error.inj hlast.of_throw.2.1
      · exact Except.error.inj hfails.of_throw.2.1
    obtain ⟨c, hc⟩ := hlooks.answered
    exact ⟨c, List.mem_append_left _ (hsame ▸ hc)⟩

/-- An item of the list fails to play only as a call does. -/
theorem unfolds_playIndex_error {itemId : String} (hmem : itemId ∈ ids e.items) {seek : UInt32}
    {fadeIn debounce : Bool} {failure : Failure}
    (hunfolds : (playIndex queueId (.id itemId) seek fadeIn debounce).Unfolds S h history
      (.error failure) h₁) :
    ∃ c, (⟨c, .error failure⟩ : Answered) ∈ asked history := by
  obtain ⟨index, item, hfind⟩ := find_of_mem hmem
  rw [playIndex_eq] at hunfolds
  rcases hunfolds.of_bind with ⟨found, h₂, first, rest, -, hsend, rfl⟩ | ⟨_, hload, hfailed⟩
  · obtain ⟨_, _, _, _, -, hsignal⟩ := Unfolds.of_change hsend
    obtain ⟨_, _, -, -, hok, -⟩ := hsignal.of_last_change
    cases hok
  · cases hfailed
    exact unfolds_loadAt_error hS he hfind hload

/-- A queue whose current item is in its list is resumed, unless there is nothing to resume or a
call fails. -/
theorem unfolds_resume_error
    (hcurrent : ∀ item, e.queue.currentItem = some item → item.id ∈ ids e.items)
    {fadeIn : Option Bool} {failure : Failure}
    (hunfolds : (resume queueId fadeIn).Unfolds S h history (.error failure) h₁) :
    failure = .nothingToResume e.queue.displayName ∨
      ∃ c, (⟨c, .error failure⟩ : Answered) ∈ asked history := by
  obtain ⟨h₂, he₂, hlooks⟩ := Unfolds.of_entry hS he hunfolds
  obtain ⟨o, h₃, -, hothers, hresumes⟩ := Unfolds.of_look hlooks
  have he₃ := (hS _ _ hothers).trans he₂
  cases hpoint : resumePoint e o.clock with
  | none =>
    simp only [hpoint] at hresumes
    exact .inl (Except.error.inj hresumes.of_throw.2.1)
  | some point =>
    simp only [hpoint] at hresumes
    obtain ⟨_, h₄, -, hothers', hplays⟩ := Unfolds.of_look hresumes
    have hmem := mem_ids_of_resumePoint hcurrent hpoint
    exact .inr (unfolds_playIndex_error hS ((hS _ _ hothers').trans he₃) hmem hplays)

/-- A queue whose current item is not in its list can not be resumed. -/
theorem unfolds_resume_unknown {item : QueueItem} (hitem : e.queue.currentItem = some item)
    (habsent : item.id ∉ ids e.items) {fadeIn : Option Bool} {result : Except Failure Unit}
    (hunfolds : (resume queueId fadeIn).Unfolds S h history result h₁) :
    history = [] ∧ result = .error (.unknownItem item.id) := by
  obtain ⟨h₂, he₂, hlooks⟩ := Unfolds.of_entry hS he hunfolds
  obtain ⟨o, h₃, -, hothers, hresumes⟩ := Unfolds.of_look hlooks
  have he₃ := (hS _ _ hothers).trans he₂
  simp only [resumePoint, hitem] at hresumes
  obtain ⟨_, h₄, -, hothers', hplays⟩ := Unfolds.of_look hresumes
  obtain ⟨h₅, -, hfinds⟩ := Unfolds.of_entry hS ((hS _ _ hothers').trans he₃) hplays
  have hfind : find e (.id item.id) = throw (.unknownItem item.id) := by
    simp only [find, indexOf?_of_notMem habsent]
    rfl
  rw [hfind] at hfinds
  cases hfinds
  exact ⟨rfl, rfl⟩

end Command

/-! ## Queues that are moved -/

/-- Where a queue points at its list and is moved, and is not to play then, the target points at its
new list just if the queue has a current item or the target had none; but for the number of the
item, which is that of its place if that was so before. A target that points at its list can be
resumed, unless there is nothing to resume or a call fails. Any other one is left with its own old
item and no position, and can not be resumed unless that item came over too. -/
theorem moved_queue_points_iff {S : Setting} {sourceId targetId : String}
    (hne : sourceId ≠ targetId) (hsource : S.Spares sourceId) (htarget : S.Spares targetId)
    {h : Hub} {s t : Entry} (hs : h.entry? sourceId = some s) (ht : h.entry? targetId = some t)
    (hpoints : s.queue.currentItem = s.positioned?) {history : List Happening} {h₁ : Hub}
    (hmoved : (Command.transfer sourceId targetId (some false)).Unfolds S h history (.ok ()) h₁) :
    let takesOver := s.queue.currentItem = none → t.queue.currentItem = none
    ∃ t', h₁.entry? targetId = some t' ∧ (t'.Points ↔ takesOver) ∧
      (t'.queue.currentItem = t'.positioned? ↔ takesOver ∧
        ∀ item, s.queue.currentItem = some item → s.queue.currentIndex = some item.sortIndex) ∧
      (t'.Points → ∀ fadeIn later failure h₂,
        (Command.resume targetId fadeIn).Unfolds S h₁ later (.error failure) h₂ →
        failure = .nothingToResume t'.queue.displayName ∨
          ∃ c, (⟨c, .error failure⟩ : Answered) ∈ asked later) ∧
      (¬ t'.Points → ∃ item, t.queue.currentItem = some item ∧
        t'.queue.currentItem = some item ∧ t'.queue.currentIndex = s.queue.currentIndex ∧
        t'.positioned? = none ∧
        (item.id ∉ ids s.items → ∀ fadeIn later result h₂,
          (Command.resume targetId fadeIn).Unfolds S h₁ later result h₂ →
          later = [] ∧ result = .error (.unknownItem item.id))) := by
  intro takesOver
  obtain ⟨-, ht₁⟩ := Command.unfolds_transfer_ok hsource htarget hs ht hne hmoved
  have hiff := Entry.points_receiving_iff t targetId hpoints
  refine ⟨_, ht₁, hiff, Entry.currentItem_receiving_eq_iff hpoints, ?_, ?_⟩
  · intro htpoints fadeIn later failure h₂ hresumes
    exact Command.unfolds_resume_error htarget ht₁ (fun _ hitem => htpoints.mem_ids hitem) hresumes
  · intro hlost
    obtain ⟨hnone, hkept⟩ := Classical.not_imp.1 (mt hiff.2 hlost)
    obtain ⟨item, hitem⟩ := Option.ne_none_iff_exists'.1 hkept
    obtain ⟨hcurrent, hplace⟩ :=
      Entry.receiving_of_none t targetId hnone (hpoints.symm.trans hnone)
    have hcurrent := hcurrent.trans hitem
    refine ⟨item, hitem, hcurrent, rfl, hplace, fun habsent fadeIn later result h₂ hresumes => ?_⟩
    refine Command.unfolds_resume_unknown htarget ht₁ hcurrent ?_ hresumes
    have hids : ids (t.receiving targetId s).items = ids s.items := s.ids_receiving t targetId
    rwa [hids]

/-- The first of four items is the current one, and another queue is empty. -/
theorem four_items_point :
    let s : Entry :=
      { fourItems with queue := { fourItems.queue with currentItem := fourItems.items[0]? } }
    let t : Entry := { queue := Queue.empty "kitchen" "Kitchen" true }
    let h := ((Hub.start {} {} default 1).putEntry "den" s).putEntry "kitchen" t
    let S := House.alone House.answers
    ∃ history h₁,
      (Command.transfer "den" "kitchen" (some false)).Unfolds S h history (.ok ()) h₁ ∧
      ∃ t', h₁.entry? "kitchen" = some t' ∧ t'.Points ∧
        ∀ fadeIn later failure h₂,
          (Command.resume "kitchen" fadeIn).Unfolds S h₁ later (.error failure) h₂ →
          failure = .nothingToResume t'.queue.displayName ∨
            ∃ c, (⟨c, .error failure⟩ : Answered) ∈ asked later := by
  intro s t h S
  have hs : h.entry? "den" = some s := by simp [h]
  have ht : h.entry? "kitchen" = some t := by simp [h]
  obtain ⟨history, h₁, hmoves, -⟩ := House.exists_unfolds
    (Command.transfer "den" "kitchen" (some false)) h (.ok ()) (fun _ => true) (by decide +kernel)
  obtain ⟨t', ht', hiff, -, hresumes, -⟩ := moved_queue_points_iff (by decide)
    (House.reserves_alone _ "den").spares (House.reserves_alone _ "kitchen").spares hs ht rfl hmoves
  have htpoints : t'.Points := hiff.2 fun hnone => nomatch hnone
  exact ⟨history, h₁, hmoves, t', ht', htpoints, hresumes htpoints⟩

/-- A track is the current one of one queue, and in another one, that has none, a track waits. -/
def House.unplayed : List (Outside × Move) :=
  twoPlayers ++ request (.playMedia "kitchen" [.item (track "a")] (some .add) false none) ++
    request (.playMedia "den" [.item (track "b")] (some .next) false none)

/-- A queue without a current item points at its list, but the target does not when the queue was
moved, and can not be resumed. -/
theorem unplayed_queue_misleads_kitchen :
    let h := (House.session.run House.unplayed).hub
    let S := House.alone House.answers
    ∃ s, h.entry? "den" = some s ∧ s.queue.currentItem = s.positioned? ∧
      ∃ history h₁ t',
        (Command.transfer "den" "kitchen" (some false)).Unfolds S h history (.ok ()) h₁ ∧
        h₁.entry? "kitchen" = some t' ∧ t'.queue.currentItem ≠ t'.positioned? ∧
        ¬ (t'.queue.currentIndex = none → t'.queue.currentItem = none) ∧
        ∃ later h₂, (Command.resume "kitchen" none).Unfolds S h₁ later
          (.error (.unknownItem "qi1")) h₂ := by
  intro h S
  have hsource : (h.entry? "den").any fun e =>
      e.queue.currentItem.isNone && e.positioned?.isNone := by
    decide +kernel
  obtain ⟨s, hs, hpoints⟩ := (Option.any_eq_true _ _).1 hsource
  obtain ⟨hitem, hplace⟩ := Bool.and_eq_true_iff.1 hpoints
  obtain ⟨history, h₁, hmoves, hlooks⟩ := House.exists_unfolds
    (Command.transfer "den" "kitchen" (some false)) h (.ok ())
    (fun h => ((h.entry? "kitchen").any fun e =>
        e.queue.currentItem.isSome && e.queue.currentIndex.isNone) &&
      decide (((Command.resume "kitchen" none).run.alone House.world House.answers h).1 =
        .error (.unknownItem "qi1")))
    (by decide +kernel)
  obtain ⟨htarget, hstuck⟩ := Bool.and_eq_true_iff.1 hlooks
  obtain ⟨t', ht', htarget⟩ := (Option.any_eq_true _ _).1 htarget
  obtain ⟨hkept, hnowhere⟩ := Bool.and_eq_true_iff.1 htarget
  rw [Option.isNone_iff_eq_none] at hitem hplace hnowhere
  have hkept : t'.queue.currentItem ≠ none := Option.isSome_iff_ne_none.1 hkept
  obtain ⟨later, h₂, hresumes, -⟩ := House.exists_unfolds _ _ _ (fun _ => true)
    (Bool.and_eq_true_iff.2 ⟨hstuck, rfl⟩)
  refine ⟨s, hs, hitem.trans hplace.symm, history, h₁, t', hmoves, ht', ?_, ?_, later, h₂,
    hresumes⟩
  · rw [Entry.positioned?, hnowhere]
    exact hkept
  · exact fun hpoints => hkept (hpoints hnowhere)

end Jukebox
