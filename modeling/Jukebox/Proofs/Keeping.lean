import Jukebox.Proofs.Jobs

/-!
# What edits and reports keep

Edits of a queue and reports about it are put together from a few changes: its entry is changed in
place, its list is replaced, and that is published and stored. Jobs may be made to wait besides. A
property of hubs that these changes keep (`Hub.Kept`) is therefore kept by whole edits and reports
(`Hub.Kept.apply`).
-/

namespace Jukebox.Hub

/-- Whether a property of hubs says that a queue is kept under its id, and goes on holding when the
queue is changed in place, when its list is replaced, and when changes are published and stored. -/
structure Kept (o : Outside) (queueId : String) (I : Hub → Prop) : Prop where
  named : ∀ {h e}, I h → h.entry? queueId = some e → e.queue.id = queueId
  congr : ∀ {h h'}, I h → h'.entry? queueId = h.entry? queueId → h'.events = h.events →
    h'.store = h.store → h'.config = h.config → I h'
  modifyEntry : ∀ {h f}, I h → (∀ e, h.entry? queueId = some e →
    (f e).queue.id = queueId ∧ (f e).items = e.items) → I (h.modifyEntry queueId f)
  replace : ∀ {h q} items, I h → q.id = queueId →
    I (signal (h.putItems queueId q items) o queueId true)
  publish : ∀ {h e}, I h → e.queueId = queueId → (∀ count, e ≠ .itemsUpdated queueId count) →
    I (h.publish e)
  signal : ∀ {h} itemsChanged, I h → I (h.signal o queueId itemsChanged)

namespace Kept

variable {o : Outside} {queueId : String} {I : Hub → Prop} (hI : Kept o queueId I) {h : Hub}

include hI

theorem later (hs : I h) (key : String) (delay : Nat) (job : Job) :
    I (h.later o key delay job) :=
  hI.congr hs rfl rfl rfl rfl

theorem spawn (hs : I h) (job : Job) : I (h.spawn o job) := hI.congr hs rfl rfl rfl rfl

theorem modifyQueue {f : Queue → Queue} (hs : I h) (hf : ∀ q, q.id = queueId → (f q).id = queueId) :
    I (h.modifyQueue queueId f) :=
  hI.modifyEntry hs fun e he => ⟨hf e.queue (hI.named hs he), rfl⟩

/-- The items of a queue are put back as they are. -/
theorem putItems {e : Entry} (hs : I h) (he : h.entry? queueId = some e) :
    I (h.putItems queueId e.queue e.items) := by
  have hnamed := hI.named hs he
  refine hI.modifyEntry hs fun e' he' => ?_
  rw [he] at he'
  cases he'
  exact ⟨hnamed, rfl⟩

/-! ## Edits -/

theorem edit (hs : I h) (f : Queue → List QueueItem → Except Failure (Option (List QueueItem))) :
    I (h.edit o queueId f).2 := by
  unfold Hub.edit
  cases he : h.entry? queueId with
  | none => exact hs
  | some e =>
    dsimp only
    split
    · exact hI.putItems hs he
    · exact hI.putItems hs he
    · exact hI.replace _ hs (hI.named hs he)

theorem load (hs : I h) (batch : List QueueItem) (options : LoadOptions) :
    I (h.load o queueId batch options).2 := by
  unfold Hub.load
  cases he : h.entry? queueId with
  | none => exact hs
  | some e => exact hI.replace _ (hI.congr hs rfl rfl rfl rfl) (hI.named hs he)

theorem clear (hs : I h) : I (h.clear o queueId).2 := by
  have hitems : I (h.clearItems o queueId).2 := by
    unfold clearItems
    cases he : h.entry? queueId with
    | none => exact hs
    | some e => exact hI.replace [] hs (hI.named hs he)
  unfold Hub.clear
  rcases hclear : h.clearItems o queueId with ⟨failure | state, h'⟩
  · rw [hclear] at hitems
    exact hitems
  · rw [hclear] at hitems
    cases state with
    | idle => exact hitems
    | _ => exact hI.spawn hitems _

theorem setShuffle (hs : I h) (enabled : Bool) : I (h.setShuffle o queueId enabled).2 := by
  unfold Hub.setShuffle
  cases he : h.entry? queueId with
  | none => exact hs
  | some e =>
    dsimp only
    split
    · exact hI.putItems hs he
    · exact hI.replace _ (hI.congr hs rfl rfl rfl rfl) (hI.named hs he)

theorem setRepeat (hs : I h) (mode : RepeatMode) : I (h.setRepeat o queueId mode).2 := by
  unfold Hub.setRepeat
  cases h.queue? queueId with
  | none => exact hs
  | some q =>
    dsimp only
    split
    · exact hs
    · exact hI.signal false (hI.modifyQueue hs fun _ => id)

theorem adoptRequests (hs : I h) : I (h.adoptRequests queueId) := hI.modifyQueue hs fun _ => id

theorem setDontStop (hs : I h) (enabled : Bool) : I (h.setDontStop o queueId enabled).2 := by
  unfold Hub.setDontStop
  split
  · exact hs
  · cases h.queue? queueId with
    | none => exact hs
    | some q =>
      have hset : I ((h.modifyQueue queueId fun q => { q with dontStop := enabled }).signal o
          queueId false) :=
        hI.signal false (hI.modifyQueue hs fun _ => id)
      dsimp only
      split
      · exact hI.later (hI.adoptRequests hset) _ _ _
      · exact hset

theorem trackLoaded (hs : I h) (itemId : String) : I (h.trackLoaded o queueId itemId).2 := by
  unfold Hub.trackLoaded
  cases h.entry? queueId with
  | none => exact hs
  | some e => exact hI.signal false (hI.modifyQueue hs fun _ => id)

theorem logFlow (hs : I h) (entry : FlowEntry Float) : I (h.logFlow queueId entry).2 := by
  unfold Hub.logFlow
  cases h.queue? queueId with
  | none => exact hs
  | some q =>
    dsimp only
    refine hI.modifyQueue hs fun q hq => ?_
    split
    · exact hq
    · exact hq

/-! ## Reports -/

theorem recordLeft (hs : I h) (items : List QueueItem) (old new : Observation) (ended : Bool) :
    I (h.recordLeft o queueId items old new ended) := by
  have hrecord : ∀ item stream elapsed, I (h.recordPlayed o queueId item stream elapsed) := by
    intro item stream elapsed
    unfold recordPlayed
    cases item.media with
    | none => exact hI.spawn hs _
    | some media =>
      dsimp only
      split
      · exact hI.spawn hs _
      · exact hI.publish (hI.spawn (hI.spawn hs _) _) rfl fun _ h => nomatch h
  unfold Hub.recordLeft
  split
  · exact hs
  · split
    · exact hs
    · split
      · exact hs
      · split
        · exact hs
        · exact hrecord _ _ _

theorem tellChange (hs : I h) {q : Queue} (hq : q.id = queueId) (change : Change)
    (new : Observation) : I (h.tellChange o queueId q change new) := by
  unfold Hub.tellChange
  have htold : ∀ {g : Hub}, I g → I (g.modifyEntry queueId fun e =>
      { e with remembered := if q.active then some new else none }) := by
    intro g hg
    refine hI.modifyEntry hg fun e he => ⟨?_, rfl⟩
    have hnamed := hI.named hg he
    exact hnamed
  refine htold ?_
  split
  · exact hI.publish hs hq fun _ h => nomatch h
  · exact hI.signal _ hs

theorem currentItemChanged {q : Queue} (hs : I h) (hq : q.id = queueId) :
    I (h.currentItemChanged o q) := by
  subst hq
  have hadopt : ∀ (p : Prop) [Decidable p], I (if p then h.adoptRequests q.id else h) := by
    intro p _
    split
    · exact hI.adoptRequests hs
    · exact hs
  unfold Hub.currentItemChanged
  split
  · exact hs
  · dsimp only
    split
    · exact hI.later (hadopt _) _ _ _
    · exact hadopt _

theorem schedulePreload {q : Queue} (hs : I h) (hq : q.id = queueId) :
    I (h.schedulePreload o q) := by
  subst hq
  unfold Hub.schedulePreload
  split
  · split
    · exact hs
    · refine hI.later (hI.modifyQueue hs ?_) _ _ _
      exact fun _ => id
  · exact hs

theorem followReport {q : Queue} (hs : I h) (hq : q.id = queueId) (items : List QueueItem)
    (old : Observation) : I (h.followReport o queueId items old q) := by
  have hended : ∀ {g : Hub} (b : Bool), I g →
      I (if b then g.scheduleClearCheck o queueId else g) := by
    intro g b hg
    cases b with
    | false => exact hg
    | true => exact hI.later hg _ _ _
  have hlast : ∀ {g : Hub} (b : Bool), I g → I (if b then g.currentItemChanged o q else g) := by
    intro g b hg
    cases b with
    | false => exact hg
    | true => exact hI.currentItemChanged hg hq
  obtain ⟨g, hg, hpreload⟩ : ∃ g, I g ∧
      (if old.LetsPreload q then h.schedulePreload o q else h) = g := by
    refine ⟨_, ?_, rfl⟩
    split
    · exact hI.schedulePreload hs hq
    · exact hs
  by_cases hsame : (old.changeTo (Observation.ofQueue q)).isEmpty
  · simp only [Hub.followReport, hsame, if_true]
    exact hpreload ▸ hg
  · simp only [Hub.followReport, hsame]
    have htold := hI.tellChange (hpreload ▸ hg) hq (old.changeTo (.ofQueue q)) (.ofQueue q)
    exact hlast _ (hended _ (hI.recordLeft htold items old _ _))

theorem onReport {r : PlayerReport} (hs : I h) (hfor : r.playerId = queueId) :
    I (h.onReport o r) := by
  subst hfor
  cases he : h.entry? r.playerId with
  | none =>
    rw [onReport_unknown o he]
    exact hs
  | some e =>
    have hnamed := hI.named hs he
    by_cases hannounce : r.announcementInProgress
    · rw [onReport_announcing o hannounce]
      exact hs
    by_cases hheeds : Heeds r e
    · have hid : (reportedQueue o r e).id = r.playerId := (queue?_reportedQueue o he hnamed).1
      rw [onReport_heeded o he hannounce hheeds]
      exact hI.followReport (hI.modifyQueue hs fun _ _ => hid) hid e.items _
    · rw [onReport_unheeded o he hannounce hheeds]
      exact hI.modifyQueue hs fun _ _ => hnamed

/-! ## Acts -/

/-- What these changes keep is kept by every act for the queue, unless an item or the list is
changed without a word or the player comes or goes. -/
theorem apply {a : Act} (hs : I h) (hfor : a.target? = some queueId)
    (hitem : ∀ id itemId change, a ≠ .updateItem id itemId change)
    (hstart : ∀ id, a ≠ .startOver id) (hcomes : ∀ r, a ≠ .register r)
    (hgoes : ∀ playerId, a ≠ .remove playerId) : I (a.apply o h) := by
  cases a with
  | modify _ change =>
    cases hfor
    exact hI.modifyQueue hs fun q hq => (change.id_apply q).trans hq
  | updateItem => exact absurd rfl (hitem _ _ _)
  | load => cases hfor; exact hI.load hs _ _
  | moveItem => cases hfor; exact hI.edit hs _
  | deleteItem => cases hfor; exact hI.edit hs _
  | clear => cases hfor; exact hI.clear hs
  | startOver => exact absurd rfl (hstart _)
  | setShuffle => cases hfor; exact hI.setShuffle hs _
  | setRepeat => cases hfor; exact hI.setRepeat hs _
  | setDontStop => cases hfor; exact hI.setDontStop hs _
  | trackLoaded => cases hfor; exact hI.trackLoaded hs _
  | logFlow => cases hfor; exact hI.logFlow hs _
  | signal => cases hfor; exact hI.signal _ hs
  | dispatch => cases hfor; exact hI.later hs _ _ _
  | report r => exact hI.onReport hs (Option.some.inj hfor)
  | register => exact absurd rfl (hcomes _)
  | remove => exact absurd rfl (hgoes _)
  | _ => cases hfor

end Kept

end Jukebox.Hub
