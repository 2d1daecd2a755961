import Jukebox.Proofs.Invariants
import Jukebox.Proofs.Snapshots

/-!
# Sound hubs

A hub is sound when every queue counts its items, tells them apart by their ids and remembers no
more requests than it may, and when the same holds of every snapshot that reads back. All these ids
are spent: they were in some list before. A new batch may be loaded into any list as long as none of
its ids is spent.

Every act keeps a hub sound (`Hub.Sound.apply`); a load has to leave a list without repetitions, and
the settings of another queue are taken over with no more requests than that one may remember.
-/

namespace Jukebox

/-- Whether the items of a list have ids of their own, all of them spent. -/
structure Distinct (spent : String → Prop) (items : List QueueItem) : Prop where
  nodup : (ids items).Nodup
  spent : ∀ id ∈ ids items, spent id

/-- Whether an entry counts its items, tells them apart and remembers few enough requests. -/
structure Entry.Sound (spent : String → Prop) (e : Entry) : Prop where
  counted : e.queue.itemCount = e.items.length
  distinct : Distinct spent e.items
  few : e.queue.requested.length ≤ requestLimit

/-- Whether all that reads back from a store was stored by sound entries. -/
structure Store.Sound (spent : String → Prop) (s : Store) : Prop where
  distinct : ∀ base text items, s.get? base itemsKey = some text →
    Hub.parse? text = some items → Distinct spent items
  few : ∀ base text (q : Queue), s.get? base stateKey = some text →
    Hub.parse? text = some q → q.requested.length ≤ requestLimit

/-- Whether all entries of a hub and all that is stored are sound, and which number the next item
gets. -/
structure Hub.Sound (spent : String → Prop) (next : Nat) (h : Hub) : Prop where
  entries : h.All fun _ e => e.Sound spent
  store : h.store.Sound spent
  next : h.nextItem = next

variable {spent spent' : String → Prop} {next : Nat}

/-! ## Lists -/

namespace Distinct

variable {items batch : List QueueItem}

theorem nil : Distinct spent [] := ⟨List.nodup_nil, fun _ h => nomatch h⟩

theorem mono (h : Distinct spent items) (hle : ∀ id, spent id → spent' id) :
    Distinct spent' items :=
  ⟨h.nodup, fun id hid => hle id (h.spent id hid)⟩

theorem of_subperm {other : List QueueItem} (h : Distinct spent items)
    (hsub : (ids other).Subperm (ids items)) : Distinct spent other := by
  refine ⟨?_, fun id hid => h.spent id (hsub.subset hid)⟩
  obtain ⟨kept, hperm, hsublist⟩ := hsub
  exact hperm.nodup_iff.1 (h.nodup.sublist hsublist)

theorem of_perm {other : List QueueItem} (h : Distinct spent items)
    (hperm : (ids other).Perm (ids items)) : Distinct spent other :=
  h.of_subperm hperm.subperm

/-- A batch of which no id is spent can be spliced in anywhere. -/
theorem splice (h : Distinct spent items) (hbatch : (ids batch).Nodup)
    (hfresh : ∀ id ∈ ids batch, ¬ spent id) (d : Draws) (options : LoadOptions) :
    Distinct (fun id => spent id ∨ id ∈ ids batch) (Edit.splice d items batch options).1 := by
  have hall : Distinct (fun id => spent id ∨ id ∈ ids batch) (batch ++ items) := by
    constructor
    · rw [ids_append, List.nodup_append]
      refine ⟨hbatch, h.nodup, ?_⟩
      rintro id hid _ hspent rfl
      exact hfresh id hid (h.spent id hspent)
    · intro id hid
      rw [ids_append, List.mem_append] at hid
      exact hid.elim .inr fun hspent => .inl (h.spent id hspent)
  refine hall.of_subperm ?_
  rw [ids_append]
  exact ids_splice_subperm d items batch options

/-- A list may be replaced by any other one. -/
theorem splice_replacing (hbatch : Distinct spent batch) (d : Draws) (items : List QueueItem) :
    Distinct spent (Edit.splice d items batch .replacing).1 := by
  refine hbatch.of_perm ?_
  simpa [LoadOptions.replacing] using ids_splice d items batch .replacing

end Distinct

/-! ## Stores -/

namespace Store

namespace Sound

variable {s : Store}

theorem mono (h : s.Sound spent) (hle : ∀ id, spent id → spent' id) : s.Sound spent' :=
  ⟨fun base text items hget hparse => (h.distinct base text items hget hparse).mono hle, h.few⟩

theorem set_items (h : s.Sound spent) {items : List QueueItem} (hitems : Distinct spent items)
    (base : String) : (s.set base itemsKey (encode items).toText).Sound spent := by
  constructor
  · intro other text items' hget hparse
    rw [get?_set] at hget
    split at hget
    · cases hget
      have hids := Hub.ids_of_parse? hparse
      exact hitems.of_perm (hids ▸ .refl _)
    · exact h.distinct other text items' hget hparse
  · intro other text q hget hparse
    rw [get?_set, if_neg (fun hkey => absurd hkey.2 (by decide))] at hget
    exact h.few other text q hget hparse

theorem set_state (h : s.Sound spent) {q : Queue} (hq : q.requested.length ≤ requestLimit)
    (base : String) : (s.set base stateKey (encode q).toText).Sound spent := by
  constructor
  · intro other text items hget hparse
    rw [get?_set, if_neg (fun hkey => absurd hkey.2 (by decide))] at hget
    exact h.distinct other text items hget hparse
  · intro other text q' hget hparse
    rw [get?_set] at hget
    split at hget
    · cases hget
      rw [Hub.length_requested_of_parse? hparse]
      exact hq
    · exact h.few other text q' hget hparse

theorem delete (h : s.Sound spent) (base : String) : (s.delete base).Sound spent := by
  constructor
  · intro other text items hget hparse
    rw [get?_delete] at hget
    split at hget
    · cases hget
    · exact h.distinct other text items hget hparse
  · intro other text q hget hparse
    rw [get?_delete] at hget
    split at hget
    · cases hget
    · exact h.few other text q hget hparse

/-- The snapshot of a sound entry may be written, in whole or in part. -/
theorem write (h : s.Sound spent) (o : Outside) {e : Entry} (he : e.Sound spent)
    (itemsChanged : Bool) :
    (Hub.writeSnapshot o s e.queue (if itemsChanged then some e.items else none)).Sound spent := by
  have hstate : ∀ {s : Store}, s.Sound spent →
      Sound spent (if o.faults.writing (queueBase e.queue.id) stateKey then s
        else s.set (queueBase e.queue.id) stateKey (encode e.queue).toText) := by
    intro s hs
    split
    · exact hs
    · exact hs.set_state he.few _
  unfold Hub.writeSnapshot
  cases itemsChanged with
  | false => exact hstate h
  | true =>
    simp only [if_true]
    split
    · exact h
    · exact hstate (h.set_items he.distinct _)

end Sound

end Store

/-! ## Hubs -/

theorem Entry.Sound.mono {e : Entry} (h : e.Sound spent) (hle : ∀ id, spent id → spent' id) :
    e.Sound spent' :=
  ⟨h.counted, h.distinct.mono hle, h.few⟩

namespace Hub

variable {h : Hub} {queueId : String} (o : Outside)

namespace Sound

theorem mono (hs : h.Sound spent next) (hle : ∀ id, spent id → spent' id) : h.Sound spent' next :=
  ⟨fun queueId e he => (hs.entries queueId e he).mono hle, hs.store.mono hle,
    hs.next⟩

/-- Only the queues and the store count. -/
theorem congr {h' : Hub} (hs : h.Sound spent next) (hqueues : h'.queues = h.queues)
    (hstore : h'.store = h.store) (hnext : h'.nextItem = h.nextItem) : h'.Sound spent next := by
  refine ⟨fun queueId e he => hs.entries queueId e ?_, hstore ▸ hs.store, hnext.trans hs.next⟩
  rw [← he]
  unfold entry?
  rw [hqueues]

theorem putEntry (hs : h.Sound spent next) {e : Entry} (he : e.Sound spent) :
    (h.putEntry queueId e).Sound spent next := by
  refine ⟨fun other e' he' => ?_, hs.store, hs.next⟩
  rw [entry?_putEntry] at he'
  split at he'
  · cases he'
    exact he
  · exact hs.entries other e' he'

theorem modifyEntry (hs : h.Sound spent next) {f : Entry → Entry}
    (hf : ∀ e, h.entry? queueId = some e → e.Sound spent → (f e).Sound spent) :
    (h.modifyEntry queueId f).Sound spent next := by
  unfold Hub.modifyEntry
  cases he : h.entry? queueId with
  | none => exact hs
  | some e => exact hs.putEntry (hf e he (hs.entries queueId e he))

/-- A queue may be changed as long as it counts as many items and remembers few enough requests. -/
theorem modifyQueue (hs : h.Sound spent next) {f : Queue → Queue}
    (hf : ∀ e, h.entry? queueId = some e → e.Sound spent →
      (f e.queue).itemCount = e.items.length ∧ (f e.queue).requested.length ≤ requestLimit) :
    (h.modifyQueue queueId f).Sound spent next :=
  hs.modifyEntry fun e he hsound =>
    have hqueue := hf e he hsound
    ⟨hqueue.1, hsound.distinct, hqueue.2⟩

theorem putItems (hs : h.Sound spent next) {q : Queue} {items : List QueueItem}
    (hq : q.requested.length ≤ requestLimit) (hitems : Distinct spent items) :
    (h.putItems queueId q items).Sound spent next :=
  hs.modifyEntry fun _ _ _ => ⟨rfl, hitems, hq⟩

theorem persist (hs : h.Sound spent next) (itemsChanged : Bool) :
    (h.persist o queueId itemsChanged).Sound spent next := by
  unfold Hub.persist
  cases he : h.entry? queueId with
  | none => exact hs
  | some e =>
    exact ⟨hs.entries, hs.store.write o (hs.entries queueId e he) itemsChanged, hs.next⟩

theorem signal (hs : h.Sound spent next) (itemsChanged : Bool) :
    (h.signal o queueId itemsChanged).Sound spent next := by
  unfold Hub.signal
  cases h.queue? queueId with
  | none => exact hs
  | some q =>
    refine Sound.persist o (Sound.congr (h := h) hs ?_ ?_ ?_) itemsChanged
    all_goals cases itemsChanged <;> rfl

theorem commit (hs : h.Sound spent next) {q : Queue} {items : List QueueItem}
    (hq : q.requested.length ≤ requestLimit) (hitems : Distinct spent items) :
    (h.commit o queueId q items).Sound spent next := by
  have hput : Sound spent next (h.putItems queueId { q with enqueuedNext := none } items) :=
    hs.putItems hq hitems
  exact hput.signal o true

/-! ## Edits of a queue -/

theorem edit (hs : h.Sound spent next)
    {f : Queue → List QueueItem → Except Failure (Option (List QueueItem))}
    (hf : ∀ q items items', f q items = .ok (some items') → (ids items').Subperm (ids items)) :
    (h.edit o queueId f).2.Sound spent next := by
  unfold Hub.edit
  cases he : h.entry? queueId with
  | none => exact hs
  | some e =>
    have hsound := hs.entries queueId e he
    dsimp only
    rcases hedit : f e.queue e.items with failure | (_ | items)
    · exact hs.putItems hsound.few hsound.distinct
    · exact hs.putItems hsound.few hsound.distinct
    · exact hs.commit o hsound.few (hsound.distinct.of_subperm (hf _ _ _ hedit))

theorem load (hs : h.Sound spent next) {batch : List QueueItem} {options : LoadOptions}
    (hload : ∀ e, h.entry? queueId = some e →
      Distinct spent (Edit.splice h.draws e.items batch options).1) :
    (h.load o queueId batch options).2.Sound spent next := by
  unfold Hub.load
  cases he : h.entry? queueId with
  | none => exact hs
  | some e =>
    have hdrawn : Sound spent next
        { h with draws := (Edit.splice h.draws e.items batch options).2 } :=
      hs.congr rfl rfl rfl
    exact hdrawn.commit o (hs.entries queueId e he).few (hload e he)

theorem clear (hs : h.Sound spent next) : (h.clear o queueId).2.Sound spent next := by
  have hitems : (h.clearItems o queueId).2.Sound spent next := by
    unfold clearItems
    cases he : h.entry? queueId with
    | none => exact hs
    | some e =>
      have hput : Sound spent next (h.putItems queueId (cleared e.queue) []) :=
        hs.putItems (hs.entries queueId e he).few .nil
      exact hput.signal o true
  unfold Hub.clear
  rcases hclear : h.clearItems o queueId with ⟨failure | state, h'⟩
  · rw [hclear] at hitems
    exact hitems
  · rw [hclear] at hitems
    cases state with
    | idle => exact hitems
    | _ => exact Sound.congr hitems rfl rfl rfl

theorem startOver (hs : h.Sound spent next) : (h.startOver queueId).Sound spent next := by
  unfold Hub.startOver
  cases he : h.entry? queueId with
  | none => exact hs
  | some e =>
    dsimp only
    split
    · exact hs.putItems (hs.entries queueId e he).few .nil
    · exact hs

theorem setShuffle (hs : h.Sound spent next) (enabled : Bool) :
    (h.setShuffle o queueId enabled).2.Sound spent next := by
  unfold Hub.setShuffle
  cases he : h.entry? queueId with
  | none => exact hs
  | some e =>
    have hsound := hs.entries queueId e he
    dsimp only
    split
    · exact hs.putItems hsound.few hsound.distinct
    · have hdrawn : Sound spent next
          { h with draws := (Edit.reorder h.draws e.queue e.items enabled).2 } :=
        hs.congr rfl rfl rfl
      exact hdrawn.commit o hsound.few (hsound.distinct.of_perm (ids_reorder _ _ _ _))

theorem updateItem (hs : h.Sound spent next) (itemId : String) {f : QueueItem → QueueItem}
    (hf : ∀ i, (f i).id = i.id) : (h.updateItem queueId itemId f).2.Sound spent next := by
  unfold Hub.updateItem
  cases he : h.entry? queueId with
  | none => exact hs
  | some e =>
    have hsound := hs.entries queueId e he
    dsimp only
    split
    · next index item hindex hitem =>
      have hids : ids (e.items.set index (f item)) = ids e.items := by
        rw [← e.ids_updateItem itemId hf]
        simp only [Entry.updateItem, hindex, hitem]
        rfl
      exact hs.putItems hsound.few (hsound.distinct.of_perm (hids ▸ .refl _))
    · exact hs.putItems hsound.few hsound.distinct

theorem setRepeat (hs : h.Sound spent next) (mode : RepeatMode) :
    (h.setRepeat o queueId mode).2.Sound spent next := by
  unfold Hub.setRepeat
  cases h.queue? queueId with
  | none => exact hs
  | some q =>
    dsimp only
    split
    · exact hs
    · exact (hs.modifyQueue fun e _ he => ⟨he.counted, he.few⟩).signal o false

theorem adoptRequests (hs : h.Sound spent next) : (h.adoptRequests queueId).Sound spent next :=
  hs.modifyQueue fun _ _ he => ⟨he.counted, he.few⟩

theorem scheduleRadio (hs : h.Sound spent next) : (h.scheduleRadio o queueId).Sound spent next :=
  hs.congr rfl rfl rfl

theorem setDontStop (hs : h.Sound spent next) (enabled : Bool) :
    (h.setDontStop o queueId enabled).2.Sound spent next := by
  unfold Hub.setDontStop
  split
  · exact hs
  · cases h.queue? queueId with
    | none => exact hs
    | some q =>
      have hset : Sound spent next
          ((h.modifyQueue queueId fun q =>
            { q with dontStop := enabled }).signal o queueId false) :=
        (hs.modifyQueue fun e _ he => ⟨he.counted, he.few⟩).signal o false
      dsimp only
      split
      · exact hset.adoptRequests.scheduleRadio o
      · exact hset

theorem trackLoaded (hs : h.Sound spent next) (itemId : String) :
    (h.trackLoaded o queueId itemId).2.Sound spent next := by
  unfold Hub.trackLoaded
  cases h.entry? queueId with
  | none => exact hs
  | some e => exact (hs.modifyQueue fun e _ he => ⟨he.counted, he.few⟩).signal o false

theorem logFlow (hs : h.Sound spent next) (entry : FlowEntry Float) :
    (h.logFlow queueId entry).2.Sound spent next := by
  unfold Hub.logFlow
  cases h.queue? queueId with
  | none => exact hs
  | some q =>
    dsimp only
    refine hs.modifyQueue fun e _ he => ?_
    split <;> exact ⟨he.counted, he.few⟩

/-! ## Reports -/

theorem schedulePreload (hs : h.Sound spent next) (q : Queue) :
    (h.schedulePreload o q).Sound spent next := by
  unfold Hub.schedulePreload
  split
  · split
    · exact hs
    · exact Sound.congr (hs.modifyQueue fun e _ he => ⟨he.counted, he.few⟩) rfl rfl rfl
  · exact hs

theorem tellChange (hs : h.Sound spent next) (q : Queue) (change : Change) (new : Observation) :
    (h.tellChange o queueId q change new).Sound spent next := by
  have htold : Sound spent next (if change.onlyElapsed then h.publish (.timeUpdated q.id q.elapsed)
      else h.signal o queueId change.affectsItems) := by
    split
    · exact hs.congr rfl rfl rfl
    · exact hs.signal o _
  exact htold.modifyEntry fun e _ he => ⟨he.counted, he.distinct, he.few⟩

theorem recordLeft (hs : h.Sound spent next) (items : List QueueItem) (old new : Observation)
    (ended : Bool) : (h.recordLeft o queueId items old new ended).Sound spent next := by
  have hplayed : ∀ item stream elapsed,
      (h.recordPlayed o queueId item stream elapsed).Sound spent next := by
    intro item stream elapsed
    unfold recordPlayed
    dsimp only
    split
    · exact hs.congr rfl rfl rfl
    · split <;> exact hs.congr rfl rfl rfl
  unfold Hub.recordLeft
  split
  · exact hs
  · split
    · exact hs
    · split
      · exact hs
      · split
        · exact hs
        · exact hplayed _ _ _

theorem currentItemChanged (hs : h.Sound spent next) (q : Queue) :
    (h.currentItemChanged o q).Sound spent next := by
  unfold Hub.currentItemChanged
  split
  · exact hs
  · have hadopts : ∀ (p : Prop) [Decidable p],
        Sound spent next (if p then h.adoptRequests q.id else h) := by
      intro p _
      split
      · exact hs.adoptRequests
      · exact hs
    dsimp only
    split
    · refine Sound.scheduleRadio o ?_
      exact hadopts _
    · exact hadopts _

theorem followReport (hs : h.Sound spent next) (items : List QueueItem) (old : Observation)
    (q : Queue) : (h.followReport o queueId items old q).Sound spent next := by
  have hpreload : Sound spent next (if old.LetsPreload q then h.schedulePreload o q else h) := by
    split
    · exact hs.schedulePreload o q
    · exact hs
  have hended : ∀ {h : Hub} (ended : Bool), h.Sound spent next →
      Sound spent next (if ended then h.scheduleClearCheck o queueId else h) := by
    intro h ended hs
    split
    · exact hs.congr rfl rfl rfl
    · exact hs
  unfold Hub.followReport
  dsimp only
  split
  · exact hpreload
  · have hleft : ∀ change new ended,
        Sound spent next (((if old.LetsPreload q then h.schedulePreload o q else h).tellChange o
          queueId q change new).recordLeft o queueId items old new ended) :=
      fun change new ended => (hpreload.tellChange o q change new).recordLeft o items old new ended
    split
    · exact (hended _ (hleft _ _ _)).currentItemChanged o q
    · exact hended _ (hleft _ _ _)

theorem onReport (hs : h.Sound spent next) (r : PlayerReport) :
    (h.onReport o r).Sound spent next := by
  cases he : h.entry? r.playerId with
  | none =>
    rw [onReport_unknown o he]
    exact hs
  | some e =>
    have hfew := (hs.entries r.playerId e he).few
    by_cases hannounce : r.announcementInProgress
    · rw [onReport_announcing o hannounce]
      exact hs
    · by_cases hheeds : Heeds r e
      · rw [onReport_heeded o he hannounce hheeds]
        refine Sound.followReport o (hs.modifyQueue fun e' he' _ => ?_) _ _ _
        cases he.symm.trans he'
        obtain ⟨_, _, _, _, heq, -⟩ :=
          afterReport_eq (described e.queue e.items r) e.items r o.clock
        unfold reportedQueue
        rw [heq]
        exact ⟨rfl, hfew⟩
      · rw [onReport_unheeded o he hannounce hheeds]
        refine hs.modifyQueue fun e' he' _ => ?_
        cases he.symm.trans he'
        exact ⟨rfl, hfew⟩

/-! ## Players that come and go -/

/-- What is restored of a player was stored by a sound entry. -/
theorem newEntry (hs : h.Sound spent next) (r : PlayerReport) : (h.newEntry o r).Sound spent := by
  unfold Hub.newEntry Hub.registered
  cases hrestored : h.restored? o r.playerId with
  | none => exact ⟨rfl, .nil, Nat.zero_le _⟩
  | some restored =>
    obtain ⟨q, items⟩ := restored
    obtain ⟨text, stored, htext, hstored, hitems, -, rfl⟩ :=
      (restored?_eq_some_iff o).1 hrestored
    refine ⟨rfl, ?_, ?_⟩
    · rcases storedItems?_eq_some_iff.1 hitems with ⟨-, ⟨-, rfl⟩ | ⟨list, hlist, hparse⟩⟩
      · exact .nil
      · exact hs.store.distinct _ list items hlist hparse
    · exact hs.store.few _ text stored (stored?_eq_some_iff.1 htext).2 hstored

theorem onRegister (hs : h.Sound spent next) (r : PlayerReport) :
    (h.onRegister o r).2.Sound spent next := by
  have hput : Sound spent next (h.putEntry r.playerId (h.newEntry o r)) :=
    hs.putEntry (hs.newEntry o r)
  exact Sound.congr (hput.onReport o r) rfl rfl rfl

theorem onRemove (hs : h.Sound spent next) (playerId : String) :
    (h.onRemove o playerId).Sound spent next := by
  refine ⟨fun queueId e he => ?_, ?_, hs.next⟩
  · change entry? ((Act.remove playerId).apply o h) queueId = some e at he
    rw [entry?_remove] at he
    split at he
    · cases he
    · exact hs.entries queueId e he
  · unfold Hub.onRemove deregister
    dsimp only
    split
    · exact hs.store
    · exact hs.store.delete _

end Sound

end Hub

/-! ## Acts -/

/-- Whether an act leaves lists without repetitions, remembers few enough requests and numbers no
new items. -/
def Act.Sound (spent : String → Prop) (h : Hub) : Act → Prop
  | load queueId batch options => ∀ e, h.entry? queueId = some e →
      Distinct spent (Edit.splice h.draws e.items batch options).1
  | modify _ (.takeOver source _) => source.requested.length ≤ requestLimit
  | count _ => False
  | _ => True

theorem QueueChange.sound_apply (change : QueueChange) {q : Queue}
    (hq : q.requested.length ≤ requestLimit)
    (hsource : ∀ source targetId, change = .takeOver source targetId →
      source.requested.length ≤ requestLimit) :
    (change.apply q).itemCount = q.itemCount ∧
      (change.apply q).requested.length ≤ requestLimit := by
  cases change with
  | settle prior =>
    simp only [apply, Queue.settle]
    split <;> exact ⟨rfl, hq⟩
  | arrive prior loaded =>
    simp only [apply, Queue.settle]
    split <;> exact ⟨rfl, hq⟩
  | keepPosition clock onlyActive =>
    simp only [apply]
    split <;> exact ⟨rfl, hq⟩
  | takeOver source targetId => exact ⟨rfl, hsource source targetId rfl⟩
  | remember media => exact ⟨rfl, q.length_requested_remember media⟩
  | forget => exact ⟨rfl, Nat.zero_le _⟩
  | _ => exact ⟨rfl, hq⟩

theorem Hub.Sound.apply {h : Hub} (hs : h.Sound spent next) (o : Outside) {a : Act}
    (ha : a.Sound spent h) : (a.apply o h).Sound spent next := by
  cases a with
  | modify queueId change =>
    refine hs.modifyQueue fun e _ he => ?_
    obtain ⟨hcount, hfew⟩ := change.sound_apply he.few fun source targetId heq => by
      subst heq
      exact ha
    exact ⟨hcount.trans he.counted, hfew⟩
  | updateItem queueId itemId change => exact hs.updateItem itemId change.id_apply
  | load queueId batch options => exact hs.load o ha
  | moveItem queueId itemId shift => exact hs.edit o fun _ _ _ hmove => (ids_move hmove).subperm
  | deleteItem queueId key => exact hs.edit o fun _ _ _ hdelete => (ids_delete hdelete).subperm
  | clear queueId => exact hs.clear o
  | startOver queueId => exact hs.startOver
  | setShuffle queueId enabled => exact hs.setShuffle o enabled
  | setRepeat queueId mode => exact hs.setRepeat o mode
  | setDontStop queueId enabled => exact hs.setDontStop o enabled
  | trackLoaded queueId itemId => exact hs.trackLoaded o itemId
  | logFlow queueId entry => exact hs.logFlow entry
  | signal queueId itemsChanged => exact hs.signal o itemsChanged
  | report r => exact hs.onReport o r
  | register r => exact hs.onRegister o r
  | remove playerId => exact hs.onRemove o playerId
  | count nextItem => exact ha.elim
  | _ => exact hs.congr rfl rfl rfl

end Jukebox
