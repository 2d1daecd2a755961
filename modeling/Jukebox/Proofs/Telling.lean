import Jukebox.Proofs.Recording

/-!
# What a report tells

What a report publishes and stores follows from the change that it makes to what can be seen of its
queue (`report_tells`). Nothing is told of a queue that looks as it did, the time alone is told and
not stored, and any other change is told of the queue as a whole, after its items if it points at
other ones, and stored. Then one item at most is told to be played. Every step of a report is
described by what it publishes and the store that it leaves (`Hub.Emits`), and these add up.
-/

namespace Jukebox

/-! ## Differences -/

namespace Observation

/-- Whether two observations point at the same items. -/
def SameItems (old new : Observation) : Prop :=
  old.currentItemId = new.currentItemId ∧ old.nextItemId = new.nextItemId

instance (old new : Observation) : Decidable (old.SameItems new) :=
  inferInstanceAs (Decidable (_ ∧ _))

/-- Whether two observations are the same but for the time. -/
def SameButTime (old new : Observation) : Prop := { old with elapsed := new.elapsed } = new

instance (old new : Observation) : Decidable (old.SameButTime new) :=
  inferInstanceAs (Decidable (_ = _))

variable (old new : Observation)

theorem sameButTime_self : old.SameButTime old := rfl

theorem onlyElapsed_changeTo :
    (old.changeTo new).onlyElapsed = true ↔ old ≠ new ∧ old.SameButTime new := by
  cases old; cases new
  simp only [changeTo, Change.onlyElapsed, SameButTime, decide_eq_true_eq, Change.mk.injEq,
    mk.injEq]
  grind

theorem affectsItems_changeTo :
    (old.changeTo new).affectsItems = true ↔ ¬ old.SameItems new := by
  simp only [changeTo, Change.affectsItems, SameItems, Bool.or_eq_true, decide_eq_true_eq]
  exact Decidable.not_and_iff_or_not.symm

end Observation

/-! ## The parts of a report -/

/-- The queue with its next item claimed, if a report lets it be preloaded. -/
def Queue.heeding (q : Queue) (o : Outside) (old : Observation) : Queue :=
  if old.LetsPreload q then q.claimed o.clock else q

theorem Queue.heeding_eq (q : Queue) (o : Outside) (old : Observation) :
    ∃ claim, q.heeding o old = { q with preloading := claim } := by
  unfold heeding
  split
  · exact q.claimed_eq o.clock
  · exact ⟨q.preloading, rfl⟩

namespace Hub

/-- The hub with the next item of a queue to be preloaded, if a report lets that be. -/
def preloaded (h : Hub) (o : Outside) (old : Observation) (q : Queue) : Hub :=
  if old.LetsPreload q then h.schedulePreload o q else h

/-- The hub with the jobs that a queue needs to be cleared at its end, or to go on. -/
def goOn (h : Hub) (o : Outside) (q : Queue) (ended changed : Bool) : Hub :=
  let h := if ended then h.scheduleClearCheck o q.id else h
  if changed then h.currentItemChanged o q else h

theorem followReport_eq (h : Hub) (o : Outside) (q : Queue) (items : List QueueItem)
    (old : Observation) :
    let new := Observation.ofQueue q
    let change := old.changeTo new
    h.followReport o q.id items old q =
      if old = new then h.preloaded o old q
      else
        (((h.preloaded o old q).tellChange o q.id q change new).recordLeft o q.id items old new
          (endReached old new q)).goOn o q (endReached old new q) change.currentItem := by
  intro new change
  by_cases hsame : old = new
  · rw [if_pos hsame]
    exact if_pos ((old.changeTo_isEmpty_iff new).2 hsame)
  · rw [if_neg hsame]
    exact if_neg fun hempty => hsame ((old.changeTo_isEmpty_iff new).1 hempty)

theorem entry?_preloaded {h : Hub} (o : Outside) {q : Queue} {e : Entry}
    (he : h.entry? q.id = some e) (hq : e.queue = q) (old : Observation) :
    entry? (h.preloaded o old q) q.id = some { e with queue := q.heeding o old } := by
  have hqueue : h.queue? q.id = some q := by rw [queue?_eq_map, he, ← hq]; rfl
  unfold preloaded Queue.heeding
  by_cases hlets : old.LetsPreload q
  · rw [if_pos hlets, if_pos hlets, touches_schedulePreload o hqueue, if_pos rfl, he]
    rfl
  · rw [if_neg hlets, if_neg hlets, he, ← hq]

end Hub

/-! ## What each step tells -/

namespace Hub

/-- Whether a hub published certain events since another one, and ends with a certain store. -/
structure Emits (h h' : Hub) (published : List Event) (store : Store) : Prop where
  events : h'.events = h.events ++ published
  store : h'.store = store

variable {h h' h'' : Hub} {queueId : String} {told : List Event} {store : Store} (o : Outside)

/-- Whether nothing is published and stored between two hubs. -/
def Silent (h h' : Hub) : Prop := h.Emits h' [] h.store

theorem silent_of_eq (hevents : h'.events = h.events) (hstore : h'.store = h.store) :
    h.Silent h' :=
  ⟨hevents.trans (List.append_nil _).symm, hstore⟩

theorem Silent.refl (h : Hub) : h.Silent h := silent_of_eq rfl rfl

theorem Emits.then_silent (hfirst : h.Emits h' told store) (hthen : h'.Silent h'') :
    h.Emits h'' told store := by
  refine ⟨?_, hthen.store.trans hfirst.store⟩
  rw [hthen.events, hfirst.events, List.append_nil]

theorem Silent.then_emits (hfirst : h.Silent h') (hthen : h'.Emits h'' told store) :
    h.Emits h'' told store := by
  refine ⟨?_, hthen.store⟩
  rw [hthen.events, hfirst.events, List.append_nil]

theorem Emits.trans {more : List Event} (hfirst : h.Emits h' told store)
    (hthen : h'.Emits h'' more h'.store) : h.Emits h'' (told ++ more) store := by
  refine ⟨?_, hthen.store.trans hfirst.store⟩
  rw [hthen.events, hfirst.events, List.append_assoc]

theorem silent_modifyEntry (f : Entry → Entry) : h.Silent (h.modifyEntry queueId f) := by
  unfold modifyEntry
  cases h.entry? queueId with
  | none => exact .refl h
  | some e => exact silent_of_eq rfl rfl

theorem silent_schedulePreload {q : Queue} (hq : h.queue? q.id = some q) :
    h.Silent (h.schedulePreload o q) := by
  rw [schedulePreload_eq o hq]
  cases q.claim? o.clock with
  | none => exact .refl h
  | some claim => exact (silent_modifyEntry _).then_silent (silent_of_eq rfl rfl)

theorem silent_preloaded {q : Queue} {e : Entry} (he : h.entry? q.id = some e)
    (hq : e.queue = q) (old : Observation) : h.Silent (h.preloaded o old q) := by
  have hqueue : h.queue? q.id = some q := by rw [queue?_eq_map, he, ← hq]; rfl
  unfold preloaded
  split
  · exact silent_schedulePreload o hqueue
  · exact .refl h

theorem silent_currentItemChanged {q : Queue} (hq : h.contains q.id) :
    h.Silent (h.currentItemChanged o q) := by
  rw [currentItemChanged_eq o hq]
  have hadopts : h.Silent (if q.Adopts then h.adoptRequests q.id else h) := by
    split
    · exact silent_modifyEntry _
    · exact .refl h
  dsimp only
  split
  · exact hadopts.then_silent (silent_of_eq rfl rfl)
  · exact hadopts

/-- A signal tells the queue as it is kept, after its items if these changed. -/
theorem emits_signal {e : Entry} (he : h.entry? queueId = some e) (itemsChanged : Bool) :
    h.Emits (h.signal o queueId itemsChanged)
      ((if itemsChanged then [.itemsUpdated e.queue.id e.queue.itemCount] else []) ++
        [.queueUpdated e.queue])
      (writeSnapshot o h.store e.queue (if itemsChanged then some e.items else none)) := by
  have hq : h.queue? queueId = some e.queue := by rw [queue?_eq_map, he]; rfl
  have hpersist : ∀ g : Hub, g.entry? queueId = some e → g.store = h.store →
      (g.persist o queueId itemsChanged).events = g.events ∧
        (g.persist o queueId itemsChanged).store =
          writeSnapshot o h.store e.queue (if itemsChanged then some e.items else none) := by
    intro g hg hstore
    simp only [persist, hg, hstore, and_self]
  unfold signal
  rw [hq]
  cases itemsChanged with
  | true =>
    obtain ⟨hevents, hstore⟩ :=
      hpersist ((h.publish (.itemsUpdated e.queue.id e.queue.itemCount)).publish
        (.queueUpdated e.queue)) he rfl
    exact ⟨hevents.trans (List.append_assoc _ _ _), hstore⟩
  | false =>
    obtain ⟨hevents, hstore⟩ := hpersist (h.publish (.queueUpdated e.queue)) he rfl
    exact ⟨hevents, hstore⟩

/-! ## What is played -/

/-- Whether events tell at most that one item of a queue was played, and which one. -/
def TellsPlayed (queueId : String) (itemId : Option String) (played : List Event) : Prop :=
  played.length ≤ 1 ∧ ∀ event ∈ played, ∃ p : Played,
    event = .mediaPlayed p ∧ p.queueId = queueId ∧ some p.itemId = itemId

theorem tellsPlayed_nil (queueId : String) (itemId : Option String) :
    TellsPlayed queueId itemId [] :=
  ⟨Nat.zero_le 1, fun _ h => nomatch h⟩

theorem emits_recordPlayed (item : QueueItem) (stream : StreamDetails) (elapsed : Int) :
    ∃ played, TellsPlayed queueId (some item.id) played ∧
      h.Emits (h.recordPlayed o queueId item stream elapsed) played h.store := by
  unfold recordPlayed
  cases item.media with
  | none => exact ⟨[], tellsPlayed_nil _ _, silent_of_eq rfl rfl⟩
  | some media =>
    dsimp only
    split
    · exact ⟨[], tellsPlayed_nil _ _, silent_of_eq rfl rfl⟩
    · refine ⟨[_], ⟨Nat.le_refl 1, fun event hevent => ?_⟩, rfl, rfl⟩
      exact ⟨_, List.mem_singleton.1 hevent, rfl, rfl⟩

theorem emits_recordLeft (items : List QueueItem) (old new : Observation) (ended : Bool) :
    ∃ played, TellsPlayed queueId old.currentItemId played ∧
      h.Emits (h.recordLeft o queueId items old new ended) played h.store := by
  rw [recordLeft_eq]
  cases hleft : left? items old new ended with
  | none => exact ⟨[], tellsPlayed_nil _ _, Silent.refl h⟩
  | some found =>
    obtain ⟨item, stream⟩ := found
    rw [(of_left? hleft).1]
    exact emits_recordPlayed o item stream old.elapsed

/-- Nothing is played while the time goes on and nothing else happens. -/
theorem recordLeft_of_sameButTime {old new : Observation} (hsame : old.SameButTime new)
    (items : List QueueItem) (q : Queue) :
    h.recordLeft o queueId items old new (endReached old new q) = h := by
  have heq : { old with elapsed := new.elapsed } = new := hsame
  have hstate : old.state = new.state := (congrArg Observation.state heq :)
  have hended : endReached old new q = false := by
    rw [endReached, hstate]
    exact endReached_self new q
  have hleft : left? items old new false = none := by
    unfold left?
    rw [← heq]
    exact left?_self items old
  rw [recordLeft_eq, hended, hleft]

/-! ## Whole reports -/

/-- What the change from an observation to a newer one tells of a queue: nothing, the time, or the
queue, after its items if it points at other ones. -/
def changeEvents (old new : Observation) (q : Queue) : List Event :=
  if old = new then []
  else if old.SameButTime new then [.timeUpdated q.id q.elapsed]
  else (if old.SameItems new then [] else [.itemsUpdated q.id q.itemCount]) ++ [.queueUpdated q]

/-- The store after the change from an observation to a newer one. -/
def changeStore (o : Outside) (store : Store) (old new : Observation) (e : Entry) : Store :=
  if old.SameButTime new then store
  else writeSnapshot o store e.queue (if old.SameItems new then none else some e.items)

theorem emits_tellChange {old new : Observation} {e : Entry}
    (he : h.entry? queueId = some e) {q : Queue} (hid : q.id = e.queue.id)
    (helapsed : q.elapsed = e.queue.elapsed) (hdiffer : old ≠ new) :
    h.Emits (h.tellChange o queueId q (old.changeTo new) new) (changeEvents old new e.queue)
      (changeStore o h.store old new e) := by
  unfold tellChange changeEvents changeStore
  dsimp only
  rw [if_neg hdiffer]
  by_cases hsame : old.SameButTime new
  · rw [if_pos hsame, if_pos hsame, if_pos ((old.onlyElapsed_changeTo new).2 ⟨hdiffer, hsame⟩), hid,
      helapsed]
    have htime : h.Emits (h.publish (.timeUpdated e.queue.id e.queue.elapsed))
        [.timeUpdated e.queue.id e.queue.elapsed] h.store := ⟨rfl, rfl⟩
    exact htime.then_silent (silent_modifyEntry _)
  · have honly : ¬ (old.changeTo new).onlyElapsed = true :=
      fun h => hsame ((old.onlyElapsed_changeTo new).1 h).2
    rw [if_neg hsame, if_neg hsame, if_neg honly]
    refine Emits.then_silent ?_ (silent_modifyEntry _)
    by_cases hitems : old.SameItems new
    · have haffects : (old.changeTo new).affectsItems = false :=
        eq_false_of_ne_true fun h => (old.affectsItems_changeTo new).1 h hitems
      rw [if_pos hitems, if_pos hitems, haffects]
      exact emits_signal o he false
    · rw [if_neg hitems, if_neg hitems, (old.affectsItems_changeTo new).2 hitems]
      exact emits_signal o he true

/-- Nothing is told of the jobs that are to clear a queue or to add to it. -/
theorem silent_goOn {q : Queue} (hq : h.contains q.id) (ended changed : Bool) :
    h.Silent (h.goOn o q ended changed) := by
  have hended : h.Silent (if ended then h.scheduleClearCheck o q.id else h) ∧
      contains (if ended then h.scheduleClearCheck o q.id else h) q.id := by
    cases ended with
    | true => exact ⟨silent_of_eq rfl rfl, hq⟩
    | false => exact ⟨.refl h, hq⟩
  cases changed with
  | true => exact hended.1.then_silent (silent_currentItemChanged o hended.2)
  | false => exact hended.1

/-- What follows from a report is told of the queue first, and then of the item that was left. -/
theorem emits_followReport {q : Queue} {e : Entry} (he : h.entry? q.id = some e)
    (hq : e.queue = q) (old : Observation) :
    let new := Observation.ofQueue q
    let told := { e with queue := q.heeding o old }
    ∃ played, TellsPlayed q.id old.currentItemId played ∧
      (old.SameButTime new → played = []) ∧
      h.Emits (h.followReport o q.id e.items old q) (changeEvents old new told.queue ++ played)
        (changeStore o h.store old new told) := by
  intro new told
  have hsilent := silent_preloaded o he hq old
  have hentry := entry?_preloaded o he hq old
  rw [followReport_eq]
  by_cases hsame : old = new
  · refine ⟨[], tellsPlayed_nil _ _, fun _ => rfl, ?_⟩
    rw [if_pos hsame, changeEvents, changeStore, if_pos hsame,
      if_pos (hsame ▸ old.sameButTime_self)]
    exact hsilent
  · rw [if_neg hsame]
    obtain ⟨claim, hclaim⟩ := q.heeding_eq o old
    have htold := emits_tellChange o hentry (q := q) (by rw [hclaim]) (by rw [hclaim]) hsame
    rw [hsilent.store] at htold
    have hknown : contains ((h.preloaded o old q).tellChange o q.id q (old.changeTo new) new)
        q.id := by
      rw [(touches_tellChange o q _ new).contains_eq, contains, hentry]
      rfl
    by_cases htime : old.SameButTime new
    · refine ⟨[], tellsPlayed_nil _ _, fun _ => rfl, ?_⟩
      rw [recordLeft_of_sameButTime o htime, List.append_nil]
      exact (hsilent.then_emits htold).then_silent (silent_goOn o hknown _ _)
    · obtain ⟨played, hplayed, hemits⟩ :=
        @emits_recordLeft ((h.preloaded o old q).tellChange o q.id q (old.changeTo new) new) q.id o
          e.items old new (endReached old new q)
      refine ⟨played, hplayed, fun h => absurd h htime, ?_⟩
      refine ((hsilent.then_emits htold).trans hemits).then_silent (silent_goOn o ?_ _ _)
      rw [(touches_recordLeft o e.items old new _).contains_eq]
      exact hknown

end Hub

namespace Entry

variable (e : Entry) (o : Outside) (old : Observation) (q : Queue)

/-- What follows from a report lets at most radio begin after the queue was told. -/
theorem queue_followed :
    { (e.followed o old q).queue with radioSource := q.radioSource } = q.heeding o old := by
  obtain ⟨claim, hclaim⟩ := q.heeding_eq o old
  have hqueue : (e.followed o old q).queue = q.heeding o old ∨
      (e.followed o old q).queue =
        { q.heeding o old with radioSource := (q.heeding o old).requested } := by
    unfold followed
    dsimp only
    split
    · exact .inl rfl
    · split
      · exact .inr rfl
      · exact .inl rfl
  rcases hqueue with hqueue | hqueue
  · rw [hqueue, hclaim]
  · rw [hqueue, hclaim]

/-- What an active queue is remembered by after a report is what can be seen of it. -/
theorem remembered_followed (hold : old = e.remembered.getD {}) (hactive : q.active = true) :
    (e.followed o old q).remembered.getD {} = Observation.ofQueue q := by
  unfold followed
  by_cases hsame : old = Observation.ofQueue q
  · have hempty := (old.changeTo_isEmpty_iff (Observation.ofQueue q)).2 hsame
    simp only [hempty, if_true]
    rw [← hold, hsame]
  · have hempty : ¬ (old.changeTo (Observation.ofQueue q)).isEmpty = true :=
      fun h => hsame ((old.changeTo_isEmpty_iff _).1 h)
    simp only [if_neg hempty, hactive, if_true]
    split <;> rfl

end Entry

namespace Hub

variable {h : Hub} (o : Outside) {r : PlayerReport} {e : Entry}

/-- A report leaves what a queue plays from, and describes and counts it. -/
theorem described_reportedQueue (r : PlayerReport) (e : Entry) :
    (reportedQueue o r e).active = (described e.queue e.items r).active ∧
      (reportedQueue o r e).itemCount = e.items.length ∧
      (reportedQueue o r e).radioSource = e.queue.radioSource := by
  obtain ⟨state, index, elapsed, updated, heq, -⟩ :=
    afterReport_eq (described e.queue e.items r) e.items r o.clock
  unfold reportedQueue
  rw [heq]
  exact ⟨rfl, rfl, rfl⟩

/-- A report is told as the change that it makes to what was remembered. -/
theorem emits_onReport (he : h.entry? r.playerId = some e) (hid : e.queue.id = r.playerId)
    (hannounce : ¬ r.announcementInProgress) (hheeds : Heeds r e) :
    let old := e.remembered.getD {}
    let q := reportedQueue o r e
    let told := { e with queue := q.heeding o old }
    ∃ played, TellsPlayed r.playerId old.currentItemId played ∧
      (old.SameButTime (Observation.ofQueue q) → played = []) ∧
      h.Emits (h.onReport o r) (changeEvents old (Observation.ofQueue q) told.queue ++ played)
        (changeStore o h.store old (Observation.ofQueue q) told) := by
  intro old q told
  obtain ⟨hq, -⟩ := queue?_reportedQueue o he hid
  have hmodified : entry? (h.modifyQueue r.playerId fun _ => q) q.id =
      some { e with queue := q } := by
    rw [hq, entry?_modifyQueue, if_pos rfl, he]
    rfl
  obtain ⟨played, hplayed, htime, hemits⟩ := emits_followReport o hmodified rfl old
  have hsilent : h.Silent (h.modifyQueue r.playerId fun _ => q) := silent_modifyEntry _
  rw [hq] at hplayed hemits
  rw [hsilent.store] at hemits
  refine ⟨played, hplayed, htime, ?_⟩
  rw [onReport_heeded o he hannounce hheeds]
  exact hsilent.then_emits hemits

/-- What is told of a queue after a report that it heeds is what it is then, but for the radio. -/
theorem told_reported (hid : e.queue.id = r.playerId) (hannounce : ¬ r.announcementInProgress)
    (hheeds : Heeds r e) :
    let q := reportedQueue o r e
    let told := { (e.reported o r).queue with radioSource := e.queue.radioSource }
    told = q.heeding o (e.remembered.getD {}) ∧
      Observation.ofQueue q = Observation.ofQueue (e.reported o r).queue ∧
      told.id = r.playerId ∧ told.itemCount = e.items.length ∧
      (e.remembered = none → told.active = true) ∧
      (told.active = true → (e.reported o r).remembered.getD {} = Observation.ofQueue q) := by
  intro q told
  obtain ⟨old, hold⟩ : ∃ old, e.remembered.getD {} = old := ⟨_, rfl⟩
  obtain ⟨hdescribed, hcount, hradio⟩ := described_reportedQueue o r e
  have hfollowed : e.reported o r = e.followed o old q := by
    rw [Entry.reported, if_neg hannounce, if_pos hheeds, hold]
  have htold : told = q.heeding o old := by
    rw [← e.queue_followed o old q, ← hfollowed]
    exact congrArg (fun radio => { (e.reported o r).queue with radioSource := radio }) hradio.symm
  obtain ⟨claim, hclaim⟩ := q.heeding_eq o old
  have hqueue : told = { q with preloading := claim } := htold.trans hclaim
  rw [hold]
  refine ⟨htold, ?_, ?_, ?_, fun hnone => ?_, fun hactive => ?_⟩
  · rw [hfollowed, Entry.observation_followed]
  · rw [hqueue]
    exact (reportedQueue_eq o r e).1.trans hid
  · rw [hqueue]
    exact hcount
  · have hfeeds : (described e.queue e.items r).active = true := by
      simpa [Heeds, hnone] using hheeds
    rw [hqueue]
    exact hdescribed.trans hfeeds
  · rw [hqueue] at hactive
    rw [hfollowed]
    exact e.remembered_followed o old q hold.symm hactive

/-- A report that is not heeded is told of nothing. -/
theorem silent_unheeded (he : h.entry? r.playerId = some e)
    (hannounce : ¬ r.announcementInProgress) (hheeds : ¬ Heeds r e) :
    (e.reported o r).queue.active = false ∧ e.remembered = none ∧
      (e.reported o r).queue.state = .idle ∧ h.Silent (h.onReport o r) := by
  have hinactive : (described e.queue e.items r).active = false ∧ e.remembered = none := by
    simpa [Heeds] using hheeds
  have hreported : e.reported o r =
      { e with queue := { described e.queue e.items r with state := .idle } } := by
    rw [Entry.reported, if_neg hannounce, if_neg hheeds]
  rw [hreported, onReport_unheeded o he hannounce hheeds]
  exact ⟨hinactive.1, hinactive.2, rfl, silent_modifyEntry _⟩

end Hub

/-- What a report tells of a queue that is there, unless an announcement is made: nothing of a queue
that feeds its player neither now nor before, or that looks as it did; the time, if nothing else
changed; and else the queue, after its items if it points at other ones, and at most one item that
was played. What an active queue is remembered by is what can be seen of it. -/
theorem report_tells {h : Hub} (o : Outside) {r : PlayerReport} {e : Entry}
    (he : h.entry? r.playerId = some e) (hid : e.queue.id = r.playerId)
    (hannounce : r.announcementInProgress = false) :
    ∃ after, Hub.entry? (h.onReport o r) r.playerId = some after ∧
      let old := e.remembered.getD {}
      let new := Observation.ofQueue after.queue
      let told := { after.queue with radioSource := e.queue.radioSource }
      (after.queue.active = false ∧ e.remembered = none →
        after.queue.state = .idle ∧ h.Emits (h.onReport o r) [] h.store) ∧
      (after.queue.active = true ∨ e.remembered.isSome →
        (old = new → h.Emits (h.onReport o r) [] h.store) ∧
        (old ≠ new → old.SameButTime new →
          h.Emits (h.onReport o r) [.timeUpdated r.playerId after.queue.elapsed] h.store) ∧
        (¬ old.SameButTime new → ∃ played, Hub.TellsPlayed r.playerId old.currentItemId played ∧
          h.Emits (h.onReport o r)
            ((if old.SameItems new then [] else [.itemsUpdated r.playerId e.items.length]) ++
              [.queueUpdated told] ++ played)
            (Hub.writeSnapshot o h.store told
              (if old.SameItems new then none else some e.items)))) ∧
      (after.queue.active = true → after.remembered.getD {} = new) := by
  have hafter : Hub.entry? (h.onReport o r) r.playerId = some (e.reported o r) := by
    rw [Hub.touches_onReport o r fun e' he' => ?_, if_pos rfl, he]
    · rfl
    · rw [he] at he'
      cases he'
      exact hid
  have hnot : ¬ r.announcementInProgress = true := by simp [hannounce]
  refine ⟨e.reported o r, hafter, ?_⟩
  intro old new told
  by_cases hheeds : Hub.Heeds r e
  · obtain ⟨htold, hnew, htoldid, hcount, hfeeds, hremembered⟩ :=
      Hub.told_reported o hid hnot hheeds
    obtain ⟨played, hplayed, htime, hemits⟩ := Hub.emits_onReport o he hid hnot hheeds
    rw [← htold, hnew] at hemits
    rw [hnew] at htime
    refine ⟨?_, fun _ => ⟨fun hsame => ?_, fun hdiffer hsame => ?_, fun hmore => ?_⟩,
      fun hactive => (hremembered hactive).trans hnew⟩
    · rintro ⟨hinactive, hnone⟩
      exact Bool.noConfusion (hinactive.symm.trans (hfeeds hnone))
    · have hbut : old.SameButTime new := hsame ▸ old.sameButTime_self
      rw [htime hbut, Hub.changeEvents, Hub.changeStore, if_pos hsame, if_pos hbut] at hemits
      exact hemits
    · rw [htime hsame, Hub.changeEvents, Hub.changeStore, if_neg hdiffer, if_pos hsame,
        if_pos hsame, htoldid] at hemits
      exact hemits
    · have hdiffer : old ≠ new := fun hsame => hmore (hsame ▸ old.sameButTime_self)
      refine ⟨played, hplayed, ?_⟩
      rw [Hub.changeEvents, Hub.changeStore, if_neg hdiffer, if_neg hmore, if_neg hmore, htoldid,
        hcount] at hemits
      exact hemits
  · obtain ⟨hinactive, hnone, hidle, hsilent⟩ := Hub.silent_unheeded o he hnot hheeds
    refine ⟨fun _ => ⟨hidle, hsilent⟩, fun hfeeds => ?_, fun hactive => ?_⟩
    · rcases hfeeds with hactive | hsome
      · exact Bool.noConfusion (hinactive.symm.trans hactive)
      · simp [hnone] at hsome
    · exact Bool.noConfusion (hinactive.symm.trans hactive)

/-- The first report of a player that plays is told of the items and then of the queue, and nothing
was played before it. -/
theorem first_report_told :
    let h := (House.session.run (House.fill ["a", "b", "c"])).hub
    let r := House.playing "qi1" 1
    ∃ e q, h.entry? r.playerId = some e ∧ e.queue.id = r.playerId ∧
      r.announcementInProgress = false ∧
      (h.onReport House.world r).events =
        h.events ++ [.itemsUpdated "den" 3, .queueUpdated q] := by
  intro h r
  have hentry : (h.entry? r.playerId).any fun e =>
      decide (e.queue.id = r.playerId) && decide (e.items.length = 3) && e.remembered.isNone := by
    decide +kernel
  obtain ⟨e, he, hfacts⟩ := (Option.any_eq_true _ _).1 hentry
  simp only [Bool.and_eq_true, decide_eq_true_eq, Option.isNone_iff_eq_none] at hfacts
  obtain ⟨⟨hid, hlength⟩, hnone⟩ := hfacts
  obtain ⟨after, hafter, -, hheeded, -⟩ := report_tells House.world he hid rfl
  have hplays : ((h.onReport House.world r).queue? r.playerId).all fun q =>
      q.active && decide (¬ Observation.SameItems {} (Observation.ofQueue q)) := by
    decide +kernel
  rw [Hub.queue?_eq_map, hafter, Option.map_some, Option.all_some, Bool.and_eq_true,
    decide_eq_true_eq] at hplays
  rw [hnone, Option.getD_none, hlength] at hheeded
  obtain ⟨played, hplayed, hemits⟩ := (hheeded (.inl hplays.1)).2.2 fun htime => hplays.2
    ⟨(congrArg Observation.currentItemId htime :), (congrArg Observation.nextItemId htime :)⟩
  have hnothing : played = [] := by
    refine List.eq_nil_iff_forall_not_mem.2 fun event hevent => ?_
    obtain ⟨p, -, -, hitem⟩ := hplayed.2 event hevent
    cases hitem
  have hevents := hemits.events
  rw [hnothing, if_neg hplays.2] at hevents
  exact ⟨e, _, he, hid, rfl, hevents⟩

end Jukebox
