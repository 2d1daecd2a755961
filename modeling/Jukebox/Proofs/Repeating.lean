import Jukebox.Proofs.PreloadDue
import Jukebox.Proofs.Telling

/-!
# A report that is made again

A report that leaves its queue active changes nothing when it is made again at the same time
(`report_again`). The queue it makes of an entry is a fixed point: the position is taken from the
report and not from the one before, or stays where the first report put it (`afterReport_again`).
So what is seen is what is remembered, nothing is told, and no item is claimed that was not claimed
at first.
-/

namespace Jukebox

/-! ## Entries put twice -/

namespace Table

variable {α : Type}

theorem insertSorted_insertSorted (name : String) (value value' : α)
    (entries : List (String × α)) :
    insertSorted name value (insertSorted name value' entries) =
      insertSorted name value entries := by
  induction entries with
  | nil => simp [insertSorted]
  | cons e more ih =>
    by_cases hsame : e.1 = name
    · simp [insertSorted, hsame]
    · by_cases hbefore : name < e.1
      · simp [insertSorted, hsame, hbefore]
      · simp [insertSorted, hsame, hbefore, ih]

@[simp] theorem insert_insert (t : Table α) (name : String) (value value' : α) :
    (t.insert name value').insert name value = t.insert name value :=
  congrArg mk (insertSorted_insertSorted name value value' t.entries)

end Table

namespace Hub

/-- Whether the entry of a queue was put into the table of a hub after another one, if any was. -/
def Puts (queueId : String) (h h' : Hub) : Prop :=
  h'.queues = h.queues ∨ ∃ e, h'.queues = h.queues.insert queueId e

variable {h h' h'' : Hub} {queueId : String} (o : Outside)

theorem Puts.trans (hfirst : Puts queueId h h') (hthen : Puts queueId h' h'') :
    Puts queueId h h'' := by
  rcases hfirst with hsame | ⟨e, hput⟩ <;> rcases hthen with hsame' | ⟨e', hput'⟩
  · exact .inl (hsame'.trans hsame)
  · exact .inr ⟨e', by rw [hput', hsame]⟩
  · exact .inr ⟨e, hsame'.trans hput⟩
  · exact .inr ⟨e', by rw [hput', hput, Table.insert_insert]⟩

theorem puts_modifyEntry (f : Entry → Entry) : Puts queueId h (h.modifyEntry queueId f) := by
  unfold modifyEntry
  cases h.entry? queueId with
  | none => exact .inl rfl
  | some e => exact .inr ⟨f e, rfl⟩

theorem queues_persist (itemsChanged : Bool) :
    (h.persist o queueId itemsChanged).queues = h.queues := by
  unfold persist
  cases h.entry? queueId <;> rfl

theorem queues_signal (itemsChanged : Bool) :
    (h.signal o queueId itemsChanged).queues = h.queues := by
  unfold signal
  cases h.queue? queueId with
  | none => rfl
  | some q => cases itemsChanged <;> exact queues_persist o _

theorem puts_tellChange (q : Queue) (change : Change) (new : Observation) :
    Puts queueId h (h.tellChange o queueId q change new) := by
  unfold tellChange
  dsimp only
  split
  · have hpublish : Puts queueId h (h.publish (.timeUpdated q.id q.elapsed)) := .inl rfl
    exact hpublish.trans (puts_modifyEntry _)
  · exact Puts.trans (.inl (queues_signal o _)) (puts_modifyEntry _)

theorem puts_preloaded (old : Observation) (q : Queue) : Puts q.id h (h.preloaded o old q) := by
  unfold preloaded schedulePreload
  split
  · split
    · split
      · exact .inl rfl
      · exact Puts.trans (puts_modifyEntry _) (.inl rfl)
    · exact .inl rfl
  · exact .inl rfl

theorem queues_recordPlayed (item : QueueItem) (stream : StreamDetails) (elapsed : Int) :
    (h.recordPlayed o queueId item stream elapsed).queues = h.queues := by
  unfold recordPlayed
  cases item.media with
  | none => rfl
  | some media =>
    dsimp only
    split <;> rfl

theorem queues_recordLeft (items : List QueueItem) (old new : Observation) (ended : Bool) :
    (h.recordLeft o queueId items old new ended).queues = h.queues := by
  rw [recordLeft_eq]
  cases left? items old new ended with
  | none => rfl
  | some found => exact queues_recordPlayed o found.1 found.2 old.elapsed

theorem puts_currentItemChanged (q : Queue) : Puts q.id h (h.currentItemChanged o q) := by
  unfold currentItemChanged
  cases q.remaining? with
  | none => exact .inl rfl
  | some remaining =>
    dsimp only
    have hadopts : ∀ (p : Prop) [Decidable p],
        Puts q.id h (if p then h.adoptRequests q.id else h) := by
      intro p _
      split
      · exact puts_modifyEntry _
      · exact .inl rfl
    split
    · exact (hadopts _).trans (.inl rfl)
    · exact hadopts _

theorem puts_goOn (q : Queue) (ended changed : Bool) : Puts q.id h (h.goOn o q ended changed) := by
  have hended : Puts q.id h (if ended then h.scheduleClearCheck o q.id else h) := by
    cases ended <;> exact .inl rfl
  cases changed with
  | false => exact hended
  | true => exact hended.trans (puts_currentItemChanged o q)

theorem puts_followReport (q : Queue) (items : List QueueItem) (old : Observation) :
    Puts q.id h (h.followReport o q.id items old q) := by
  have hpreload : Puts q.id h (h.preloaded o old q) := puts_preloaded o old q
  rw [followReport_eq]
  split
  · exact hpreload
  · exact ((hpreload.trans (puts_tellChange o q _ _)).trans
      (.inl (queues_recordLeft o items old _ _))).trans (puts_goOn o q _ _)

end Hub

/-! ## The queue that a report makes -/

namespace Flow

/-- A time in the stream stands for the same position wherever that begins to be looked for, if this
is where it was found. -/
theorem streamPosition_again {τ : Type} [Add τ] [Sub τ] [LT τ] [DecidableLT τ]
    (seconds : Nat → τ) (current : Option Nat) (log : List (FlowEntry τ)) (items : List QueueItem)
    (total : τ) :
    streamPosition seconds (streamPosition seconds current log items total).index log items total =
      streamPosition seconds current log items total := by
  unfold streamPosition position
  cases current with
  | none => rfl
  | some current =>
    dsimp only
    cases locate total (seconds 0) (log.map (span seconds items)) with
    | none => rfl
    | some found =>
      cases hindex : found.1.index with
      | none => simp [hindex]
      | some index => simp [hindex]

end Flow

namespace Hub

theorem atReportedPosition_again (q : Queue) (items : List QueueItem) (r : PlayerReport)
    (clock : Float) {q' : Queue} (hflow : q'.flowMode = q.flowMode) (hlog : q'.flowLog = q.flowLog)
    (hindex : q'.currentIndex = (atReportedPosition q items r clock).currentIndex) :
    (atReportedPosition q' items r clock).currentIndex =
        (atReportedPosition q items r clock).currentIndex ∧
      (atReportedPosition q' items r clock).elapsed =
        (atReportedPosition q items r clock).elapsed := by
  unfold atReportedPosition at hindex ⊢
  rw [hflow]
  by_cases hmode : q.flowMode
  · simp only [if_pos hmode] at hindex ⊢
    rw [hlog, hindex, Flow.streamPosition_again]
    exact ⟨rfl, rfl⟩
  · simp only [if_neg hmode] at hindex ⊢
    cases hitem : reportedItem? r.playerId r items with
    | none => exact ⟨by simpa [hitem] using hindex, rfl⟩
    | some itemId => exact ⟨rfl, rfl⟩

section

variable {q q' : Queue} {items : List QueueItem} {r : PlayerReport} {clock : Float}
  (hflow : q'.flowMode = q.flowMode) (hlog : q'.flowLog = q.flowLog)
  (hindex : q'.currentIndex = reportedIndex q items r clock)

include hflow hlog hindex

theorem reportedIndex_again : reportedIndex q' items r clock = reportedIndex q items r clock := by
  unfold reportedIndex at hindex ⊢
  by_cases hplaying : r.state = some .playing
  · rw [if_pos hplaying] at hindex ⊢
    rw [if_pos hplaying]
    exact (atReportedPosition_again q items r clock hflow hlog hindex).1
  · rw [if_neg hplaying] at hindex ⊢
    rw [if_neg hplaying]
    exact hindex

theorem reportedElapsed_again {index : Option Nat}
    (helapsed : q'.elapsed = reportedElapsed q items r clock index) :
    reportedElapsed q' items r clock index = reportedElapsed q items r clock index := by
  unfold reportedElapsed reportedIndex at *
  by_cases hplaying : r.state = some .playing
  · rw [if_pos hplaying] at hindex
    simp only [if_pos hplaying, hflow,
      (atReportedPosition_again q items r clock hflow hlog hindex).2]
  · simp only [if_neg hplaying] at helapsed ⊢
    exact helapsed

end

/-- What a report makes of a queue it makes of it again, whatever is claimed and played on. -/
theorem afterReport_again (q : Queue) (items : List QueueItem) (r : PlayerReport) (clock : Float)
    (claim : Option String) (radioSource : List MediaItem) :
    let after := { afterReport q items r clock with preloading := claim, radioSource }
    afterReport after items r clock = after := by
  intro after
  have hfields := afterReport_fields q items r clock
  have hflow : after.flowMode = q.flowMode := by simp only [after, hfields]
  have hlog : after.flowLog = q.flowLog := by simp only [after, hfields]
  have hindex : after.currentIndex = reportedIndex q items r clock := by simp only [after, hfields]
  have helapsed : after.elapsed =
      reportedElapsed q items r clock (reportedIndex q items r clock) := by
    simp only [after, hfields]
  rw [afterReport_fields, reportedIndex_again hflow hlog hindex,
    reportedElapsed_again hflow hlog hindex helapsed]
  simp only [after, hfields]
  split <;> rfl

theorem described_again (q : Queue) (items : List QueueItem) (r : PlayerReport) (clock : Float)
    (claim : Option String) (radioSource : List MediaItem) :
    let after := { afterReport (described q items r) items r clock with
      preloading := claim, radioSource }
    described after items r = after := by
  intro after
  simp only [after, afterReport_fields]
  rfl

end Hub

/-! ## What follows from it again -/

namespace Queue

variable (q : Queue)

/-- A claimed item is not claimed again, and one that is not due stays so. -/
theorem claim?_claimed (clock : Float) (radioSource : List MediaItem) :
    claim? { q.claimed clock with radioSource } clock = none := by
  unfold claimed
  cases hclaim : q.claim? clock with
  | none => exact hclaim
  | some claim => rfl

/-- A queue that heeded a report claims nothing that its observation lets be preloaded. -/
theorem claim?_heeding (o : Outside) (old : Observation) (radioSource : List MediaItem) :
    let after := { q.heeding o old with radioSource }
    (Observation.ofQueue after).LetsPreload after → after.claim? o.clock = none := by
  rintro after ⟨hplaying, hother | hunmarked⟩
  · exact absurd rfl hother
  · have hlets : old.LetsPreload q := by
      obtain ⟨claim, hclaim⟩ := q.heeding_eq o old
      simp only [after, hclaim] at hplaying hunmarked
      exact ⟨hplaying, .inr hunmarked⟩
    simp only [after, heeding, if_pos hlets]
    exact q.claim?_claimed o.clock radioSource

end Queue

namespace Entry

variable (e : Entry) (o : Outside) (old : Observation) (q : Queue)

theorem queue_followed_eq : ∃ radioSource,
    (e.followed o old q).queue = { q.heeding o old with radioSource } := by
  refine ⟨(e.followed o old q).queue.radioSource, ?_⟩
  rw [← e.queue_followed o old q]

end Entry

namespace Hub

variable {h : Hub} (o : Outside) {r : PlayerReport} {e : Entry}

theorem reportedQueue_again (old : Observation) :
    reportedQueue o r (e.followed o old (reportedQueue o r e)) =
      (e.followed o old (reportedQueue o r e)).queue := by
  obtain ⟨claim, radioSource, remembered, heq⟩ := e.followed_eq o old (reportedQueue o r e)
  rw [heq]
  unfold reportedQueue
  dsimp only
  rw [described_again, afterReport_again]

/-- An entry that is put into the table as it is there changes nothing. -/
theorem modifyQueue_self (hputs : ∃ e', h.queues.insert r.playerId e' = h.queues)
    (he : h.entry? r.playerId = some e) : (h.modifyQueue r.playerId fun _ => e.queue) = h := by
  obtain ⟨e', hput⟩ := hputs
  have hsame : e = e' := by
    rw [ entry?, ← hput, Table.get?_insert_self] at he
    exact (Option.some.inj he).symm
  unfold modifyQueue modifyEntry
  rw [he]
  dsimp only
  rw [putEntry, hsame, hput]

/-- After a report that was heeded the entry of its player was put into the table last. -/
theorem exists_insert_onReport (he : h.entry? r.playerId = some e)
    (hid : e.queue.id = r.playerId) (hannounce : ¬ r.announcementInProgress) (hheeds : Heeds r e) :
    ∃ e', (h.onReport o r).queues.insert r.playerId e' = (h.onReport o r).queues := by
  have hq := (queue?_reportedQueue o he hid).1
  have hfollows := puts_followReport o (h := h.modifyQueue r.playerId fun _ => reportedQueue o r e)
    (reportedQueue o r e) e.items (e.remembered.getD {})
  rw [hq, ← onReport_heeded o he hannounce hheeds, modifyQueue, modifyEntry, he] at hfollows
  rcases hfollows with hsame | ⟨e', hput⟩
  · exact ⟨_, by rw [hsame]; exact Table.insert_insert _ _ _ _⟩
  · exact ⟨e', by rw [hput, Table.insert_insert]⟩

/-- A report that was heeded and left its queue active changes nothing when it is made again. -/
theorem onReport_again (he : h.entry? r.playerId = some e) (hid : e.queue.id = r.playerId)
    (hannounce : ¬ r.announcementInProgress) (hheeds : Heeds r e)
    (hactive : (e.reported o r).queue.active = true) :
    (h.onReport o r).onReport o r = h.onReport o r := by
  obtain ⟨old, hold⟩ : ∃ old, e.remembered.getD {} = old := ⟨_, rfl⟩
  obtain ⟨after, hafter⟩ : ∃ after, e.reported o r = after := ⟨_, rfl⟩
  have hfollowed : after = e.followed o old (reportedQueue o r e) := by
    rw [← hafter, Entry.reported, if_neg hannounce, if_pos hheeds, hold]
  have hentry : entry? (h.onReport o r) r.playerId = some after := by
    rw [touches_onReport o r fun e' he' => ?_, if_pos rfl, he, ← hafter]
    · rfl
    · rw [he] at he'
      cases he'
      exact hid
  have hafterid : after.queue.id = r.playerId := by rw [← hafter, (e.reported_eq o r).1, hid]
  have hqueue : reportedQueue o r after = after.queue := by rw [hfollowed, reportedQueue_again]
  rw [hafter] at hactive
  have hseen : after.remembered.getD {} = Observation.ofQueue after.queue := by
    rw [hfollowed, Entry.observation_followed]
    refine e.remembered_followed o old _ hold.symm ?_
    obtain ⟨claim, radioSource, remembered, heq⟩ := e.followed_eq o old (reportedQueue o r e)
    rw [hfollowed, heq] at hactive
    exact hactive
  have hagain : Heeds r after := by
    left
    rw [← (described_reportedQueue o r after).1, hqueue]
    exact hactive
  have hputs := exists_insert_onReport o he hid hannounce hheeds
  have hkept : (h.onReport o r).queue? after.queue.id = some after.queue := by
    rw [queue?_eq_map, hafterid, hentry]
    rfl
  rw [onReport_heeded o hentry hannounce hagain, hqueue, hseen, modifyQueue_self hputs hentry,
    ← hafterid, followReport_eq, if_pos rfl, preloaded]
  split
  · next hlets =>
    obtain ⟨radioSource, heq⟩ := e.queue_followed_eq o old (reportedQueue o r e)
    have hclaim : after.queue.claim? o.clock = none := by
      rw [hfollowed, heq] at hlets ⊢
      exact (reportedQueue o r e).claim?_heeding o old radioSource hlets
    rw [schedulePreload_eq o hkept, hclaim]
  · rfl

end Hub

/-- A report that leaves its queue active changes nothing when it is made again at the same time:
neither the queue, its list, what is remembered and what is claimed, nor what was published, stored
and scheduled. -/
theorem report_again {h : Hub} (hreach : h.Reachable) (o : Outside) (r : PlayerReport)
    (hactive : ∀ q, (h.onReport o r).queue? r.playerId = some q → q.active = true) :
    (h.onReport o r).onReport o r = h.onReport o r := by
  cases he : h.entry? r.playerId with
  | none => rw [Hub.onReport_unknown o he, Hub.onReport_unknown o he]
  | some e =>
    by_cases hannounce : r.announcementInProgress
    · rw [Hub.onReport_announcing o hannounce, Hub.onReport_announcing o hannounce]
    have hid : e.queue.id = r.playerId := hreach.named r.playerId e he
    have hafter : (h.onReport o r).queue? r.playerId = some (e.reported o r).queue := by
      rw [Hub.queue?_eq_map, Hub.touches_onReport o r fun e' he' => hreach.named r.playerId e' he',
        if_pos rfl, he]
      rfl
    have hleft := hactive _ hafter
    by_cases hheeds : Hub.Heeds r e
    · exact Hub.onReport_again o he hid hannounce hheeds hleft
    · rw [Entry.reported, if_neg hannounce, if_neg hheeds] at hleft
      exact absurd (.inl hleft) hheeds

/-- The report that a player plays is made twice. -/
theorem first_report_again :
    let h := (House.session.run (House.fill ["a", "b", "c"])).hub
    let r := House.playing "qi1" 100
    h.Reachable ∧ (∀ q, (h.onReport House.world r).queue? r.playerId = some q → q.active = true) ∧
      (h.onReport House.world r).onReport House.world r = h.onReport House.world r := by
  intro h r
  have hreach : h.Reachable := ⟨_, _, _, _, _, rfl⟩
  have hactive : ((h.onReport House.world r).queue? r.playerId).all (·.active) := by
    decide +kernel
  have hall := fun q hq => (Option.all_eq_true _ _).1 hactive q hq
  exact ⟨hreach, hall, report_again hreach House.world r hall⟩

end Jukebox
