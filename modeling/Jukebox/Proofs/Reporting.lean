import Jukebox.Proofs.Effects

/-!
# What a report does to its entry

A report changes the entry of its player only: it describes the queue, claims the next item when
that is to be preloaded, remembers what was seen, and may let radio begin. The list of items stays.
-/

namespace Jukebox

/-! ## The entry after a report -/

/-- Whether a report lets the next item be preloaded, if that is due. -/
def Observation.LetsPreload (old : Observation) (q : Queue) : Prop :=
  q.state = .playing ∧
    ((Observation.ofQueue q).nextItemId ≠ old.nextItemId ∨ q.enqueuedNext.isNone)

instance (old : Observation) (q : Queue) : Decidable (old.LetsPreload q) :=
  inferInstanceAs (Decidable (_ ∧ _))

/-- The current item and the next one, when that is to be preloaded and none is claimed yet. -/
def Queue.claim? (q : Queue) (clock : Float) : Option (QueueItem × QueueItem) :=
  if q.preloading.isSome then none else Hub.preloadDue? q clock

/-- The queue with its next item claimed, if it is to be. -/
def Queue.claimed (q : Queue) (clock : Float) : Queue :=
  match q.claim? clock with
  | some (_, next) => { q with preloading := some next.id }
  | none => q

/-- Whether radio begins from the requests when another item becomes the current one. -/
def Queue.Adopts (q : Queue) : Prop :=
  q.dontStop ∧ !q.requested.isEmpty ∧ q.remaining?.any (· ≤ 1)

instance (q : Queue) : Decidable q.Adopts := inferInstanceAs (Decidable (_ ∧ _))

/-- Whether radio tracks are added when another item becomes the current one. -/
def Queue.Refills (q : Queue) : Prop :=
  (!q.radioSource.isEmpty ∨ q.Adopts) ∧ q.remaining?.any (· < Hub.refillBelow)

instance (q : Queue) : Decidable q.Refills := inferInstanceAs (Decidable (_ ∧ _))

namespace Hub

/-- What the queue is after a report, before anything follows from that. -/
def reportedQueue (o : Outside) (r : PlayerReport) (e : Entry) : Queue :=
  afterReport (described e.queue e.items r) e.items r o.clock

/-- Whether a report concerns a queue that feeds its player, or did until now. -/
def Heeds (r : PlayerReport) (e : Entry) : Prop :=
  (described e.queue e.items r).active ∨ e.remembered.isSome

instance (r : PlayerReport) (e : Entry) : Decidable (Heeds r e) :=
  inferInstanceAs (Decidable (_ ∨ _))

end Hub

namespace Entry

/-- The entry with all that follows from a report, given the queue after it. -/
def followed (e : Entry) (o : Outside) (old : Observation) (q : Queue) : Entry :=
  let new := Observation.ofQueue q
  let e := { e with queue := if old.LetsPreload q then q.claimed o.clock else q }
  if (old.changeTo new).isEmpty then e
  else
    let e := { e with remembered := if q.active then some new else none }
    if (old.changeTo new).currentItem ∧ q.Adopts then
      { e with queue := { e.queue with radioSource := e.queue.requested } }
    else e

def reported (e : Entry) (o : Outside) (r : PlayerReport) : Entry :=
  if r.announcementInProgress then e
  else if Hub.Heeds r e then e.followed o (e.remembered.getD {}) (Hub.reportedQueue o r e)
  else { e with queue := { Hub.described e.queue e.items r with state := .idle } }

end Entry

/-! ## Each step of a report -/

namespace Hub

variable {h h' : Hub} {queueId : String} {f : Entry → Entry} (o : Outside)

theorem Touches.contains_eq (hf : Touches queueId f h h') (other : String) :
    h'.contains other = h.contains other := by
  unfold contains
  rw [hf other]
  by_cases ho : other = queueId <;> simp [ho]

theorem Touches.id_trans {h'' : Hub} (hf : Touches queueId f h h')
    (heq : ∀ other, h''.entry? other = h'.entry? other) : Touches queueId f h h'' :=
  hf.trans (touches_of_eq heq)

/-- The next item of a queue that is there is claimed, and a job is to hand it over. -/
theorem schedulePreload_eq {q : Queue} (hq : h.queue? q.id = some q) :
    h.schedulePreload o q =
      match q.claim? o.clock with
      | some (current, next) =>
        (h.modifyQueue q.id fun q => { q with preloading := some next.id }).later o
          (Job.preloadKey q.id) 0 (.preload q.id current.id)
      | none => h := by
  unfold schedulePreload Queue.claim?
  rw [hq]
  cases hdue : preloadDue? q o.clock with
  | none => simp
  | some due => by_cases hbusy : q.preloading.isSome <;> simp [hbusy]

theorem touches_schedulePreload {q : Queue} (hq : h.queue? q.id = some q) :
    Touches q.id (fun e => { e with queue := q.claimed o.clock }) h (h.schedulePreload o q) := by
  obtain ⟨e, he, heq⟩ := Option.map_eq_some_iff.1 hq
  rw [schedulePreload_eq o hq]
  unfold Queue.claimed
  cases q.claim? o.clock with
  | none =>
    refine Touches.rfl.congr he ?_
    rw [← heq]
    rfl
  | some claim =>
    refine ((touches_modifyQueue fun q => { q with preloading := some claim.2.id }).id_trans
      fun other => ?_).congr he ?_
    · exact entry?_later _ o other _ _ _
    · rw [heq]

theorem touches_recordPlayed (item : QueueItem) (stream : StreamDetails) (elapsed : Int) :
    Touches queueId id h (h.recordPlayed o queueId item stream elapsed) := by
  refine touches_of_eq fun other => ?_
  unfold recordPlayed
  cases item.media with
  | none => rfl
  | some media =>
    dsimp only
    split <;> rfl

theorem touches_recordLeft (items : List QueueItem) (old new : Observation) (ended : Bool) :
    Touches queueId id h (h.recordLeft o queueId items old new ended) := by
  unfold recordLeft
  split
  · exact Touches.rfl
  · split
    · exact Touches.rfl
    · split
      · exact Touches.rfl
      · split
        · exact Touches.rfl
        · exact touches_recordPlayed o _ _ _

theorem touches_tellChange (q : Queue) (change : Change) (new : Observation) :
    Touches queueId (fun e => { e with remembered := if q.active then some new else none }) h
      (h.tellChange o queueId q change new) := by
  have htold : ∀ other, entry? (if change.onlyElapsed then h.publish (.timeUpdated q.id q.elapsed)
      else h.signal o queueId change.affectsItems) other = h.entry? other := by
    intro other
    split
    · rfl
    · exact h.entry?_signal o queueId other _
  have hremember := fun g : Hub => g.entry?_modifyEntry queueId
  exact Touches.of_entries (fun other => hremember _ other _) htold

/-- When another item became the current one, a queue that is there adopts its requests and is
refilled as it says. -/
theorem currentItemChanged_eq {q : Queue} (hq : h.contains q.id) :
    h.currentItemChanged o q =
      let h := if q.Adopts then h.adoptRequests q.id else h
      if q.Refills then h.scheduleRadio o q.id else h := by
  rcases Option.eq_none_or_eq_some q.remaining? with hremaining | ⟨remaining, hremaining⟩
  · simp [currentItemChanged, Queue.Adopts, Queue.Refills, hremaining]
  · simp [currentItemChanged, Queue.Adopts, Queue.Refills, hremaining, hq, and_comm]

theorem touches_currentItemChanged {q : Queue} (hq : h.contains q.id) :
    Touches q.id
      (fun e => if q.Adopts then
        { e with queue := { e.queue with radioSource := e.queue.requested } } else e) h
      (h.currentItemChanged o q) := by
  rw [currentItemChanged_eq o hq]
  have hadopt : Touches q.id
      (fun e => if q.Adopts then
        { e with queue := { e.queue with radioSource := e.queue.requested } } else e) h
      (if q.Adopts then h.adoptRequests q.id else h) := by
    by_cases ha : q.Adopts
    · simp only [if_pos ha]
      exact touches_modifyQueue fun q => { q with radioSource := q.requested }
    · simp only [if_neg ha]
      exact Touches.rfl
  by_cases hrefills : q.Refills
  · simp only [if_pos hrefills]
    exact hadopt.id_trans fun other => entry?_later _ o other _ _ _
  · simp only [if_neg hrefills]
    exact hadopt

theorem touches_followReport {q : Queue} (hq : h.queue? q.id = some q) (items : List QueueItem)
    (old : Observation) :
    Touches q.id (fun e => e.followed o old q) h (h.followReport o q.id items old q) := by
  obtain ⟨e, he, heq⟩ := Option.map_eq_some_iff.1 hq
  have hpreload : Touches q.id
      (fun e => { e with queue := if old.LetsPreload q then q.claimed o.clock else q }) h
      (if old.LetsPreload q then h.schedulePreload o q else h) := by
    by_cases hlets : old.LetsPreload q
    · simp only [if_pos hlets]
      exact touches_schedulePreload o hq
    · simp only [if_neg hlets]
      refine Touches.rfl.congr he ?_
      rw [← heq]
      rfl
  have hlast : ∀ {g : Hub} {f : Entry → Entry} (b : Bool), Touches q.id f h g →
      Touches q.id (fun e => if b = true ∧ q.Adopts then
          { f e with queue := { (f e).queue with radioSource := (f e).queue.requested } }
        else f e) h (if b then g.currentItemChanged o q else g) := by
    intro g f b hf
    have hg : g.contains q.id := by
      rw [hf.contains_eq, contains, he]
      rfl
    cases b with
    | false => simpa using hf
    | true => simpa [Function.comp_def] using hf.trans (touches_currentItemChanged o hg)
  have hended : ∀ {g : Hub} {f : Entry → Entry} (b : Bool), Touches q.id f h g →
      Touches q.id f h (if b then g.scheduleClearCheck o q.id else g) := by
    intro g f b hf
    cases b with
    | false => exact hf
    | true => exact hf.id_trans fun other => entry?_later _ o other _ _ _
  unfold Entry.followed
  by_cases hsame : (old.changeTo (Observation.ofQueue q)).isEmpty
  · simp only [followReport, hsame, if_true]
    exact hpreload
  · simp only [followReport, hsame]
    exact hlast _ (hended _ ((hpreload.trans (touches_tellChange o q _ _)).trans
      (touches_recordLeft o items old _ _)))

/-! ## Whole reports -/

theorem onReport_unknown {r : PlayerReport} (he : h.entry? r.playerId = none) :
    h.onReport o r = h := by
  simp only [onReport, he]

theorem onReport_announcing {r : PlayerReport} (hannounce : r.announcementInProgress) :
    h.onReport o r = h := by
  unfold onReport
  cases he : h.entry? r.playerId with
  | none => simp only [he]
  | some e => simp only [he, hannounce, if_true]

section

variable {r : PlayerReport} {e : Entry} (he : h.entry? r.playerId = some e)
  (hannounce : ¬ r.announcementInProgress)

include he hannounce

theorem onReport_unheeded (hheeds : ¬ Heeds r e) :
    h.onReport o r = h.modifyQueue r.playerId fun _ =>
      { described e.queue e.items r with state := .idle } := by
  have hinactive : !(described e.queue e.items r).active ∧ e.remembered.isNone := by
    simpa [Heeds] using hheeds
  simp only [onReport, he, if_neg hannounce, if_pos hinactive]

theorem onReport_heeded (hheeds : Heeds r e) :
    h.onReport o r = (h.modifyQueue r.playerId fun _ => reportedQueue o r e).followReport o
      r.playerId e.items (e.remembered.getD {}) (reportedQueue o r e) := by
  have hactive : ¬ (!(described e.queue e.items r).active ∧ e.remembered.isNone) := by
    rintro ⟨hinactive, hnone⟩
    rcases hheeds with hactive | hsome
    · simp [hactive] at hinactive
    · simp [Option.isNone_iff_eq_none.1 hnone] at hsome
  simp only [onReport, he, if_neg hannounce, if_neg hactive]
  rfl

end

end Hub

namespace Flow

theorem mem_of_locate {τ : Type} [Add τ] [LT τ] [DecidableLT τ] {total played : τ}
    {spans : List (Span τ)} {found : Span τ × τ} (hfound : locate total played spans = some found) :
    found.1 ∈ spans := by
  induction spans generalizing played with
  | nil => cases hfound
  | cons span more ih =>
    unfold locate at hfound
    split at hfound
    · exact List.mem_cons_of_mem _ (ih hfound)
    · cases hfound
      exact List.mem_cons_self

/-- A time in the stream stands for the present position, or for that of a streamed item. -/
theorem index_streamPosition {τ : Type} [Add τ] [Sub τ] [LT τ] [DecidableLT τ]
    (seconds : Nat → τ) (current : Option Nat) (log : List (FlowEntry τ)) (items : List QueueItem)
    (total : τ) :
    (streamPosition seconds current log items total).index = current ∨
      ∃ itemId, (streamPosition seconds current log items total).index = indexOf? items itemId := by
  unfold streamPosition position
  cases current with
  | none => exact .inl rfl
  | some current =>
    dsimp only
    split
    · exact .inl rfl
    · next span played hlocate =>
      obtain ⟨entry, -, rfl⟩ := List.mem_map.1 (mem_of_locate hlocate)
      cases hindex : indexOf? items entry.itemId with
      | none => exact .inl (by simp [Flow.span, hindex])
      | some index => exact .inr ⟨entry.itemId, by simp [Flow.span, hindex]⟩

end Flow

namespace Hub

variable {h : Hub} (o : Outside)

/-- The position that a report leads to is the one before, or that of some item of the list. -/
theorem atReportedPosition_eq (q : Queue) (items : List QueueItem) (r : PlayerReport)
    (clock : Float) : ∃ (index : Option Nat) (elapsed : Float),
      atReportedPosition q items r clock = { q with currentIndex := index, elapsed } ∧
        (index = q.currentIndex ∨ ∃ itemId, index = indexOf? items itemId) := by
  unfold atReportedPosition
  by_cases hflow : q.flowMode
  · simp only [hflow, if_true]
    exact ⟨_, _, rfl, Flow.index_streamPosition _ _ _ _ _⟩
  · simp only [hflow]
    cases reportedItem? r.playerId r items with
    | none => exact ⟨q.currentIndex, _, rfl, .inl rfl⟩
    | some itemId => exact ⟨indexOf? items itemId, _, rfl, .inr ⟨itemId, rfl⟩⟩

theorem getD_idle_iff {state : Option PlayerState} :
    state.getD .idle = .playing ↔ state = some .playing := by
  cases state <;> simp

/-- Where a report finds a queue: where the player says it is, or where the queue was. -/
def reportedIndex (q : Queue) (items : List QueueItem) (r : PlayerReport) (clock : Float) :
    Option Nat :=
  if r.state = some .playing then (atReportedPosition q items r clock).currentIndex
  else q.currentIndex

/-- The seconds that a report tells of the item at a position. -/
def reportedElapsed (q : Queue) (items : List QueueItem) (r : PlayerReport) (clock : Float)
    (index : Option Nat) : Float :=
  if r.state = some .playing then
    let elapsed := (atReportedPosition q items r clock).elapsed
    if q.flowMode then elapsed
    else elapsed + Number.floatOfNat (Flow.seekAt items index)
  else q.elapsed

/-- All that a report decides of a queue. -/
theorem afterReport_fields (q : Queue) (items : List QueueItem) (r : PlayerReport)
    (clock : Float) :
    let index := reportedIndex q items r clock
    afterReport q items r clock =
      { q with
        state := r.state.getD .idle
        currentIndex := index
        currentItem := index.bind (items[·]?)
        nextItem := nextPlayableItem items q.repeatMode index
        elapsed := reportedElapsed q items r clock index
        elapsedUpdated := if r.state = some .playing then clock else q.elapsedUpdated } := by
  intro index
  obtain ⟨i, elapsed, hposition, -⟩ := atReportedPosition_eq q items r clock
  unfold afterReport
  simp only [index, reportedIndex, reportedElapsed]
  by_cases hplaying : r.state = some .playing
  · simp only [if_pos hplaying, hposition]
    by_cases hflow : q.flowMode
    · simp [hflow, hplaying]
    · simp [hflow, hplaying, Flow.seekAt]
  · simp only [if_neg hplaying]
    have hstate : r.state.getD .idle ≠ .playing := fun h => hplaying (getD_idle_iff.1 h)
    simp [hstate]

/-- A report decides where a queue is, what it does and which items follow, and nothing else. -/
theorem afterReport_eq (q : Queue) (items : List QueueItem) (r : PlayerReport) (clock : Float) :
    ∃ (state : PlayerState) (index : Option Nat) (elapsed updated : Float),
      afterReport q items r clock =
        { q with
          state
          currentIndex := index
          currentItem := index.bind (items[·]?)
          nextItem := nextPlayableItem items q.repeatMode index
          elapsed
          elapsedUpdated := updated } ∧
        (index = q.currentIndex ∨ ∃ itemId, index = indexOf? items itemId) := by
  refine ⟨_, reportedIndex q items r clock, _, _, afterReport_fields q items r clock, ?_⟩
  obtain ⟨index, elapsed, hposition, hindex⟩ := atReportedPosition_eq q items r clock
  unfold reportedIndex
  split
  · rw [hposition]
    exact hindex
  · exact .inl rfl

theorem reportedQueue_eq (r : PlayerReport) (e : Entry) :
    (reportedQueue o r e).id = e.queue.id ∧
      (reportedQueue o r e).enqueuedNext = e.queue.enqueuedNext ∧
      (reportedQueue o r e).preloading = e.queue.preloading ∧
      ((reportedQueue o r e).currentIndex = e.queue.currentIndex ∨
        ∃ itemId, (reportedQueue o r e).currentIndex = indexOf? e.items itemId) := by
  obtain ⟨state, index, elapsed, updated, heq, hindex⟩ :=
    afterReport_eq (described e.queue e.items r) e.items r o.clock
  unfold reportedQueue
  rw [heq]
  exact ⟨rfl, rfl, rfl, hindex⟩

/-- What a report makes of a queue is a queue of its player, kept under its id. -/
theorem queue?_reportedQueue {r : PlayerReport} {e : Entry} (he : h.entry? r.playerId = some e)
    (hid : e.queue.id = r.playerId) :
    (reportedQueue o r e).id = r.playerId ∧
      queue? (h.modifyQueue r.playerId fun _ => reportedQueue o r e) (reportedQueue o r e).id =
        some (reportedQueue o r e) := by
  have hq : (reportedQueue o r e).id = r.playerId := (reportedQueue_eq o r e).1.trans hid
  refine ⟨hq, ?_⟩
  rw [queue?_eq_map, hq, entry?_modifyQueue, if_pos rfl, he]
  rfl

/-- A report changes the entry of its player as `Entry.reported` says. -/
theorem touches_onReport (r : PlayerReport)
    (hid : ∀ e, h.entry? r.playerId = some e → e.queue.id = r.playerId) :
    Touches r.playerId (fun e => e.reported o r) h (h.onReport o r) := by
  cases he : h.entry? r.playerId with
  | none =>
    rw [onReport_unknown o he]
    exact touches_unknown he
  | some e =>
    by_cases hannounce : r.announcementInProgress
    · rw [onReport_announcing o hannounce]
      refine Touches.rfl.congr he ?_
      simp only [Entry.reported, hannounce, if_true]
      rfl
    · by_cases hheeds : Heeds r e
      · obtain ⟨hq, hqueue⟩ := queue?_reportedQueue o he (hid e he)
        have hmodified := @touches_modifyQueue h r.playerId fun _ => reportedQueue o r e
        have hfollowed := touches_followReport o hqueue e.items (e.remembered.getD {})
        rw [hq] at hfollowed
        rw [onReport_heeded o he hannounce hheeds]
        refine (hmodified.trans hfollowed).congr he ?_
        simp only [Entry.reported, if_neg hannounce, if_pos hheeds]
        rfl
      · rw [onReport_unheeded o he hannounce hheeds]
        refine (touches_modifyQueue _).congr he ?_
        simp only [Entry.reported, if_neg hannounce, if_neg hheeds]

end Hub

/-! ## What a report leaves alone -/

theorem Queue.claimed_eq (q : Queue) (clock : Float) :
    ∃ claim, q.claimed clock = { q with preloading := claim } := by
  unfold Queue.claimed
  split
  · exact ⟨_, rfl⟩
  · exact ⟨q.preloading, rfl⟩

namespace Entry

/-- What follows from a report changes at most the claim on a preload and the source of radio. -/
theorem followed_eq (e : Entry) (o : Outside) (old : Observation) (q : Queue) :
    ∃ claim radioSource remembered, e.followed o old q =
      { queue := { q with preloading := claim, radioSource }, items := e.items, remembered } := by
  have hclaim : ∃ claim, (if old.LetsPreload q then q.claimed o.clock else q) =
      { q with preloading := claim } := by
    split
    · exact q.claimed_eq o.clock
    · exact ⟨q.preloading, rfl⟩
  obtain ⟨claim, hclaim⟩ := hclaim
  unfold followed
  dsimp only
  rw [hclaim]
  split
  · exact ⟨claim, q.radioSource, e.remembered, rfl⟩
  · split
    · exact ⟨claim, q.requested, _, rfl⟩
    · exact ⟨claim, q.radioSource, _, rfl⟩

theorem reported_eq (e : Entry) (o : Outside) (r : PlayerReport) :
    (e.reported o r).queue.id = e.queue.id ∧ (e.reported o r).items = e.items ∧
      (e.reported o r).queue.enqueuedNext = e.queue.enqueuedNext ∧
      ((e.reported o r).queue.currentIndex = e.queue.currentIndex ∨
        ∃ itemId, (e.reported o r).queue.currentIndex = indexOf? e.items itemId) := by
  unfold reported
  split
  · exact ⟨rfl, rfl, rfl, .inl rfl⟩
  · split
    · obtain ⟨claim, radioSource, remembered, heq⟩ :=
        e.followed_eq o (e.remembered.getD {}) (Hub.reportedQueue o r e)
      obtain ⟨hid, hnext, -, hindex⟩ := Hub.reportedQueue_eq o r e
      rw [heq]
      exact ⟨hid, rfl, hnext, hindex⟩
    · exact ⟨rfl, rfl, rfl, .inl rfl⟩

end Entry

end Jukebox
