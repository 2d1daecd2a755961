import Jukebox.Proofs.Runs

/-!
# The buffer and the play position

A queue that plays should have buffered the item at its position, so that new items go behind that
one. Playing an item of a list sets both marks. Four kinds of acts set one without the other and can
let the position pass the buffer (`Act.Outruns`): a report of a player that went on before its queue
was told what was loaded, a notice that an earlier item was loaded, the position of another queue
that is taken over, and the return to playing of a queue that no longer buffers. The buffer leads in
all states of a run exactly when no step of it is such an act (`buffer_leads_iff`).
-/

namespace Jukebox

/-- Whether a position is past the buffer, if both are known. -/
def PastBuffer (current buffered : Option Nat) : Prop := ∃ c ∈ current, ∃ b ∈ buffered, b < c

theorem not_pastBuffer_none (buffered : Option Nat) : ¬ PastBuffer none buffered := by
  rintro ⟨c, hc, -⟩
  cases hc

theorem not_pastBuffer_zero (buffered : Option Nat) : ¬ PastBuffer (some 0) buffered := by
  rintro ⟨c, hc, b, -, hlt⟩
  cases hc
  exact Nat.not_lt_zero b hlt

namespace Queue

/-- Whether the buffer of a playing queue is not behind its position: the item that plays counts as
buffered, and new items go behind it. -/
def BufferLeads (q : Queue) : Prop :=
  q.state = .playing → ∀ c ∈ q.currentIndex, ∀ b ∈ q.bufferedIndex,
    c ≤ b ∧ q.isBuffered c ∧ c < q.insertIndex true

/-- Whether a queue plays an item behind all that it buffered. -/
def Outruns (q : Queue) : Prop := q.state = .playing ∧ PastBuffer q.currentIndex q.bufferedIndex

variable {q q' : Queue}

theorem bufferLeads_iff : q.BufferLeads ↔ ¬ q.Outruns := by
  constructor
  · rintro hleads ⟨hplaying, c, hc, b, hb, hlt⟩
    exact Nat.not_lt.2 (hleads hplaying c hc b hb).1 hlt
  · intro hnot hplaying c hc b hb
    have hle : c ≤ b := Nat.not_lt.1 fun hlt => hnot ⟨hplaying, c, hc, b, hb, hlt⟩
    rw [Option.mem_def] at hb
    refine ⟨hle, ?_, ?_⟩
    · simpa [isBuffered, hb] using hle
    · simpa [insertIndex, hplaying, hb] using Nat.lt_succ_of_le hle

/-- What a queue does, where it is, and how far it buffered. -/
def pace (q : Queue) : PlayerState × Option Nat × Option Nat :=
  (q.state, q.currentIndex, q.bufferedIndex)

theorem outruns_congr (hpace : q'.pace = q.pace) : q'.Outruns ↔ q.Outruns := by
  simp only [pace, Prod.mk.injEq] at hpace
  unfold Outruns
  rw [hpace.1, hpace.2.1, hpace.2.2]

theorem outruns_settle (prior : PlayerState) (hq : ¬ q.Outruns) :
    (q.settle prior).Outruns ↔
      q.state = .buffering ∧ prior = .playing ∧ PastBuffer q.currentIndex q.bufferedIndex := by
  unfold settle
  by_cases hbuffers : q.state = .buffering
  · rw [if_pos hbuffers]
    exact ⟨fun h => ⟨hbuffers, h⟩, fun h => h.2⟩
  · rw [if_neg hbuffers]
    exact iff_of_false hq fun h => hbuffers h.1

end Queue

/-! ## What lets a position pass the buffer -/

/-- Whether a change of a queue lets its position pass the buffer. -/
def QueueChange.Outruns (q : Queue) : QueueChange → Prop
  | settle prior | arrive prior _ =>
    q.state = .buffering ∧ prior = .playing ∧ PastBuffer q.currentIndex q.bufferedIndex
  | takeOver source _ => q.state = .playing ∧ PastBuffer source.currentIndex q.bufferedIndex
  | _ => False

/-- Whether an act lets the position of an entry pass the buffer. -/
def Act.Outruns (o : Outside) (e : Entry) : Act → Prop
  | modify _ change => change.Outruns e.queue
  | trackLoaded _ itemId =>
    e.queue.state = .playing ∧ PastBuffer e.queue.currentIndex (indexOf? e.items itemId)
  | report r | register r =>
    r.announcementInProgress = false ∧ Hub.Heeds r e ∧ r.state = some .playing ∧
      PastBuffer (Hub.atReportedPosition e.queue e.items r o.clock).currentIndex
        e.queue.bufferedIndex
  | _ => False

/-- The entry that an act edits; that of a new player has no report yet. -/
def Act.entry? (o : Outside) (h : Hub) : Act → Option Entry
  | register r => some (h.newEntry o r)
  | a => a.queueId?.bind h.entry?

theorem QueueChange.outruns_apply {q : Queue} (hq : ¬ q.Outruns) (change : QueueChange) :
    (change.apply q).Outruns ↔ change.Outruns q := by
  have hsame : (change.apply q).pace = q.pace → ((change.apply q).Outruns ↔ False) :=
    fun hpace => iff_of_false (fun h => hq ((Queue.outruns_congr hpace).1 h)) id
  cases change with
  | settle prior => exact Queue.outruns_settle prior hq
  | arrive prior loaded => exact Queue.outruns_settle prior hq
  | takeOver source targetId => exact Iff.rfl
  | buffer index item flow => exact iff_of_false (fun h => nomatch h.1) id
  | markFirst first => exact iff_of_false (fun h => not_pastBuffer_zero _ h.2) id
  | keepPosition clock onlyActive =>
    refine hsame ?_
    simp only [apply]
    split <;> rfl
  | _ => exact hsame rfl

namespace Hub

/-- Describing a queue does not move it. -/
theorem reportedIndex_described (q : Queue) (items : List QueueItem) (r : PlayerReport)
    (clock : Float) :
    reportedIndex (described q items r) items r clock = reportedIndex q items r clock := by
  unfold reportedIndex atReportedPosition described
  by_cases hflow : q.flowMode
  · simp only [hflow, if_true]
  · simp only [hflow]
    cases reportedItem? r.playerId r items <;> rfl

/-- A player that plays says where it is, and nothing else moves a queue on a report. -/
theorem pace_reportedQueue (o : Outside) (r : PlayerReport) (e : Entry) :
    (reportedQueue o r e).pace =
      (r.state.getD .idle, reportedIndex e.queue e.items r o.clock, e.queue.bufferedIndex) := by
  unfold reportedQueue
  rw [afterReport_fields, reportedIndex_described]
  rfl

theorem outruns_reportedQueue (o : Outside) (r : PlayerReport) (e : Entry) :
    (reportedQueue o r e).Outruns ↔ r.state = some .playing ∧
      PastBuffer (atReportedPosition e.queue e.items r o.clock).currentIndex
        e.queue.bufferedIndex := by
  have hpace := pace_reportedQueue o r e
  simp only [Queue.pace, Prod.mk.injEq] at hpace
  unfold Queue.Outruns
  rw [hpace.1, hpace.2.1, hpace.2.2, getD_idle_iff]
  refine and_congr_right fun hplaying => ?_
  rw [reportedIndex, if_pos hplaying]

end Hub

namespace Entry

variable {e : Entry}

theorem outruns_reported (he : ¬ e.queue.Outruns) (o : Outside) (r : PlayerReport) :
    (e.reported o r).queue.Outruns ↔ (Act.report r).Outruns o e := by
  unfold reported
  by_cases hannounce : r.announcementInProgress
  · rw [if_pos hannounce]
    exact iff_of_false he fun h => Bool.noConfusion (hannounce.symm.trans h.1)
  rw [if_neg hannounce]
  by_cases hheeds : Hub.Heeds r e
  · obtain ⟨claim, radioSource, remembered, hfollowed⟩ :=
      e.followed_eq o (e.remembered.getD {}) (Hub.reportedQueue o r e)
    rw [if_pos hheeds, hfollowed]
    have hsame : ({ Hub.reportedQueue o r e with preloading := claim, radioSource } : Queue).Outruns
        ↔ (Hub.reportedQueue o r e).Outruns := Queue.outruns_congr rfl
    rw [hsame, Hub.outruns_reportedQueue]
    exact ⟨fun h => ⟨eq_false_of_ne_true hannounce, hheeds, h⟩, fun h => h.2.2⟩
  · rw [if_neg hheeds]
    exact iff_of_false (fun h => nomatch h.1) fun h => hheeds h.2.1

/-- An edit lets a position pass the buffer exactly when it is an act that does so. -/
theorem outruns_edit (he : ¬ e.queue.Outruns) (o : Outside) (h : Hub) {a : Act}
    (hregister : ∀ r, a ≠ .register r) : (a.edit o h e).queue.Outruns ↔ a.Outruns o e := by
  have hsame : (a.edit o h e).queue.pace = e.queue.pace →
      ((a.edit o h e).queue.Outruns ↔ False) :=
    fun hpace => iff_of_false (fun h => he ((Queue.outruns_congr hpace).1 h)) id
  cases a with
  | modify queueId change => exact change.outruns_apply he
  | trackLoaded queueId itemId => exact Iff.rfl
  | report r => exact outruns_reported he o r
  | register r => exact absurd rfl (hregister r)
  | clear queueId => exact iff_of_false (fun h => not_pastBuffer_none _ h.2) id
  | startOver queueId =>
    simp only [Act.edit, startOver] at hsame ⊢
    split
    · exact iff_of_false (fun h => not_pastBuffer_none _ h.2) id
    · exact iff_of_false he id
  | updateItem queueId itemId change =>
    refine hsame ?_
    simp only [Act.edit, updateItem]
    split <;> rfl
  | moveItem queueId itemId shift =>
    refine hsame ?_
    simp only [Act.edit, edit]
    split <;> rfl
  | deleteItem queueId key =>
    refine hsame ?_
    simp only [Act.edit, edit]
    split <;> rfl
  | setShuffle queueId enabled =>
    refine hsame ?_
    simp only [Act.edit, setShuffle]
    split <;> rfl
  | setDontStop queueId enabled =>
    refine hsame ?_
    simp only [Act.edit, setDontStop]
    split
    · rfl
    · split <;> rfl
  | logFlow queueId entry =>
    refine hsame ?_
    simp only [Act.edit, logFlow]
    split <;> rfl
  | _ => exact hsame rfl

end Entry

/-! ## Whole runs -/

namespace Hub

variable {h : Hub} (o : Outside)

/-- A new player is idle until it reports. -/
theorem state_newEntry (r : PlayerReport) : (h.newEntry o r).queue.state = .idle := by
  unfold newEntry registered
  rcases hrestored : h.restored? o r.playerId with _ | ⟨q, items⟩
  · rfl
  · obtain ⟨_, stored, _, _, _, _, rfl⟩ := (restored?_eq_some_iff o).1 hrestored
    rfl

theorem outruns_registered (r : PlayerReport) :
    ((h.newEntry o r).reported o r).queue.Outruns ↔
      (Act.register r).Outruns o (h.newEntry o r) := by
  refine Entry.outruns_reported (fun houtruns => ?_) o r
  have hstate := houtruns.1
  rw [state_newEntry] at hstate
  cases hstate

/-- After an act no position is past its buffer, unless the act lets the one of its entry pass. -/
theorem bufferLeads_apply_iff (hnamed : h.Named) (hleads : h.All fun _ e => e.queue.BufferLeads)
    (a : Act) : ((a.apply o h).All fun _ e => e.queue.BufferLeads) ↔
      ∀ e, a.entry? o h = some e → ¬ a.Outruns o e := by
  constructor
  · intro hafter e he houtruns
    by_cases hregister : ∃ r, a = .register r
    · obtain ⟨r, rfl⟩ := hregister
      cases he
      have hnew := entry?_register (h := h) o r r.playerId
      rw [if_pos rfl] at hnew
      exact Queue.bufferLeads_iff.1 (hafter r.playerId _ hnew) ((outruns_registered o r).2 houtruns)
    · have hother : ∀ r, a ≠ .register r := fun r hr => hregister ⟨r, hr⟩
      have hentry : a.queueId?.bind h.entry? = some e := by
        cases a with
        | register r => exact absurd rfl (hother r)
        | _ => exact he
      obtain ⟨queueId, hq, he⟩ := Option.bind_eq_some_iff.1 hentry
      have hedited := touches_apply o (fun _ _ => hnamed) hq queueId
      rw [if_pos rfl, he] at hedited
      have hbefore := Queue.bufferLeads_iff.1 (hleads queueId e he)
      exact Queue.bufferLeads_iff.1 (hafter queueId _ hedited)
        ((Entry.outruns_edit hbefore o h hother).2 houtruns)
  · intro hkeeps
    refine All.apply o hleads hnamed (fun queueId e hq he hbefore => ?_) fun r hr => ?_
    · have hother : ∀ r, a ≠ .register r := by
        rintro r rfl
        cases hq
      have hentry : a.entry? o h = some e := by
        cases a with
        | register r => cases hq
        | _ => simp only [ Act.entry?, hq, Option.bind_some, he]
      rw [Queue.bufferLeads_iff, Entry.outruns_edit (Queue.bufferLeads_iff.1 hbefore) o h hother]
      exact hkeeps e hentry
    · subst hr
      rw [Queue.bufferLeads_iff, outruns_registered]
      exact hkeeps _ rfl

end Hub

/-- Whether a step of a session lets the position of a queue pass its buffer. -/
def Session.Outruns (s : Session) (o : Outside) (move : Move) : Prop :=
  ∃ a : Act, (s.step o move).hub = a.apply o s.hub ∧
    ∃ e, a.entry? o s.hub = some e ∧ a.Outruns o e

/-- In all states of a run the buffer of every playing queue leads exactly when no step lets a
position pass its buffer. -/
theorem buffer_leads_iff (config : Config) (store : Store) (draws : Draws) (nextItem : Nat)
    (moves : List (Outside × Move)) :
    (∀ n, ((Session.start config store draws nextItem).run (moves.take n)).hub.All
        fun _ e => e.queue.BufferLeads) ↔
      ∀ n o move, moves[n]? = some (o, move) →
        ¬ ((Session.start config store draws nextItem).run (moves.take n)).Outruns o move := by
  have hnamed := fun n => Session.named_run config store draws nextItem (moves.take n)
  constructor
  · rintro hall n o move hmove ⟨a, hstep, e, he, houtruns⟩
    have hafter := hall (n + 1)
    rw [Session.run_take_succ _ hmove, hstep] at hafter
    exact (Hub.bufferLeads_apply_iff o (hnamed n) (hall n) a).1 hafter e he houtruns
  · intro hsteps n
    induction n with
    | zero => exact fun _ _ he => nomatch he
    | succ n ih =>
      cases hmove : moves[n]? with
      | none =>
        rw [Session.run_take_of_none _ hmove]
        exact ih
      | some m =>
        obtain ⟨o, move⟩ := m
        rw [Session.run_take_succ _ hmove]
        have hobedient := (Session.obedient_start config store draws nextItem).run (moves.take n)
        rcases (hobedient.step o move).2 with hsame | ⟨a, -, hact⟩
        · rw [hsame]
          exact ih
        · rw [hact]
          refine (Hub.bufferLeads_apply_iff o (hnamed n) ih a).2 fun e he houtruns => ?_
          exact hsteps n o move hmove ⟨a, hact, e, he, houtruns⟩

/-- The first of three items is played, and the player goes on to the second one before anything is
said of its buffer: that item plays without being buffered, and a new one would take its place. -/
theorem second_item_outruns_buffer :
    let s := House.session.run
      (House.fill ["a", "b", "c"] ++ House.request (.playIndex "den" (.index 0) 0 false false) ++
        [(House.world, .report (House.playing "qi1" 1)),
          (House.world, .report (House.playing "qi2" 1))])
    ∃ q, s.hub.queue? "den" = some q ∧ q.state = .playing ∧ q.currentIndex = some 1 ∧
      q.bufferedIndex = some 0 ∧ q.isBuffered 1 = false ∧ q.insertIndex true = 1 ∧
      ¬ q.BufferLeads := by
  intro s
  have hqueue : (s.hub.queue? "den").any (fun q => decide (q.state = .playing) &&
      decide (q.currentIndex = some 1) && decide (q.bufferedIndex = some 0) &&
      !q.isBuffered 1 && decide (q.insertIndex true = 1)) := by
    decide +kernel
  obtain ⟨q, hq, hpassed⟩ := (Option.any_eq_true _ _).1 hqueue
  simp only [Bool.and_eq_true, decide_eq_true_eq, Bool.not_eq_true'] at hpassed
  obtain ⟨⟨⟨⟨hplaying, hcurrent⟩, hbuffered⟩, hnot⟩, hinsert⟩ := hpassed
  refine ⟨q, hq, hplaying, hcurrent, hbuffered, hnot, hinsert, fun hleads => ?_⟩
  exact Nat.not_succ_le_zero 0 (hleads hplaying 1 hcurrent 0 hbuffered).1

end Jukebox
