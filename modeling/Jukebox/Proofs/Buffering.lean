import Jukebox.Proofs.Holding
import Jukebox.Proofs.OnePreload
import Jukebox.Proofs.Restart

/-!
# Buffering

A queue buffers while an item to play is looked up. Requests overlap, and one that finds the queue
buffering gives it back the buffering in the end. Still, as long as a queue buffers, some request
under way is to give it back another state (`Session.Covered`). So no queue buffers for longer than
requests are under way, unless its player says so (`buffering_ends`).

It is assumed that a request sees the queue and makes it buffer at one instant, as on a timeline: no
other task comes in between two looks that have no wait between them. Sessions therefore go on here
from wait to wait (`Session.instants`). Where another task can come in (`Session.run`), a request may
see the queue buffer, make it buffer again after another one gave it back its state, and leave it
buffering in the end.
-/

namespace Jukebox

/-! ## Players that come, report and go -/

/-- Whether the player of a queue says by a move that it buffers. -/
def Move.reportsBuffering (queueId : String) : Move → Bool
  | .report r => r.playerId = queueId ∧ r.state = some .buffering
  | .register r => r.playerId = queueId ∧ r.state = some .buffering
  | _ => false

theorem Hub.state_afterReport (q : Queue) (items : List QueueItem) (r : PlayerReport)
    (clock : Float) : (afterReport q items r clock).state = r.state.getD .idle := by
  unfold afterReport
  by_cases hplaying : r.state = some .playing
  · simp only [if_pos hplaying]
    rw [hplaying]
    split <;> rfl
  · simp only [if_neg hplaying]
    split <;> rfl

/-- The state after a report is the one before, or the reported one, or the queue is idle. -/
theorem Entry.state_reported (e : Entry) (o : Outside) (r : PlayerReport) :
    (e.reported o r).queue.state = e.queue.state ∨
      (e.reported o r).queue.state = r.state.getD .idle ∨
      (e.reported o r).queue.state = .idle := by
  unfold reported
  split
  · exact .inl rfl
  · split
    · obtain ⟨claim, radioSource, remembered, heq⟩ :=
        e.followed_eq o (e.remembered.getD {}) (Hub.reportedQueue o r e)
      rw [heq]
      exact .inr (.inl (Hub.state_afterReport _ _ _ _))
    · exact .inr (.inr rfl)

theorem Entry.buffers_of_reported {e : Entry} {o : Outside} {r : PlayerReport}
    (hr : r.state ≠ some .buffering) (hafter : (e.reported o r).queue.state = .buffering) :
    e.queue.state = .buffering := by
  rcases e.state_reported o r with hsame | hreported | hidle
  · rw [← hsame, hafter]
  · rw [hafter] at hreported
    cases hstate : r.state with
    | none => simp [hstate] at hreported
    | some state =>
      rw [hstate, Option.getD_some] at hreported
      rw [hstate, ← hreported] at hr
      exact absurd rfl hr
  · rw [hafter] at hidle
    cases hidle

namespace Hub

variable {h : Hub} {queueId : String} {o : Outside}

theorem state?_eq_some_iff {state : PlayerState} :
    h.state? queueId = some state ↔
      ∃ e, h.entry? queueId = some e ∧ e.queue.state = state :=
  Option.map_eq_some_iff

theorem buffers_of_report (hnamed : h.Named) {r : PlayerReport}
    (hr : r.playerId = queueId → r.state ≠ some .buffering)
    (hafter : Hub.state? (h.onReport o r) queueId = some .buffering) :
    h.state? queueId = some .buffering := by
  have htouches := touches_onReport o r (fun e he => hnamed _ e he) queueId
  by_cases hq : queueId = r.playerId
  · rw [if_pos hq] at htouches
    rw [state?, htouches, Option.map_map] at hafter
    obtain ⟨e, he, hstate⟩ := Option.map_eq_some_iff.1 hafter
    exact state?_eq_some_iff.2 ⟨e, he, Entry.buffers_of_reported (hr hq.symm) hstate⟩
  · rw [if_neg hq] at htouches
    rwa [state?_of_entry htouches] at hafter

theorem buffers_of_register {r : PlayerReport}
    (hr : r.playerId = queueId → r.state ≠ some .buffering)
    (hafter : Hub.state? ((Act.register r).apply o h) queueId = some .buffering) :
    h.state? queueId = some .buffering := by
  have hentry := entry?_register (h := h) o r queueId
  by_cases hq : queueId = r.playerId
  · -- a queue that comes does not buffer by itself
    rw [if_pos hq] at hentry
    rw [state?, hentry, Option.map_some, Option.some.injEq] at hafter
    have hidle : (h.newEntry o r).queue.state = .idle :=
      (h.restarted_registered o r.playerId r.displayName r.available).idle
    have hbuffers := Entry.buffers_of_reported (hr hq.symm) hafter
    rw [hidle] at hbuffers
    cases hbuffers
  · rw [if_neg hq] at hentry
    rwa [state?_of_entry hentry] at hafter

theorem buffers_of_remove {playerId : String}
    (hafter : Hub.state? ((Act.remove playerId).apply o h) queueId = some .buffering) :
    h.state? queueId = some .buffering := by
  have hentry := entry?_remove (h := h) o playerId queueId
  by_cases hq : queueId = playerId
  · rw [if_pos hq] at hentry
    rw [state?, hentry] at hafter
    cases hafter
  · rw [if_neg hq] at hentry
    rwa [state?_of_entry hentry] at hafter

end Hub

/-! ## Programs that go on -/

/-- Whether a queue that buffers is to be given back another state, by others or by a program that
holds it. -/
def Hub.Covered (h : Hub) (queueId : String) (others : Prop) (held : Option PlayerState) : Prop :=
  h.state? queueId = some .buffering → others ∨ ∃ prior, held = some prior ∧ prior ≠ .buffering

section

variable {h h' : Hub} {queueId : String} {others : Prop} {held held' : Option PlayerState}

theorem Hub.Covered.of_eq (hcovered : h.Covered queueId others held)
    (hstate : h'.state? queueId = h.state? queueId) : h'.Covered queueId others held := by
  intro hbuffers
  rw [hstate] at hbuffers
  exact hcovered hbuffers

/-- No shift leaves a queue buffering without anybody who holds another state. -/
theorem Hub.Shifts.covered (hshift : h.Shifts queueId h' held held')
    (hcovered : h.Covered queueId others held) : h'.Covered queueId others held' := by
  cases hshift with
  | keep _ hstate => exact hcovered.of_eq hstate
  | hold prior hprior =>
    intro _
    by_cases hsame : prior = .buffering
    · -- the program found the queue buffering, so somebody else holds another state
      rw [hsame] at hprior
      rcases hcovered hprior with hothers | ⟨_, hnone, -⟩
      · exact .inl hothers
      · cases hnone
    · exact .inr ⟨prior, rfl, hsame⟩
  | settle prior hstate =>
    intro hbuffers
    rw [hstate] at hbuffers
    obtain ⟨state, hbefore, hsettled⟩ := Option.map_eq_some_iff.1 hbuffers
    unfold PlayerState.settle at hsettled
    split at hsettled
    · next hbuffering =>
      rw [hbuffering] at hbefore
      rcases hcovered hbefore with hothers | ⟨_, hheld, hne⟩
      · exact .inl hothers
      · cases hheld
        exact absurd hsettled hne
    · next hcalm => exact absurd hsettled hcalm

variable {α : Type} {P : Option PlayerState → α → Prop} {p : Program α} {o : Outside}

/-- What a program holds when it comes to wait covers the queue with the others. -/
theorem Program.Minds.onward (hp : p.Minds queueId (fun held _ => P held) held (some (o, h)))
    (hnamed : h.Named) (hcovered : h.Covered queueId others held) :
    (p.onward o h).2.Named ∧ ∃ held',
      (p.onward o h).1.Minds queueId (fun held _ => P held) held' none ∧
        (p.onward o h).2.Covered queueId others held' := by
  induction p generalizing h held with
  | read next ih => exact ih o h hp hnamed hcovered
  | write h' next ih =>
    obtain ⟨held', ⟨⟨a, rfl⟩, hshift⟩, hnext⟩ := hp
    exact ih hnext (hnamed.apply o a) (hshift.covered hcovered)
  | _ => exact ⟨hnamed, held, hp, hcovered⟩

theorem Program.Minds.goOn (hp : p.Minds queueId (fun held _ => P held) held none)
    (hnamed : h.Named) (hcovered : h.Covered queueId others held) (answers : Answers) :
    (p.goOn o answers h).2.Named ∧ ∃ held',
      (p.goOn o answers h).1.Minds queueId (fun held _ => P held) held' none ∧
        (p.goOn o answers h).2.Covered queueId others held' := by
  cases p with
  | done value => exact ⟨hnamed, held, hp, hcovered⟩
  | read next => exact (hp o h).onward hnamed hcovered
  | write h' next => exact hp.elim
  | call c next => exact ⟨hnamed, held, hp (answers c), hcovered⟩
  | sleep ms next => exact ⟨hnamed, held, hp, hcovered⟩
  | turn next => exact ⟨hnamed.apply o .takeTurn, held, hp, hcovered.of_eq rfl⟩

/-! ## Activities that go on -/

variable (queueId)

/-- Whether an activity shifts the state of a queue, from what it holds on; a job never holds
anything. -/
def Activity.Minds (a : Activity) (held : Option PlayerState) : Prop :=
  match a.job with
  | none => a.program.Minds queueId (fun held _ _ => held = none) held none
  | some _ => held = none ∧ a.program.Yields .keepingState (fun _ => True) none

variable {queueId} {a : Activity}

theorem Activity.minds_ask (request : Request) :
    Activity.Minds queueId ⟨none, request.command.run⟩ none := by
  refine Program.Minds.mono (request.command_returns queueId) fun held _ result hheld => ?_
  cases result <;> exact hheld

theorem Activity.minds_start (job : Job) :
    Activity.Minds queueId ⟨some job, job.command.run⟩ none :=
  ⟨rfl, job.command_keepsState.yields_run⟩

theorem Activity.Minds.of_done (ha : a.Minds queueId held) (hdone : a.program.isDone = true) :
    held = none := by
  obtain ⟨job, program⟩ := a
  cases program with
  | done value =>
    cases job with
    | none => exact ha
    | some job => exact ha.1
  | _ => cases hdone

theorem Activity.Minds.isNone_job {prior : PlayerState} (ha : a.Minds queueId (some prior)) :
    a.job = none := by
  obtain ⟨_ | job, program⟩ := a
  · rfl
  · cases ha.1

theorem Activity.Minds.goOn (ha : a.Minds queueId held) (hnamed : h.Named)
    (hcovered : h.Covered queueId others held) (answers : Answers) :
    (a.program.goOn o answers h).2.Named ∧ ∃ held',
      Activity.Minds queueId { a with program := (a.program.goOn o answers h).1 } held' ∧
        (a.program.goOn o answers h).2.Covered queueId others held' := by
  obtain ⟨_ | job, program⟩ := a
  · exact Program.Minds.goOn ha hnamed hcovered answers
  · obtain ⟨rfl, hprogram⟩ := ha
    obtain ⟨hnext, hnamed', hstate⟩ := hprogram.goOn (o := o)
      (I := fun h' => h'.Named ∧ h'.state? queueId = h.state? queueId)
      (fun a h' ha hinv => ⟨hinv.1.apply o a, (ha.state?_apply o h' queueId).trans hinv.2⟩)
      (fun h' hinv => ⟨hinv.1.apply o .takeTurn, hinv.2⟩) ⟨hnamed, rfl⟩ answers
    exact ⟨hnamed', none, ⟨rfl, hnext⟩, hcovered.of_eq hstate⟩

end

/-! ## Sessions -/

namespace Session

variable {s : Session} {queueId : String}

/-- Whether everything under way shifts the state of a queue. -/
structure Minding (queueId : String) (s : Session) : Prop where
  named : s.hub.Named
  minds : ∀ a ∈ s.active, ∃ held, a.Minds queueId held

/-- Whether some of the activities is to give a queue back another state than buffering. -/
def Covers (queueId : String) (active : List Activity) : Prop :=
  ∃ a ∈ active, ∃ prior, a.Minds queueId (some prior) ∧ prior ≠ .buffering

/-- Whether a queue that buffers is to be given back another state. -/
def Covered (queueId : String) (s : Session) : Prop :=
  s.hub.state? queueId = some .buffering → Covers queueId s.active

theorem Covers.mono {active active' : List Activity} (hcovers : Covers queueId active)
    (hsub : active ⊆ active') : Covers queueId active' := by
  obtain ⟨a, ha, hprior⟩ := hcovers
  exact ⟨a, hsub ha, hprior⟩

theorem minds_append {active : List Activity} {a : Activity}
    (hactive : ∀ b ∈ active, ∃ held, b.Minds queueId held) (ha : a.Minds queueId none) :
    ∀ b ∈ active ++ [a], ∃ held, b.Minds queueId held := by
  intro b hb
  rcases List.mem_append.1 hb with hb | hb
  · exact hactive b hb
  · rw [List.mem_singleton.1 hb]
    exact ⟨none, ha⟩

/-- What an activity that goes on holds can be told so that it covers the queue with the others. -/
theorem Covered.exists_held (hcovered : s.Covered queueId) (hs : s.Minding queueId) {index : Nat}
    {a : Activity} (ha : s.active[index]? = some a) :
    ∃ held, a.Minds queueId held ∧
      s.hub.Covered queueId (Covers queueId (s.active.eraseIdx index)) held := by
  by_cases hbuffers : s.hub.state? queueId = some .buffering
  · obtain ⟨b, hb, prior, hprior, hne⟩ := hcovered hbuffers
    rcases mem_or_mem_eraseIdx ha hb with rfl | hb
    · exact ⟨some prior, hprior, fun _ => .inr ⟨prior, rfl, hne⟩⟩
    · obtain ⟨held, hheld⟩ := hs.minds a (List.mem_of_getElem? ha)
      exact ⟨held, hheld, fun _ => .inl ⟨b, hb, prior, hprior, hne⟩⟩
  · obtain ⟨held, hheld⟩ := hs.minds a (List.mem_of_getElem? ha)
    exact ⟨held, hheld, fun h => absurd h hbuffers⟩

/-- An activity that goes on leaves the queue covered, by itself if it holds another state then. -/
theorem Minding.goOn (hs : s.Minding queueId) {index : Nat} {a : Activity}
    (ha : s.active[index]? = some a) (o : Outside) (answers : Answers) :
    let next := a.program.goOn o answers s.hub
    let s' : Session :=
      { hub := next.2, active := replace s.active index { a with program := next.1 } }
    s'.Minding queueId ∧ (s.Covered queueId → s'.Covered queueId) := by
  intro next s'
  constructor
  · obtain ⟨held, hheld⟩ := hs.minds a (List.mem_of_getElem? ha)
    have hhub : s.hub.Covered queueId True held := fun _ => .inl trivial
    obtain ⟨hnamed, held', hnext, -⟩ := hheld.goOn (o := o) hs.named hhub answers
    refine ⟨hnamed, fun b hb => ?_⟩
    rcases mem_replace hb with hb | ⟨-, rfl⟩
    · exact hs.minds b (List.mem_of_mem_eraseIdx hb)
    · exact ⟨held', hnext⟩
  · intro hcovered hbuffers
    obtain ⟨held, hheld, hhub⟩ := hcovered.exists_held hs ha
    obtain ⟨-, held', hnext, hhub'⟩ := hheld.goOn (o := o) hs.named hhub answers
    rcases hhub' hbuffers with hcovers | ⟨prior, rfl, hne⟩
    · exact hcovers.mono fun b hb => mem_replace_of_mem_eraseIdx hb _
    · -- what holds a state is not done yet
      have hgoing : next.1.isDone = false :=
        Bool.eq_false_iff.2 fun hdone => Option.some_ne_none _ (hnext.of_done hdone)
      exact ⟨_, mem_replace_self ha hgoing, prior, hnext, hne⟩

/-- Whatever happens, everything goes on shifting the state of the queue; and if the queue was
covered, then it still is, unless its player reports that it buffers. -/
theorem Minding.instant (hs : s.Minding queueId) (o : Outside) (move : Move) :
    (s.instant o move).Minding queueId ∧
      (move.reportsBuffering queueId = false → s.Covered queueId →
        (s.instant o move).Covered queueId) := by
  cases move with
  | report r =>
    refine ⟨⟨hs.named.apply o (.report r), hs.minds⟩, fun hcalm hcovered hbuffers => ?_⟩
    exact hcovered (Hub.buffers_of_report hs.named (by simpa [Move.reportsBuffering] using hcalm)
      hbuffers)
  | register r =>
    refine ⟨⟨hs.named.apply o (.register r), hs.minds⟩, fun hcalm hcovered hbuffers => ?_⟩
    exact hcovered (Hub.buffers_of_register (by simpa [Move.reportsBuffering] using hcalm) hbuffers)
  | remove playerId =>
    refine ⟨⟨hs.named.apply o (.remove playerId), hs.minds⟩, fun _ hcovered hbuffers => ?_⟩
    exact hcovered (Hub.buffers_of_remove hbuffers)
  | ask request =>
    refine ⟨⟨hs.named, minds_append hs.minds (Activity.minds_ask request)⟩, ?_⟩
    exact fun _ hcovered hbuffers => (hcovered hbuffers).mono (List.subset_append_left _ _)
  | start number =>
    cases hw : s.waiting? number with
    | none =>
      simp only [Session.instant, Session.step, hw]
      exact ⟨hs, fun _ => id⟩
    | some w =>
      simp only [Session.instant, Session.step, hw]
      refine ⟨⟨hs.named.apply o (.begin number),
        minds_append hs.minds (Activity.minds_start w.job)⟩, ?_⟩
      exact fun _ hcovered hbuffers => (hcovered hbuffers).mono (List.subset_append_left _ _)
  | proceed index answers =>
    cases ha : s.active[index]? with
    | none =>
      simp only [Session.instant, ha]
      exact ⟨hs, fun _ => id⟩
    | some a =>
      simp only [Session.instant, ha]
      obtain ⟨hnext, hcovers⟩ := hs.goOn ha o answers
      exact ⟨hnext, fun _ => hcovers⟩

/-- From a time on at which a queue does not buffer, it is covered as long as its player does not
report that it buffers. -/
theorem Minding.instants (hs : s.Minding queueId) (moves : List (Outside × Move)) :
    (s.instants moves).Minding queueId ∧
      ((∀ m ∈ moves, m.2.reportsBuffering queueId = false) → s.Covered queueId →
        (s.instants moves).Covered queueId) := by
  induction moves generalizing s with
  | nil => exact ⟨hs, fun _ => id⟩
  | cons m more ih =>
    obtain ⟨hnext, hstep⟩ := hs.instant m.1 m.2
    obtain ⟨hrest, hrun⟩ := ih hnext
    refine ⟨hrest, fun hcalm hcovered => ?_⟩
    exact hrun (fun m' hm' => hcalm m' (List.mem_cons_of_mem _ hm'))
      (hstep (hcalm m List.mem_cons_self) hcovered)

/-- Whether a session comes about when programs go on from wait to wait. -/
def Reachable (s : Session) : Prop :=
  ∃ config store draws nextItem moves, (start config store draws nextItem).instants moves = s

theorem Reachable.minding (hs : s.Reachable) (queueId : String) : s.Minding queueId := by
  obtain ⟨config, store, draws, nextItem, moves, rfl⟩ := hs
  have hstart : (start config store draws nextItem).Minding queueId := by
    constructor
    · intro _ _ he
      cases he
    · intro _ ha
      cases ha
  exact (hstart.instants moves).1

end Session

/-- However requests overlap with each other, with jobs and with players that come, report and go: a
queue that did not buffer does not buffer when all requests have returned, unless its player
reported that it does. Requests give way to each other wherever one waits, and what they wait for
may go well or not; some may have been under way before. -/
theorem buffering_ends {s : Session} (hs : s.Reachable) {queueId : String}
    (hstate : s.hub.state? queueId ≠ some .buffering) (moves : List (Outside × Move))
    (hreports : ∀ m ∈ moves, m.2.reportsBuffering queueId = false)
    (hreturned : ∀ a ∈ (s.instants moves).active, a.job ≠ none) :
    (s.instants moves).hub.state? queueId ≠ some .buffering := by
  intro hbuffers
  have hcovered : s.Covered queueId := fun h => absurd h hstate
  obtain ⟨a, ha, prior, hprior, -⟩ :=
    ((hs.minding queueId).instants moves).2 hreports hcovered hbuffers
  exact hreturned a ha hprior.isNone_job

/-! ## Two requests for one item -/

namespace House

def filled : Session := session.instants (fill ["a"])

/-- Two requests for the first item of a queue. The second one finds the queue buffering, and
returns first. -/
def overlap : List (Outside × Move) :=
  (world, .ask (.playIndex "den" (.index 0) 0 false false)) ::
    (world, .ask (.playIndex "den" (.index 0) 0 false false)) ::
      [0, 1, 1, 1, 1, 0, 0, 0].map fun index => (world, .proceed index answers)

end House

/-- The queue goes on buffering when the second request has returned, until the first one has. -/
theorem buffering_ends_overlap :
    (House.filled.instants (House.overlap.take 7)).hub.state? "den" = some .buffering ∧
      (House.filled.instants House.overlap).hub.state? "den" ≠ some .buffering := by
  have hreachable : House.filled.Reachable := ⟨{}, {}, default, 1, House.fill ["a"], rfl⟩
  refine ⟨by decide +kernel, ?_⟩
  exact buffering_ends hreachable (by decide +kernel) House.overlap (by decide +kernel)
    (by decide +kernel)

end Jukebox
