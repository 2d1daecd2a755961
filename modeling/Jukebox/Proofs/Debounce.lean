import Jukebox.Proofs.Sending

/-!
# Debounced playing

In a run in which the jobs that send media to a player start at their times, what each call that
plays an item comes to: the item reaches the player once, when its delay has elapsed, unless another
one was sent before (`Session.Debounced`). So the player is told last to play what was played last
(`playing_debounced`).
-/

namespace Jukebox

/-- The media that a call has the player of a queue play. -/
def Call.mediaFor? (queueId : String) : Call → Option PlayerMedia
  | playMedia playerId media => if playerId = queueId then some media else none
  | _ => none

theorem Call.mediaFor?_eq_some_iff {queueId : String} {c : Call} {media : PlayerMedia} :
    c.mediaFor? queueId = some media ↔ c = .playMedia queueId media := by
  cases c with
  | playMedia playerId other =>
    simp only [mediaFor?, Option.ite_none_right_eq_some, Option.some.injEq, playMedia.injEq]
  | _ => simp [mediaFor?]

/-- The last value found along the naturals below a bound is that of the last one with a value. -/
theorem getLast?_filterMap_range {α : Type} {f : Nat → Option α} {j : Nat} {a : α}
    (ha : f j = some a) (hafter : ∀ k, j < k → f k = none) {n : Nat} (hn : j < n) :
    ((List.range n).filterMap f).getLast? = some a := by
  induction n with
  | zero => exact absurd hn (Nat.not_lt_zero j)
  | succ n ih =>
    rw [List.range_succ, List.filterMap_append]
    rcases Nat.lt_or_eq_of_le (Nat.le_of_lt_succ hn) with hlt | rfl
    · simpa [hafter n hlt] using ih hlt
    · simp [ha]

namespace Session

/-! ## What happens at the moves of a run -/

/-- Whether a job that sends media to the player of a queue starts, at each move, if and only if it
is due: none is passed over, and none starts before its time. -/
def isTimely (s : Session) (queueId : String) : List (Outside × Move) → Bool
  | [] => true
  | (o, move) :: more =>
    ((s.pending queueId).all fun w =>
      if move.starts? = some w.number then decide (o.now = w.due) else decide (o.now ≤ w.due)) &&
    (s.step o move).isTimely queueId more

variable (s : Session) (moves : List (Outside × Move))

/-- Whether at the move of a number a call that plays an item of a queue ends well. -/
def SendsAt (n : Nat) (queueId : String) (o : Outside) (item : QueueItem) (flow debounce : Bool) :
    Prop :=
  ∃ move, moves[n]? = some (o, move) ∧
    (s.run (moves.take n)).Sends move queueId item flow debounce

/-- Whether at the move of a number any call that plays an item of a queue ends well. -/
def SendsToAt (n : Nat) (queueId : String) (o : Outside) : Prop :=
  ∃ item flow debounce, s.SendsAt moves n queueId o item flow debounce

/-- Whether a waiting job starts at the move of a number. -/
def StartsAt (n : Nat) (o : Outside) (w : Waiting Job) : Prop :=
  moves[n]? = some (o, .start w.number) ∧ (s.run (moves.take n)).waiting? w.number = some w

/-- The call that the move of a number makes. -/
def callAt? (n : Nat) : Option Call :=
  moves[n]?.bind fun m => (s.run (moves.take n)).call? m.1 m.2

/-- All that the player of a queue is told to play in a run, in order. -/
def received (queueId : String) : List PlayerMedia :=
  (List.range moves.length).filterMap fun n =>
    (s.callAt? moves n).bind (Call.mediaFor? queueId)

/-- What a call that plays an item comes to, when it ends well at the move of a number and the job
`w` waits from then on. A call that ends well at the very instant at which the job is due may come
before the job or after it. -/
structure Debounced (queueId : String) (media : PlayerMedia) (n : Nat) (w : Waiting Job) : Prop where
  /-- Of all jobs that send to the queue, only this one waits. -/
  waits : (s.run (moves.take (n + 1))).pending queueId = [w]
  /-- When it starts, it is due, and the player is told to play the media. -/
  starts : ∀ j o, s.StartsAt moves j o w → n < j ∧ o.now = w.due ∧
    s.callAt? moves j = some (.playMedia queueId media)
  once : ∀ i j o o', s.StartsAt moves i o w → s.StartsAt moves j o' w → i = j
  /-- It never starts when another call ends well before its delay has elapsed. -/
  dropped : ∀ m o, n < m → s.SendsToAt moves m queueId o → o.now < w.due →
    ∀ j o, ¬ s.StartsAt moves j o w
  /-- It has started when its delay has elapsed, if no other call ended well before. -/
  reaches : ∀ m o move, n < m → moves[m]? = some (o, move) → w.due < o.now →
    (∀ k o, n < k → k < m → s.SendsToAt moves k queueId o → w.due < o.now) →
    ∃ j o, j < m ∧ s.StartsAt moves j o w

variable {s moves} {queueId : String}

theorem isTimely_append (s : Session) (queueId : String) (before after : List (Outside × Move)) :
    s.isTimely queueId (before ++ after) =
      (s.isTimely queueId before && (s.run before).isTimely queueId after) := by
  induction before generalizing s with
  | nil => rfl
  | cons m more ih =>
    have hrun : s.run (m :: more) = (s.step m.1 m.2).run more := rfl
    simp only [List.cons_append, isTimely, ih, hrun, Bool.and_assoc]

theorem clock_le (hclock : moves.Pairwise fun m m' => m.1.now ≤ m'.1.now) {i j : Nat} (hij : i < j)
    {m m' : Outside × Move} (hi : moves[i]? = some m) (hj : moves[j]? = some m') :
    m.1.now ≤ m'.1.now := by
  obtain ⟨hilt, rfl⟩ := List.getElem?_eq_some_iff.1 hi
  obtain ⟨hjlt, rfl⟩ := List.getElem?_eq_some_iff.1 hj
  exact List.pairwise_iff_getElem.1 hclock i j hilt hjlt hij

/-- A job that waits is not overdue, and it starts only when it is due. -/
theorem timely_at (htimely : s.isTimely queueId moves) {n : Nat} {o : Outside} {move : Move}
    (hmove : moves[n]? = some (o, move)) {w : Waiting Job}
    (hw : w ∈ (s.run (moves.take n)).pending queueId) :
    o.now ≤ w.due ∧ (move.starts? = some w.number → o.now = w.due) := by
  have htake : s.isTimely queueId (moves.take (n + 1)) := by
    rw [← List.take_append_drop (n + 1) moves, isTimely_append, Bool.and_eq_true] at htimely
    exact htimely.1
  rw [List.take_add_one, hmove, Option.toList_some, isTimely_append, Bool.and_eq_true] at htake
  have hall := htake.2
  simp only [isTimely, Bool.and_true, List.all_eq_true] at hall
  have hone := hall w hw
  split at hone
  · have hnow : o.now = w.due := of_decide_eq_true hone
    exact ⟨Nat.le_of_eq hnow, fun _ => hnow⟩
  · next hother => exact ⟨of_decide_eq_true hone, fun hstarts => absurd hstarts hother⟩

theorem Regular.run (hs : s.Regular) (hlasting : ∀ m ∈ moves, m.2.isLasting) :
    (s.run moves).Regular := by
  induction moves generalizing s with
  | nil => exact hs
  | cons m more ih =>
    exact ih (hs.step (hlasting m List.mem_cons_self) m.1).1
      fun m' hm' => hlasting m' (List.mem_cons_of_mem m hm')

section

variable (hs : s.Regular) (hlasting : ∀ m ∈ moves, m.2.isLasting)

include hs hlasting

theorem regular_take (n : Nat) : (s.run (moves.take n)).Regular :=
  hs.run fun m hm => hlasting m (List.mem_of_mem_take hm)

/-- What the move of a number does to the jobs that wait to send to a queue. -/
theorem pending_succ (queueId : String) {n : Nat} {o : Outside} {move : Move}
    (hmove : moves[n]? = some (o, move)) :
    (∃ item flow debounce, s.SendsAt moves n queueId o item flow debounce ∧
      (s.run (moves.take (n + 1))).pending queueId =
        [(s.run (moves.take n)).sendJob o queueId item flow debounce]) ∨
    (∀ o, ¬ s.SendsToAt moves n queueId o) ∧
      (s.run (moves.take (n + 1))).pending queueId =
        ((s.run (moves.take n)).pending queueId).filter fun w => move.starts? ≠ some w.number := by
  rw [run_take_succ s hmove]
  by_cases hsends : (s.run (moves.take n)).SendsTo move queueId
  · obtain ⟨item, flow, debounce, hsends⟩ := hsends
    exact .inl ⟨item, flow, debounce, ⟨move, hmove, hsends⟩, hsends.pending_step o⟩
  · refine .inr ⟨?_, ?_⟩
    · rintro o' ⟨item, flow, debounce, move', hmove', hsends'⟩
      obtain ⟨rfl, rfl⟩ := Prod.mk.inj (Option.some.inj (hmove.symm.trans hmove'))
      exact hsends ⟨item, flow, debounce, hsends'⟩
    · exact ((regular_take hs hlasting n).step
        (hlasting _ (List.mem_of_getElem? hmove)) o).2.2 queueId hsends

theorem nextNumber_le {i j : Nat} (hij : i ≤ j) :
    (s.run (moves.take i)).hub.schedule.nextNumber ≤
      (s.run (moves.take j)).hub.schedule.nextNumber := by
  induction hij with
  | refl => exact Nat.le_refl _
  | @step j _ ih =>
    rcases hmove : moves[j]? with _ | ⟨o, move⟩
    · rw [run_take_of_none s hmove]
      exact ih
    · rw [run_take_succ s hmove]
      exact Nat.le_trans ih ((regular_take hs hlasting j).step
        (hlasting _ (List.mem_of_getElem? hmove)) o).2.1

/-- A job that waits to send starts when a move says so. -/
theorem startsAt_of_mem {n : Nat} {o : Outside} {move : Move} (hmove : moves[n]? = some (o, move))
    {w : Waiting Job} (hw : w ∈ (s.run (moves.take n)).pending queueId)
    (hstarts : move.starts? = some w.number) : s.StartsAt moves n o w := by
  refine ⟨?_, waiting?_number (regular_take hs hlasting n).orderly (Schedule.mem_under.1 hw).1⟩
  cases move with
  | start number =>
    cases hstarts
    exact hmove
  | _ => cases hstarts

end

/-- A job that starts waits until then to send to its queue. -/
theorem StartsAt.mem_pending (queueId : String) {n : Nat} {o : Outside} {w : Waiting Job}
    (hstarts : s.StartsAt moves n o w) (hkey : w.key = some (Job.dispatchKey queueId)) :
    w ∈ (s.run (moves.take n)).pending queueId :=
  Schedule.mem_under.2 ⟨List.mem_of_find?_eq_some hstarts.2, hkey⟩

/-- A job that still waits after a move, and is not the one that the move makes wait, waited before:
nothing was sent to the queue, and the job did not start. -/
theorem of_mem_succ (hs : s.Regular) (hlasting : ∀ m ∈ moves, m.2.isLasting) {k : Nat}
    {w : Waiting Job} (hw : w ∈ (s.run (moves.take (k + 1))).pending queueId)
    (hold : w.number ≠ (s.run (moves.take k)).hub.schedule.nextNumber) :
    w ∈ (s.run (moves.take k)).pending queueId ∧
      ((s.run (moves.take (k + 1))).pending queueId).Sublist
        ((s.run (moves.take k)).pending queueId) ∧
      ∀ o, ¬ s.SendsToAt moves k queueId o ∧ ¬ s.StartsAt moves k o w := by
  rcases hmove : moves[k]? with _ | ⟨o, move⟩
  · rw [run_take_of_none s hmove] at hw ⊢
    refine ⟨hw, .refl _, fun o => ⟨?_, ?_⟩⟩
    · rintro ⟨item, flow, debounce, move, hsome, -⟩
      exact nomatch hmove.symm.trans hsome
    · rintro ⟨hsome, -⟩
      exact nomatch hmove.symm.trans hsome
  · rcases pending_succ hs hlasting queueId hmove with
      ⟨item, flow, debounce, -, hpending⟩ | ⟨hnone, hpending⟩
    · rw [hpending, List.mem_singleton] at hw
      exact absurd (congrArg Waiting.number hw) hold
    · rw [hpending] at hw ⊢
      obtain ⟨hw, hkept⟩ := List.mem_filter.1 hw
      refine ⟨hw, List.filter_sublist, fun o' => ⟨hnone o', ?_⟩⟩
      rintro ⟨hsome, -⟩
      obtain ⟨-, rfl⟩ := Prod.mk.inj (Option.some.inj (hmove.symm.trans hsome))
      exact absurd rfl (of_decide_eq_true hkept)

/-! ## The job of one call -/

namespace SendsAt

variable (hs : s.Regular) (hlasting : ∀ m ∈ moves, m.2.isLasting) {n : Nat} {o : Outside}
  {item : QueueItem} {flow debounce : Bool}
  (hsends : s.SendsAt moves n queueId o item flow debounce)

include hs hlasting hsends

omit hs hlasting in
theorem pending_succ : (s.run (moves.take (n + 1))).pending queueId =
    [(s.run (moves.take n)).sendJob o queueId item flow debounce] := by
  obtain ⟨move, hmove, hsends⟩ := hsends
  rw [run_take_succ s hmove]
  exact hsends.pending_step o

omit hsends in
/-- The job does not wait before the call ends. -/
theorem lt_of_mem {k : Nat}
    (hw : (s.run (moves.take n)).sendJob o queueId item flow debounce ∈
      (s.run (moves.take k)).pending queueId) : n < k := by
  refine Nat.lt_of_not_le fun hkn => ?_
  have hnumber := (regular_take hs hlasting k).orderly.number_lt _ (Schedule.mem_under.1 hw).1
  have hle := nextNumber_le hs hlasting (i := k) hkn
  exact Nat.lt_irrefl _ (Nat.lt_of_lt_of_le hnumber hle)

/-- The number of the job is taken from then on. -/
theorem number_lt {k : Nat} (hnk : n < k) :
    (s.run (moves.take n)).hub.schedule.nextNumber <
      (s.run (moves.take k)).hub.schedule.nextNumber := by
  have hmem : (s.run (moves.take n)).sendJob o queueId item flow debounce ∈
      (s.run (moves.take (n + 1))).pending queueId := by
    rw [hsends.pending_succ]
    exact List.mem_singleton_self _
  have horderly := (regular_take hs hlasting (n + 1)).orderly
  exact Nat.lt_of_lt_of_le (horderly.number_lt _ (Schedule.mem_under.1 hmem).1)
    (nextNumber_le hs hlasting hnk)

/-- While the job waits it is the only one, it has not started, and no other call ended well. -/
theorem alone_of_mem {k : Nat} (hnk : n < k)
    (hw : (s.run (moves.take n)).sendJob o queueId item flow debounce ∈
      (s.run (moves.take k)).pending queueId) :
    (s.run (moves.take k)).pending queueId =
        [(s.run (moves.take n)).sendJob o queueId item flow debounce] ∧
      ∀ i o', n < i → i < k → ¬ s.SendsToAt moves i queueId o' ∧
        ¬ s.StartsAt moves i o' ((s.run (moves.take n)).sendJob o queueId item flow debounce) := by
  induction hnk with
  | refl => exact ⟨hsends.pending_succ, fun i o' hni hi => by omega⟩
  | @step k hnk ih =>
    have hlt := hsends.number_lt hs hlasting hnk
    obtain ⟨hwaited, hsublist, hnone⟩ := of_mem_succ hs hlasting hw (Nat.ne_of_lt hlt)
    obtain ⟨halone, hbefore⟩ := ih hwaited
    refine ⟨?_, fun i o' hni hi => ?_⟩
    · rw [halone] at hsublist
      exact hsublist.eq_of_length_le (List.length_pos_of_mem hw)
    · rcases Nat.lt_or_eq_of_le (Nat.le_of_lt_succ hi) with hik | hik
      · exact hbefore i o' hni hik
      · rw [hik]
        exact hnone o'

omit hsends in
/-- The job waits until it starts, or until another call ends well before its delay has elapsed. -/
theorem waits_until (htimely : s.isTimely queueId moves) {m : Nat} (hnm : n < m)
    (hother : ∀ k o', n < k → k < m → s.SendsToAt moves k queueId o' →
      o.now + (s.run (moves.take n)).hub.sendDelay debounce < o'.now)
    (hstill : ∀ k o', k < m → ¬ s.StartsAt moves k o'
      ((s.run (moves.take n)).sendJob o queueId item flow debounce))
    (hsends : s.SendsAt moves n queueId o item flow debounce) :
    (s.run (moves.take n)).sendJob o queueId item flow debounce ∈
      (s.run (moves.take m)).pending queueId := by
  induction hnm with
  | refl =>
    rw [hsends.pending_succ]
    exact List.mem_singleton_self _
  | @step m hnm ih =>
    have hw := ih (fun k o' hnk hkm => hother k o' hnk (Nat.lt_succ_of_lt hkm))
      fun k o' hkm => hstill k o' (Nat.lt_succ_of_lt hkm)
    rcases hmove : moves[m]? with _ | ⟨o', move⟩
    · rw [run_take_of_none s hmove]
      exact hw
    · obtain ⟨hnow, -⟩ := timely_at htimely hmove hw
      rcases Session.pending_succ hs hlasting queueId hmove with
        ⟨item', flow', debounce', hsent, -⟩ | ⟨-, hpending⟩
      · have hlate := hother m o' hnm (Nat.lt_succ_self m) ⟨item', flow', debounce', hsent⟩
        exact absurd hlate (Nat.not_lt_of_le hnow)
      · rw [hpending]
        refine List.mem_filter.2 ⟨hw, decide_eq_true fun hstarts => ?_⟩
        exact hstill m o' (Nat.lt_succ_self m) (startsAt_of_mem hs hlasting hmove hw hstarts)

/-- What a call that ends well comes to. -/
theorem debounced (hclock : moves.Pairwise fun m m' => m.1.now ≤ m'.1.now)
    (htimely : s.isTimely queueId moves) :
    s.Debounced moves queueId (o.mediaOf item flow) n
      ((s.run (moves.take n)).sendJob o queueId item flow debounce) where
  waits := hsends.pending_succ
  starts j o' hstarts := by
    have hw := hstarts.mem_pending queueId rfl
    refine ⟨lt_of_mem hs hlasting hw, (timely_at htimely hstarts.1 hw).2 rfl, ?_⟩
    rw [callAt?, hstarts.1, Option.bind_some, call?, hstarts.2]
    rfl
  once i j o₁ o₂ hi hj := by
    have hwi := hi.mem_pending queueId rfl
    have hwj := hj.mem_pending queueId rfl
    have hni := lt_of_mem hs hlasting hwi
    have hnj := lt_of_mem hs hlasting hwj
    rcases Nat.lt_trichotomy i j with hlt | heq | hlt
    · exact absurd hi ((hsends.alone_of_mem hs hlasting hnj hwj).2 i o₁ hni hlt).2
    · exact heq
    · exact absurd hj ((hsends.alone_of_mem hs hlasting hni hwi).2 j o₂ hnj hlt).2
  dropped m o' hnm hsent hbefore j o₁ hstarts := by
    have hw := hstarts.mem_pending queueId rfl
    have hnow := (timely_at htimely hstarts.1 hw).2 rfl
    obtain ⟨item', flow', debounce', move, hmove, index, answers, a, f, rfl, -⟩ := id hsent
    rcases Nat.lt_trichotomy j m with hlt | rfl | hlt
    · have hle := clock_le hclock hlt hstarts.1 hmove
      exact Nat.lt_irrefl _ (Nat.lt_of_le_of_lt (hnow ▸ hle) hbefore)
    · exact nomatch hmove.symm.trans hstarts.1
    · have hnj := lt_of_mem hs hlasting hw
      exact ((hsends.alone_of_mem hs hlasting hnj hw).2 m o' hnm hlt).1 hsent
  reaches m o' move hnm hmove hlate hother := by
    refine Classical.byContradiction fun hnever => ?_
    have hw := waits_until hs hlasting htimely hnm hother
      (fun k o₁ hkm hstarts => hnever ⟨k, o₁, hkm, hstarts⟩) hsends
    exact Nat.lt_irrefl _ (Nat.lt_of_lt_of_le hlate (timely_at htimely hmove hw).1)

end SendsAt

/-! ## All that a player is told to play -/

section

variable (hs : s.Regular) (hlasting : ∀ m ∈ moves, m.2.isLasting)

include hs hlasting

/-- A job that waits to send waits since a call ended well. -/
theorem sent_of_mem (hnone : s.pending queueId = []) {k : Nat} {w : Waiting Job}
    (hw : w ∈ (s.run (moves.take k)).pending queueId) :
    ∃ n o item flow debounce, n < k ∧ s.SendsAt moves n queueId o item flow debounce ∧
      w = (s.run (moves.take n)).sendJob o queueId item flow debounce := by
  induction k with
  | zero =>
    rw [List.take_zero, show s.run [] = s from rfl, hnone] at hw
    cases hw
  | succ k ih =>
    have hbefore : w ∈ (s.run (moves.take k)).pending queueId →
        ∃ n o item flow debounce, n < k + 1 ∧ s.SendsAt moves n queueId o item flow debounce ∧
          w = (s.run (moves.take n)).sendJob o queueId item flow debounce := by
      intro hw
      obtain ⟨n, o, item, flow, debounce, hnk, hsent⟩ := ih hw
      exact ⟨n, o, item, flow, debounce, Nat.lt_succ_of_lt hnk, hsent⟩
    rcases hmove : moves[k]? with _ | ⟨o, move⟩
    · rw [run_take_of_none s hmove] at hw
      exact hbefore hw
    · rcases pending_succ hs hlasting queueId hmove with
        ⟨item, flow, debounce, hsent, hpending⟩ | ⟨-, hpending⟩
      · rw [hpending, List.mem_singleton] at hw
        exact ⟨k, o, item, flow, debounce, Nat.lt_succ_self k, hsent, hw⟩
      · rw [hpending] at hw
        exact hbefore (List.mem_filter.1 hw).1

/-- What a player is told to play was sent by a call that ended well, whose job starts then. -/
theorem sent_of_callAt? (hnone : s.pending queueId = []) {k : Nat} {media : PlayerMedia}
    (hcall : s.callAt? moves k = some (.playMedia queueId media)) :
    ∃ n o item flow debounce o', s.SendsAt moves n queueId o item flow debounce ∧
      media = o.mediaOf item flow ∧
      s.StartsAt moves k o' ((s.run (moves.take n)).sendJob o queueId item flow debounce) := by
  obtain ⟨⟨o', move⟩, hmove, hcall⟩ := Option.bind_eq_some_iff.1 hcall
  obtain ⟨w, rfl, hwaiting, hw, hjob⟩ := (regular_take hs hlasting k).start_of_call
    (hlasting _ (List.mem_of_getElem? hmove)) hcall
  obtain ⟨n, o, item, flow, debounce, -, hsent, rfl⟩ := sent_of_mem hs hlasting hnone hw
  obtain ⟨-, hmedia⟩ := Job.dispatch.inj hjob
  exact ⟨n, o, item, flow, debounce, o', hsent, hmedia.symm, hmove, hwaiting⟩

/-- What was sent last is what the player is told last, once its delay has elapsed. -/
theorem getLast?_received (hclock : moves.Pairwise fun m m' => m.1.now ≤ m'.1.now)
    (htimely : s.isTimely queueId moves) (hnone : s.pending queueId = []) {n m : Nat}
    {o o' : Outside} {item : QueueItem} {flow debounce : Bool} {move : Move}
    (hsends : s.SendsAt moves n queueId o item flow debounce)
    (hlast : ∀ k o', n < k → ¬ s.SendsToAt moves k queueId o') (hnm : n < m)
    (hmove : moves[m]? = some (o', move))
    (hlate : o.now + (s.run (moves.take n)).hub.sendDelay debounce < o'.now) :
    (s.received moves queueId).getLast? = some (o.mediaOf item flow) := by
  have hjob := hsends.debounced hs hlasting hclock htimely
  obtain ⟨j, o₁, -, hstarts⟩ := hjob.reaches m o' move hnm hmove hlate
    fun k o₂ hnk _ hsent => absurd hsent (hlast k o₂ hnk)
  obtain ⟨hnj, -, hcall⟩ := hjob.starts j o₁ hstarts
  refine getLast?_filterMap_range (j := j) ?_ (fun k hjk => ?_)
    (List.getElem?_eq_some_iff.1 hstarts.1).1
  · rw [hcall]
    exact Call.mediaFor?_eq_some_iff.2 rfl
  · -- a call after that would come from a job that was sent before
    refine Option.eq_none_iff_forall_ne_some.2 fun media hmedia => ?_
    obtain ⟨c, hc, hmedia⟩ := Option.bind_eq_some_iff.1 hmedia
    rw [Call.mediaFor?_eq_some_iff] at hmedia
    subst hmedia
    obtain ⟨n', o₂, item', flow', debounce', o₃, hsent, -, hstarts'⟩ :=
      sent_of_callAt? hs hlasting hnone hc
    rcases Nat.lt_trichotomy n' n with hlt | rfl | hlt
    · have hw := hstarts'.mem_pending queueId rfl
      have hnone := (hsent.alone_of_mem hs hlasting (SendsAt.lt_of_mem hs hlasting hw) hw).2 n o hlt
      exact (hnone (Nat.lt_trans hnj hjk)).1 ⟨item, flow, debounce, hsends⟩
    · have hsame := hsends.pending_succ.symm.trans hsent.pending_succ
      rw [← (List.cons.inj hsame).1] at hstarts'
      exact Nat.ne_of_lt hjk (hjob.once j k o₁ o₃ hstarts hstarts')
    · exact hlast n' o₂ hlt ⟨item', flow', debounce', hsent⟩

end

end Session

/-- In a run in which no player goes and nothing is shut down, and the jobs that send media to the
player of a queue start when they are due: each call that plays an item of the queue and ends well
makes one job wait, which sends that item once when its delay has elapsed, unless another call ends
well before; the player is told to play nothing else; whatever else happens leaves a waiting job as
it is; and what the player is told last is what was played last. -/
theorem playing_debounced (config : Config) (store : Store) (draws : Draws) (nextItem : Nat)
    {moves : List (Outside × Move)} (hclock : moves.Pairwise fun m m' => m.1.now ≤ m'.1.now)
    (hlasting : ∀ m ∈ moves, m.2.isLasting) {queueId : String}
    (htimely : (Session.start config store draws nextItem).isTimely queueId moves) :
    let s := Session.start config store draws nextItem
    (∀ key seek fadeIn debounce, Command.PlaysOnce queueId key seek fadeIn debounce) ∧
      (∀ n o item flow debounce, s.SendsAt moves n queueId o item flow debounce →
        (o.mediaOf item flow).queueItemId = some item.id ∧
          s.Debounced moves queueId (o.mediaOf item flow) n
            ((s.run (moves.take n)).sendJob o queueId item flow debounce)) ∧
      (∀ k media, s.callAt? moves k = some (.playMedia queueId media) →
        ∃ n o item flow debounce o', s.SendsAt moves n queueId o item flow debounce ∧
          media = o.mediaOf item flow ∧
          s.StartsAt moves k o' ((s.run (moves.take n)).sendJob o queueId item flow debounce)) ∧
      (∀ n o move, moves[n]? = some (o, move) → (∀ o, ¬ s.SendsToAt moves n queueId o) →
        (s.run (moves.take (n + 1))).pending queueId =
          ((s.run (moves.take n)).pending queueId).filter
            fun w => move.starts? ≠ some w.number) ∧
      ∀ n o item flow debounce m o' move, s.SendsAt moves n queueId o item flow debounce →
        (∀ k o', n < k → ¬ s.SendsToAt moves k queueId o') → n < m →
        moves[m]? = some (o', move) →
        o.now + (s.run (moves.take n)).hub.sendDelay debounce < o'.now →
        (s.received moves queueId).getLast? = some (o.mediaOf item flow) := by
  intro s
  have hs : s.Regular := Session.regular_start config store draws nextItem
  refine ⟨Command.playIndex_playsOnce queueId, fun n o item flow debounce hsends => ?_,
    fun k media hcall => Session.sent_of_callAt? hs hlasting rfl hcall,
    fun n o move hmove hnone => ?_,
    fun n o item flow debounce m o' move hsends hlast hnm hmove hlate =>
      Session.getLast?_received hs hlasting hclock htimely rfl hsends hlast hnm hmove hlate⟩
  · exact ⟨o.queueItemId_mediaOf item flow, hsends.debounced hs hlasting hclock htimely⟩
  · rcases Session.pending_succ hs hlasting queueId hmove with
      ⟨item, flow, debounce, hsends, -⟩ | ⟨-, hpending⟩
    · exact absurd ⟨item, flow, debounce, hsends⟩ (hnone o)
    · exact hpending

/-- The first item is played, and at once the second one; then the time of that comes. -/
def House.playTwice : List (Outside × Move) :=
  let later (ms : Nat) : Outside := { world with now := ms }
  fill ["a", "b", "c"] ++ request (.playIndex "den" (.index 0) 0 false false) ++
    request (.playIndex "den" (.index 1) 0 false true) ++
    [(later 1000, .start 1), (later 1000, .proceed 0 answers), (later 1001, .report den)]

/-- Only the second item reaches the player, by the job of the call that played it. -/
theorem playing_debounced_playTwice :
    (House.playTwice.Pairwise fun m m' => m.1.now ≤ m'.1.now) ∧
      (∀ m ∈ House.playTwice, m.2.isLasting) ∧
      House.session.isTimely "den" House.playTwice ∧
      (House.session.received House.playTwice "den").map (·.queueItemId) = [some "qi2"] ∧
      ∃ n o item flow debounce,
        House.session.SendsAt House.playTwice n "den" o item flow debounce ∧ item.id = "qi2" ∧
        ∃ o', House.session.StartsAt House.playTwice 64 o'
          ((House.session.run (House.playTwice.take n)).sendJob o "den" item flow debounce) := by
  have hclock : House.playTwice.Pairwise fun m m' => m.1.now ≤ m'.1.now := by decide +kernel
  have hlasting : ∀ m ∈ House.playTwice, m.2.isLasting := by decide +kernel
  have htimely : House.session.isTimely "den" House.playTwice := by decide +kernel
  have hcall : (((House.session.callAt? House.playTwice 64).bind (Call.mediaFor? "den")).bind
      (·.queueItemId)) = some "qi2" := by
    decide +kernel
  obtain ⟨media, hmedia, hid⟩ := Option.bind_eq_some_iff.1 hcall
  obtain ⟨c, hc, hmedia⟩ := Option.bind_eq_some_iff.1 hmedia
  rw [Call.mediaFor?_eq_some_iff.1 hmedia] at hc
  obtain ⟨-, hsent, hplayed, -⟩ := playing_debounced {} {} default 1 hclock hlasting htimely
  obtain ⟨n, o, item, flow, debounce, o', hsends, rfl, hstarts⟩ := hplayed 64 media hc
  have hitem : item.id = "qi2" :=
    Option.some.inj ((hsent n o item flow debounce hsends).1.symm.trans hid)
  exact ⟨hclock, hlasting, htimely, by decide +kernel, n, o, item, flow, debounce, hsends, hitem,
    o', hstarts⟩

end Jukebox
