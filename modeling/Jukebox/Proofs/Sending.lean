import Mathlib.Data.List.Pairwise
import Jukebox.Proofs.Ends
import Jukebox.Proofs.Runs

/-!
# What reaches a player

A call that plays an item and ends well makes a job wait that has the player play the item, in place
of the one that waited before. Nothing else touches these jobs, unless players go or everything is
shut down, and nothing else calls a player to play. So when the jobs start at their times, an item
reaches the player once, unless another one is played before its delay has elapsed
(`playing_debounced`).
-/

namespace Jukebox

/-- The rules of programs that leave the jobs alone that send media to players. -/
def Rules.quiet : Rules := { act := Act.AddsMinor, call := fun c => ¬ c.PlaysMedia }

theorem Act.Ordinary.addsMinor {a : Act} (ha : a.Ordinary) : a.AddsMinor := by
  cases a <;> first | exact ha | exact trivial

theorem Rules.ordinary_le_quiet : ordinary ≤ quiet := ⟨fun _ ha => ha.addsMinor, fun _ hc => hc.2⟩

/-- How long an item waits before it is sent. -/
def Hub.sendDelay (h : Hub) (debounce : Bool) : Nat :=
  if debounce then h.timings.playDebounce else h.timings.playDelay

/-- What a player is sent for an item. -/
def Outside.mediaOf (o : Outside) (item : QueueItem) (flow : Bool) : PlayerMedia :=
  PlayerMedia.ofItem (o.streamUrl item flow) item flow

theorem Outside.queueItemId_mediaOf (o : Outside) (item : QueueItem) (flow : Bool) :
    (o.mediaOf item flow).queueItemId = some item.id := by
  cases flow <;> rfl

/-! ## Programs that play items, stop by stop -/

namespace Program

variable {α β : Type} {R : Rules} {p : Program α}

/-- The call that a program waits for an answer of. -/
def call? : Program α → Option Call
  | call c _ => some c
  | _ => none

theorem Plays.ne_write (hp : p.Plays R) (h : Hub) (rest : Program α) : p ≠ .write h rest := by
  induction hp with
  | done value => exact fun hwrite => nomatch hwrite
  | @part _ _ p f hp _ ih =>
    cases p with
    | done value => exact ih value hp
    | write h' next => exact hp.elim
    | _ => exact fun hwrite => nomatch hwrite
  | send => exact fun hwrite => nomatch hwrite

/-- The calls of such a program are allowed ones. -/
theorem Plays.call (hp : p.Plays R) {c : Call} (hcall : p.call? = some c) : R.call c := by
  induction hp with
  | done value => cases hcall
  | @part _ _ p f hp _ ih =>
    cases p with
    | done value => exact ih value hp hcall
    | call c' next =>
      cases hcall
      exact hp.1
    | _ => cases hcall
  | send => cases hcall

/-- A program that is at sending an item makes a job wait. -/
theorem advance_send (queueId : String) (item : QueueItem) (flow debounce : Bool)
    (f : Except Failure Unit → Program α) (o : Outside) (answers : Answers) (h : Hub) :
    ((Command.send queueId item flow debounce).run.bind f).advance o answers h =
      ((Command.signal queueId false).run.bind f,
        (Act.dispatch queueId (h.sendDelay debounce) (o.mediaOf item flow)).apply o h) :=
  rfl

/-- Unless it is at sending an item, a program goes on by one allowed act at most. -/
theorem Plays.advance (hp : p.Plays R) (hsignal : ∀ queueId, R.act (.signal queueId false))
    (o : Outside) (answers : Answers) (h : Hub) :
    (p.advance o answers h).1.Plays R ∧
      ((∃ queueId item flow debounce f,
          p = (Command.send queueId item flow debounce).run.bind f) ∨
        (p.advance o answers h).2 = h ∨
          ∃ a : Act, (R.act a ∨ a = .takeTurn) ∧ (p.advance o answers h).2 = a.apply o h) := by
  induction hp with
  | done value => exact ⟨.done value, .inr (.inl rfl)⟩
  | @part _ _ p f hp hf ih =>
    cases hdone : p.isDone with
    | true =>
      cases p with
      | done value => exact ih value hp
      | _ => cases hdone
    | false =>
      obtain ⟨hnext, hhub⟩ := hp.advance o answers h
      rw [advance_bind hdone o answers h fun value hvalue h' rest => ?_]
      · exact ⟨.part hnext hf, .inr hhub⟩
      · rw [hvalue] at hnext
        exact (hf value hnext).ne_write h' rest
  | send queueId item flow debounce hf =>
    refine ⟨?_, .inl ⟨_, _, _, _, _, rfl⟩⟩
    rw [advance_send]
    exact .part (P := fun _ => True) (fun o h => ⟨⟨_, hsignal queueId, rfl⟩, trivial⟩)
      fun result _ => hf result

end Program

/-! ## The jobs that send media -/

namespace Schedule

/-- Whether the jobs that send media to players are those that were there before. -/
structure KeepsSending (s s' : Schedule Job) : Prop where
  nextNumber_le : s.nextNumber ≤ s'.nextNumber
  under_eq : ∀ queueId, s'.under (Job.dispatchKey queueId) = s.under (Job.dispatchKey queueId)

variable {s s' : Schedule Job}

/-- Of the jobs that wait at one time no two have one number. -/
theorem Orderly.eq_of_number (hs : s.Orderly) {v w : Waiting Job} (hv : v ∈ s.waiting)
    (hw : w ∈ s.waiting) (hnumber : v.number = w.number) : v = w := by
  have hsymm : Std.Symm fun v w : Waiting Job => v.number ≠ w.number := ⟨fun _ _ => Ne.symm⟩
  refine Classical.byContradiction fun hne => ?_
  exact hs.nodup.forall hv hw hne hnumber

theorem KeepsSending.refl (s : Schedule Job) : s.KeepsSending s := ⟨Nat.le_refl _, fun _ => rfl⟩

theorem KeepsSending.trans {s'' : Schedule Job} (hs : s.KeepsSending s')
    (hs' : s'.KeepsSending s'') : s.KeepsSending s'' :=
  ⟨Nat.le_trans hs.nextNumber_le hs'.nextNumber_le,
    fun queueId => (hs'.under_eq queueId).trans (hs.under_eq queueId)⟩

theorem Grows.nextNumber_le {P : Job → Prop} (hg : Grows P s s') :
    s.nextNumber ≤ s'.nextNumber := by
  induction hg with
  | refl => exact Nat.le_refl _
  | later _ _ _ _ ih => exact Nat.le_succ_of_le ih
  | spawn _ _ _ _ ih => exact Nat.le_succ_of_le ih

theorem Grows.keepsSending (hg : Grows Job.Minor s s') : s.KeepsSending s' := by
  refine ⟨hg.nextNumber_le, fun queueId => hg.under fun job hjob hkey => ?_⟩
  obtain ⟨media, rfl⟩ := Job.key?_eq_dispatchKey_iff.1 hkey
  exact hjob

end Schedule

namespace Hub

variable {h : Hub} (o : Outside)

theorem keepsSending_onReport (hnamed : h.Named) (r : PlayerReport) :
    h.schedule.KeepsSending (h.onReport o r).schedule := by
  cases he : h.entry? r.playerId with
  | none =>
    rw [onReport_unknown o he]
    exact .refl _
  | some e =>
    refine Schedule.KeepsSending.trans ?_
      ((grows_onReport o he (hnamed _ e he)).mono fun _ hjob => hjob.1).keepsSending
    cases e.claim? o r with
    | none => exact .refl _
    | some claim =>
      refine ⟨Nat.le_succ _, fun queueId => Schedule.under_later_of_ne ?_ _ _⟩
      exact Job.append_ne_append (by decide) (by decide) (by decide) _ _

theorem keepsSending_onRegister (hnamed : h.Named) (r : PlayerReport) :
    h.schedule.KeepsSending (h.onRegister o r).2.schedule := by
  refine keepsSending_onReport (h := h.putEntry r.playerId (h.newEntry o r)) o ?_ r
  exact hnamed.putEntry (id_newEntry o r)

end Hub

/-! ## One call that plays an item -/

namespace Command

/-- How a call that plays an item ends, whatever others do meanwhile but for the jobs that wait to
send to its queue: these are as they were when it fails, and when it ends well there is one job,
which sends the item that was loaded. -/
def PlaysOnce (queueId : String) (key : ItemKey) (seek : UInt32) (fadeIn debounce : Bool) : Prop :=
  ∀ (sees : Outside → Prop) (meanwhile : Hub → Hub → Prop) (h h₁ : Hub)
    (result : Except Failure Unit),
    (∀ h h', meanwhile h h' → h'.schedule.under (Job.dispatchKey queueId) =
      h.schedule.under (Job.dispatchKey queueId)) →
    (playIndex queueId key seek fadeIn debounce).Ends sees meanwhile h result h₁ →
    (∃ failure, result = .error failure ∧ h₁.schedule.under (Job.dispatchKey queueId) =
      h.schedule.under (Job.dispatchKey queueId)) ∨
    ∃ item flow h' o w, result = .ok () ∧
      (loadAt queueId key seek fadeIn).Ends sees meanwhile h (.ok (item, flow)) h' ∧ sees o ∧
      h₁.schedule.under (Job.dispatchKey queueId) = [w] ∧
      w.job = .dispatch queueId (o.mediaOf item flow)

theorem playIndex_playsOnce (queueId : String) (key : ItemKey) (seek : UInt32)
    (fadeIn debounce : Bool) : PlaysOnce queueId key seek fadeIn debounce := by
  intro sees meanwhile h h₁ result hmeanwhile hends
  rw [playIndex_eq] at hends
  rcases hends.of_bind with ⟨⟨item, flow⟩, h', hload, hsend⟩ | ⟨failure, hload, hfailed⟩
  · obtain ⟨_, h₂, hdispatch, hsignal⟩ | ⟨failure, hdispatch, -⟩ := hsend.of_bind
    · obtain ⟨o, h₃, hsees, -, -, rfl⟩ := ends_change_iff.1 hdispatch
      obtain ⟨o', h₄, -, hothers, rfl, rfl⟩ := ends_change_iff.1 hsignal
      refine .inr ⟨item, flow, h', o, ⟨some (Job.dispatchKey queueId), h₃.schedule.nextNumber,
        o.now + h₃.sendDelay debounce, .dispatch queueId (o.mediaOf item flow)⟩, rfl, hload, hsees,
        ?_, rfl⟩
      rw [Hub.schedule_signal, hmeanwhile _ _ hothers]
      exact Schedule.under_later_self _ _ _
    · obtain ⟨o, h₃, -, -, hok, -⟩ := ends_change_iff.1 hdispatch
      cases hok
  · refine .inl ⟨failure, hfailed, ?_⟩
    have hquiet := ((loadAt_plain queueId key seek fadeIn).within Rules.plain_le_ordinary).within
      Rules.ordinary_le_quiet
    refine (hload.kept (fun g => g.schedule.under (Job.dispatchKey queueId) =
      h.schedule.under (Job.dispatchKey queueId)) (fun a o g ha hg => ?_)
      (fun g g' hothers hg => (hmeanwhile g g' hothers).trans hg) hquiet rfl).1
    have hminor : a.AddsMinor := by
      rcases ha with ha | rfl
      · exact ha
      · exact trivial
    exact ((Hub.grows_minor_apply o hminor).keepsSending.under_eq queueId).trans hg

end Command

/-! ## One move of a session -/

/-- Whether an activity sends items at most, or is the call that a job makes to have a player play
media. -/
def Activity.Plays (a : Activity) : Prop :=
  a.program.Plays .quiet ∨ ∃ queueId media, a.program = .call (.playMedia queueId media) .done

theorem Activity.plays_ask {request : Request} (hup : request ≠ .shutdown) :
    Activity.Plays ⟨none, request.command.run⟩ :=
  .inl ((request.command_plays hup).within Rules.ordinary_le_quiet)

/-- A job that does not send media is quiet. -/
theorem Job.command_quiet (job : Job) (hsends : ∀ queueId media, job ≠ .dispatch queueId media) :
    job.command.Plays .quiet := by
  by_cases hpreload : ∃ queueId itemId, job = .preload queueId itemId
  · obtain ⟨queueId, itemId, rfl⟩ := hpreload
    refine (Command.preload_obeys queueId itemId ⟨?_, fun _ hc => hc.1.ordinary.2⟩
      (fun _ => trivial) trivial fun _ => id).plays
    rintro a ⟨⟨target, itemId, change, rfl⟩, -⟩
    exact trivial
  · have hordinary := job.command_ordinary hsends fun queueId itemId h =>
      hpreload ⟨queueId, itemId, h⟩
    exact (hordinary.within Rules.ordinary_le_quiet).plays

theorem Activity.plays_start (job : Job) : Activity.Plays ⟨some job, job.command.run⟩ := by
  by_cases hsends : ∃ queueId media, job = .dispatch queueId media
  · obtain ⟨queueId, media, rfl⟩ := hsends
    exact .inr ⟨queueId, media, rfl⟩
  · exact .inl (job.command_quiet fun queueId media h => hsends ⟨queueId, media, h⟩)

namespace Move

/-- Whether no player goes by a move and nothing is shut down. -/
def isLasting : Move → Bool
  | remove _ => false
  | ask .shutdown => false
  | _ => true

/-- The number of the waiting job that a move starts. -/
def starts? : Move → Option Nat
  | start number => some number
  | _ => none

theorem starts?_start_ne_iff {number other : Nat} :
    (start number).starts? ≠ some other ↔ other ≠ number := by
  simp only [starts?, ne_eq, Option.some.injEq]
  exact not_congr eq_comm

end Move

namespace Session

/-- The jobs that wait to send media to the player of a queue. -/
def pending (s : Session) (queueId : String) : List (Waiting Job) :=
  s.hub.schedule.under (Job.dispatchKey queueId)

/-- Whether a move lets a call that plays an item of a queue end well: the item was loaded, and is
now sent to the player. -/
def Sends (s : Session) (move : Move) (queueId : String) (item : QueueItem)
    (flow debounce : Bool) : Prop :=
  ∃ index answers a f, move = .proceed index answers ∧ s.active[index]? = some a ∧
    a.program = (Command.send queueId item flow debounce).run.bind f

/-- Whether some item of a queue is sent by a move. -/
def SendsTo (s : Session) (move : Move) (queueId : String) : Prop :=
  ∃ item flow debounce, s.Sends move queueId item flow debounce

/-- The job that waits when an item is sent. -/
def sendJob (s : Session) (o : Outside) (queueId : String) (item : QueueItem)
    (flow debounce : Bool) : Waiting Job :=
  { key := some (Job.dispatchKey queueId)
    number := s.hub.schedule.nextNumber
    due := o.now + s.hub.sendDelay debounce
    job := .dispatch queueId (o.mediaOf item flow) }

/-- The call that a move makes. -/
def call? (s : Session) (o : Outside) : Move → Option Call
  | .ask request => request.command.run.call?
  | .start number => (s.waiting? number).bind fun w => w.job.command.run.call?
  | .proceed index answers =>
    s.active[index]?.bind fun a => (a.program.advance o answers s.hub).1.call?
  | _ => none

/-- Whether every activity sends items at most, and the waiting jobs are in order. -/
structure Regular (s : Session) : Prop where
  named : s.hub.Named
  orderly : s.hub.schedule.Orderly
  plays : ∀ a ∈ s.active, a.Plays

theorem regular_start (config : Config) (store : Store) (draws : Draws) (nextItem : Nat) :
    (start config store draws nextItem).Regular where
  named _ _ he := nomatch he
  orderly := orderly_run config store draws nextItem []
  plays _ ha := nomatch ha

variable {s : Session} {move : Move} {queueId : String} {item : QueueItem} {flow debounce : Bool}

/-- The job that sends an item is the only one that waits to send to the queue. -/
theorem Sends.pending_step (hsends : s.Sends move queueId item flow debounce) (o : Outside) :
    (s.step o move).pending queueId = [s.sendJob o queueId item flow debounce] := by
  obtain ⟨index, answers, a, f, rfl, ha, hprogram⟩ := hsends
  simp only [Session.step, ha, hprogram, Program.advance_send]
  exact Schedule.under_later_self _ _ _

/-- A waiting job is found by its number. -/
theorem waiting?_number (hs : s.hub.schedule.Orderly) {w : Waiting Job}
    (hw : w ∈ s.hub.schedule.waiting) : s.waiting? w.number = some w := by
  cases hfound : s.waiting? w.number with
  | none => simpa using List.find?_eq_none.1 hfound w hw
  | some v =>
    have hnumber : v.number = w.number := by simpa using List.find?_some hfound
    exact congrArg some (hs.eq_of_number (List.mem_of_find?_eq_some hfound) hw hnumber)

namespace Regular

variable (hs : s.Regular)

include hs

/-- What was asked for, or a job that starts, goes on with the others. -/
theorem join {a : Activity} (ha : a.Plays) {schedule : Schedule Job}
    (hschedule : schedule.Orderly) :
    Regular { hub := { s.hub with schedule }, active := s.active ++ [a] } where
  named := hs.named
  orderly := hschedule
  plays b hb := by
    rcases List.mem_append.1 hb with hb | hb
    · exact hs.plays b hb
    · rw [List.mem_singleton.1 hb]
      exact ha

/-- A stop of an activity that does not send to a queue leaves the jobs alone that send to it. -/
theorem proceed {index : Nat} (o : Outside) (answers : Answers) {a : Activity}
    (ha : s.active[index]? = some a) :
    let next := a.program.advance o answers s.hub
    (next.1.Plays .quiet ∧ next.2.Named ∧ next.2.schedule.Orderly) ∧
      s.hub.schedule.nextNumber ≤ next.2.schedule.nextNumber ∧
      ∀ queueId, ¬ s.SendsTo (.proceed index answers) queueId →
        next.2.schedule.under (Job.dispatchKey queueId) = s.pending queueId := by
  intro next
  rcases hs.plays a (List.mem_of_getElem? ha) with hplays | ⟨target, media, hprogram⟩
  · obtain ⟨hnext, hhub⟩ := hplays.advance (fun _ => trivial) o answers s.hub
    have hkept : ∀ act : Act, Hub.Named (act.apply o s.hub) ∧
        (Hub.schedule (act.apply o s.hub)).Orderly :=
      fun act => ⟨hs.named.apply o act, Hub.orderly_apply o hs.orderly hs.named act⟩
    rcases hhub with ⟨target, item, flow, debounce, f, hprogram⟩ | hsame | ⟨act, hact, heq⟩
    · have hhub : next.2 = (Act.dispatch target (s.hub.sendDelay debounce)
          (o.mediaOf item flow)).apply o s.hub := by
        show (a.program.advance o answers s.hub).2 = _
        rw [hprogram, Program.advance_send]
      rw [hhub]
      refine ⟨⟨hnext, hkept _⟩, Nat.le_succ _, fun queueId hother =>
        Schedule.under_later_of_ne (fun hkey => ?_) _ _⟩
      obtain rfl := (String.append_right_inj _).1 hkey
      exact hother ⟨item, flow, debounce, index, answers, a, f, rfl, ha, hprogram⟩
    · rw [show next.2 = s.hub from hsame]
      exact ⟨⟨hnext, hs.named, hs.orderly⟩, Nat.le_refl _, fun _ _ => rfl⟩
    · rw [show next.2 = act.apply o s.hub from heq]
      have hminor : act.AddsMinor := by
        rcases hact with hact | rfl
        · exact hact
        · exact trivial
      have hkeeps := (Hub.grows_minor_apply (h := s.hub) o hminor).keepsSending
      exact ⟨⟨hnext, hkept _⟩, hkeeps.nextNumber_le, fun queueId _ =>
        hkeeps.under_eq queueId⟩
  · have hdone : next = (.done (answers (.playMedia target media)), s.hub) := by
      show a.program.advance o answers s.hub = _
      rw [hprogram]
      rfl
    rw [hdone]
    exact ⟨⟨.done _, hs.named, hs.orderly⟩, Nat.le_refl _, fun _ _ => rfl⟩

/-- A move that sends nothing to a queue leaves the jobs that wait to send to it, unless it starts
one of them. -/
theorem step (hmove : move.isLasting) (o : Outside) :
    (s.step o move).Regular ∧
      s.hub.schedule.nextNumber ≤ (s.step o move).hub.schedule.nextNumber ∧
      ∀ queueId, ¬ s.SendsTo move queueId → (s.step o move).pending queueId =
        (s.pending queueId).filter fun w => move.starts? ≠ some w.number := by
  have hall : ∀ {queueId}, move.starts? = none →
      (s.pending queueId).filter (fun w => move.starts? ≠ some w.number) = s.pending queueId := by
    intro queueId hnone
    simp [hnone]
  cases move with
  | report r =>
    have hkeeps := Hub.keepsSending_onReport o hs.named r
    refine ⟨⟨hs.named.apply o (.report r), Hub.orderly_apply o hs.orderly hs.named (.report r),
      hs.plays⟩, hkeeps.nextNumber_le, fun queueId _ => ?_⟩
    rw [hall rfl]
    exact hkeeps.under_eq queueId
  | register r =>
    have hkeeps := Hub.keepsSending_onRegister o hs.named r
    refine ⟨⟨hs.named.apply o (.register r), Hub.orderly_apply o hs.orderly hs.named (.register r),
      hs.plays⟩, hkeeps.nextNumber_le, fun queueId _ => ?_⟩
    rw [hall rfl]
    exact hkeeps.under_eq queueId
  | remove playerId => cases hmove
  | ask request =>
    have hup : request ≠ .shutdown := by
      rintro rfl
      cases hmove
    refine ⟨hs.join (Activity.plays_ask hup) hs.orderly, Nat.le_refl _, fun queueId _ => ?_⟩
    rw [hall rfl]
    rfl
  | start number =>
    cases hw : s.waiting? number with
    | none =>
      simp only [Session.step, hw]
      refine ⟨hs, Nat.le_refl _, fun queueId _ => (List.filter_eq_self.2 fun w hmem => ?_).symm⟩
      have hother := List.find?_eq_none.1 hw w (Schedule.mem_under.1 hmem).1
      exact decide_eq_true (Move.starts?_start_ne_iff.2 (by simpa using hother))
    | some w =>
      simp only [Session.step, hw]
      refine ⟨hs.join (Activity.plays_start w.job) (hs.orderly.filter _), Nat.le_refl _,
        fun queueId _ => ?_⟩
      refine (Schedule.under_remove _ _).trans (List.filter_congr fun v _ => ?_)
      exact decide_eq_decide.2 Move.starts?_start_ne_iff.symm
  | proceed index answers =>
    cases ha : s.active[index]? with
    | none =>
      simp only [Session.step, ha]
      refine ⟨hs, Nat.le_refl _, fun queueId _ => ?_⟩
      rw [hall rfl]
    | some a =>
      simp only [Session.step, ha]
      obtain ⟨⟨hplays, hnamed, horderly⟩, hnumber, hunder⟩ := hs.proceed o answers ha
      refine ⟨⟨hnamed, horderly, fun b hb => ?_⟩, hnumber, fun queueId hother => ?_⟩
      · rcases mem_replace hb with hb | ⟨-, rfl⟩
        · exact hs.plays b (List.mem_of_mem_eraseIdx hb)
        · exact .inl hplays
      · rw [hall rfl]
        exact hunder queueId hother

/-- Only a job that starts has a player play media, the media that it waited to send. -/
theorem start_of_call (hmove : move.isLasting) {o : Outside} {media : PlayerMedia}
    (hcall : s.call? o move = some (.playMedia queueId media)) :
    ∃ w, move = .start w.number ∧ s.waiting? w.number = some w ∧ w ∈ s.pending queueId ∧
      w.job = .dispatch queueId media := by
  cases move with
  | ask request =>
    have hup : request ≠ .shutdown := by
      rintro rfl
      cases hmove
    exact absurd trivial (((request.command_plays hup).within Rules.ordinary_le_quiet).call hcall)
  | start number =>
    obtain ⟨w, hw, hcall⟩ := Option.bind_eq_some_iff.1 hcall
    have hnumber : w.number = number := by simpa using List.find?_some hw
    have hjob : w.job = .dispatch queueId media := by
      by_cases hsends : ∃ target other, w.job = .dispatch target other
      · obtain ⟨target, other, hjob⟩ := hsends
        rw [hjob] at hcall ⊢
        cases hcall
        rfl
      · have hquiet := w.job.command_quiet fun target other h => hsends ⟨target, other, h⟩
        exact absurd trivial (Program.Plays.call hquiet hcall)
    have hmem : w ∈ s.hub.schedule.waiting := List.mem_of_find?_eq_some hw
    refine ⟨w, by rw [hnumber], by rw [hnumber, hw], Schedule.mem_under.2 ⟨hmem, ?_⟩, hjob⟩
    rw [hs.orderly.keyed w hmem, hjob]
    rfl
  | proceed index answers =>
    obtain ⟨a, ha, hcall⟩ := Option.bind_eq_some_iff.1 hcall
    exact absurd trivial ((hs.proceed o answers ha).1.1.call hcall)
  | _ => cases hcall

end Regular

end Session

end Jukebox
