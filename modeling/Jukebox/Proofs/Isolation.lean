import Jukebox.Proofs.Publishing
import Jukebox.Proofs.Removal
import Jukebox.Proofs.Sending

/-!
# Isolation of queues

What is addressed to one queue leaves every other one as it is: the other queue with its items and
what is remembered of it, its stored snapshot, and the jobs that wait for it; it publishes nothing
about the other queue and tells its player nothing (`queues_isolated`). Programs of a queue do only
acts and make only calls that are for it (`Activity.IsFor.yields`), and acts for a queue leave the
others alone (`Hub.leavesAlone_apply`). The keys of jobs tell the queues apart, whatever their ids
are (`Job.queueId?_eq_of_key?`), so no job takes the place of one for another queue; only the
removal of a player looks at the ends of keys, and may cancel jobs of others. Only moving a queue to
another player and shutting down are addressed to no single queue (`Session.addresses_run`).
-/

namespace Jukebox

/-! ## Jobs that wait for a queue -/

namespace Job

theorem queueId?_of_waitsFor? {job : Job} {queueId : String}
    (hjob : job.waitsFor? = some queueId) : job.queueId? = some queueId := by
  cases job <;> first | exact hjob | cases hjob

/-- Jobs under one key are for one queue. -/
theorem queueId?_eq_of_key? {job other : Job} {key : String} (hjob : job.key? = some key)
    (hother : other.key? = some key) : job.queueId? = other.queueId? := by
  have hsame := (waitsFor?_eq_of_key? hjob hother).2
  rw [key?_eq_map] at hjob
  obtain ⟨queueId, hqueue, -⟩ := Option.map_eq_some_iff.1 hjob
  rw [queueId?_of_waitsFor? hqueue, queueId?_of_waitsFor? (hsame.symm.trans hqueue)]

end Job

namespace Schedule

/-- The jobs that wait and are for a queue. -/
def waitingFor (s : Schedule Job) (queueId : String) : List (Waiting Job) :=
  s.waiting.filter fun w => w.job.queueId? = some queueId

variable {s s' : Schedule Job} {queueId : String}

theorem waitingFor_later (hs : s.Orderly) {key : String} {job : Job} (hkey : job.key? = some key)
    (hjob : job.queueId? ≠ some queueId) (due : Nat) :
    (s.later key due job).waitingFor queueId = s.waitingFor queueId := by
  unfold waitingFor Schedule.later without
  rw [List.filter_append, List.filter_filter, List.filter_cons_of_neg (by simpa using hjob),
    List.filter_nil, List.append_nil]
  refine List.filter_congr fun w hw => ?_
  by_cases hfor : w.job.queueId? = some queueId
  · have hother : w.key ≠ some key := by
      intro hsame
      rw [hs.keyed w hw] at hsame
      exact hjob ((Job.queueId?_eq_of_key? hkey hsame).trans hfor)
    simp [hfor, hother]
  · simp [hfor]

theorem waitingFor_spawn {job : Job} (hjob : job.queueId? ≠ some queueId) (now : Nat) :
    (s.spawn now job).waitingFor queueId = s.waitingFor queueId := by
  unfold waitingFor Schedule.spawn
  rw [List.filter_append, List.filter_cons_of_neg (by simpa using hjob), List.filter_nil,
    List.append_nil]

/-- Work for other queues leaves the jobs of a queue as they are. -/
theorem Grows.waitingFor {P : Job → Prop} (hg : s.Grows P s') (hs : s.Orderly)
    (hother : ∀ job, P job → job.queueId? ≠ some queueId) :
    s'.waitingFor queueId = s.waitingFor queueId := by
  induction hg with
  | refl => rfl
  | later hg due hkey hjob ih =>
    rw [waitingFor_later (hs.grows hg) hkey (hother _ hjob), ih]
  | spawn hg now hkey hjob ih => rw [waitingFor_spawn (hother _ hjob), ih]

/-- So does the start of a job for another queue. -/
theorem waitingFor_remove {number : Nat}
    (hother : ∀ w ∈ s.waiting, w.number = number → w.job.queueId? ≠ some queueId) :
    (s.remove number).waitingFor queueId = s.waitingFor queueId := by
  unfold waitingFor Schedule.remove
  rw [List.filter_filter]
  refine List.filter_congr fun w hw => ?_
  by_cases hfor : w.job.queueId? = some queueId
  · have hnumber : w.number ≠ number := fun h => hother w hw h hfor
    simp [hfor, hnumber]
  · simp [hfor]

end Schedule

theorem NamesOnly.ne_some {queueId other : String} {named? : Option String}
    (hnames : NamesOnly queueId named?) (hne : other ≠ queueId) : named? ≠ some other := by
  rintro rfl
  exact hne hnames

/-! ## Acts for one queue -/

namespace Hub

/-- Whether a queue is left alone: it is as before, with its items and what is remembered of it, its
stored snapshot too, and nothing was published about it. -/
structure LeavesAlone (queueId : String) (h h' : Hub) : Prop where
  entry : h'.entry? queueId = h.entry? queueId
  stored : ∀ key, h'.store.get? (Store.queueBase queueId) key =
    h.store.get? (Store.queueBase queueId) key
  events : ∃ told, h'.events = h.events ++ told ∧ ∀ e ∈ told, e.queueId ≠ queueId

variable {h h' : Hub} {queueId other : String} (o : Outside)

theorem LeavesAlone.refl (h : Hub) (queueId : String) : LeavesAlone queueId h h :=
  ⟨rfl, fun _ => rfl, [], (List.append_nil _).symm, fun _ he => nomatch he⟩

theorem LeavesAlone.trans {h'' : Hub} (hs : LeavesAlone queueId h h')
    (hs' : LeavesAlone queueId h' h'') : LeavesAlone queueId h h'' := by
  obtain ⟨told, hevents, htold⟩ := hs.events
  obtain ⟨more, hevents', hmore⟩ := hs'.events
  refine ⟨hs'.entry.trans hs.entry, fun key => (hs'.stored key).trans (hs.stored key),
    told ++ more, ?_, fun e he => ?_⟩
  · rw [hevents', hevents, List.append_assoc]
  · rcases List.mem_append.1 he with he | he
    · exact htold e he
    · exact hmore e he

theorem entry?_apply_of_other (hnamed : h.Named) {a : Act} (hfor : NamesOnly queueId a.target?)
    (hne : other ≠ queueId) : entry? (a.apply o h) other = h.entry? other := by
  cases hqueue : a.queueId? with
  | some target =>
    have htarget : target = queueId := by
      cases a <;> first | cases hqueue; exact hfor | cases hqueue
    rw [touches_apply o (fun _ _ => hnamed) hqueue other, if_neg (htarget ▸ hne)]
  | none =>
    cases a with
    | register r =>
      cases hfor
      exact (entry?_register o r other).trans (if_neg hne)
    | remove playerId =>
      cases hfor
      exact (entry?_remove o _ other).trans (if_neg hne)
    | _ => exact entry?_apply_of_none o hqueue (fun _ h => nomatch h) (fun _ h => nomatch h) other

/-- An act for one queue leaves the others alone. -/
theorem leavesAlone_apply (hnamed : h.Named) {a : Act} (hfor : NamesOnly queueId a.target?)
    (hne : other ≠ queueId) : LeavesAlone other h (a.apply o h) := by
  have hpublishes := publishesOnly_apply o hnamed hfor
  refine ⟨entry?_apply_of_other o hnamed hfor hne, fun key => ?_, ?_⟩
  · exact hpublishes.store _ key fun h => hne (Store.queueBase_inj h)
  · obtain ⟨told, hevents, htold⟩ := hpublishes.events
    exact ⟨told, hevents, fun e he h => hne (h.symm.trans (htold e he))⟩

theorem waitingFor_onReport (hs : h.schedule.Orderly) (hnamed : h.Named) {r : PlayerReport}
    (hne : other ≠ r.playerId) :
    (h.onReport o r).schedule.waitingFor other = h.schedule.waitingFor other := by
  cases he : h.entry? r.playerId with
  | none => rw [onReport_unknown o he]
  | some e =>
    have hpreload : (withPreload h.schedule o.now r.playerId (e.claim? o r)).waitingFor other =
        h.schedule.waitingFor other := by
      cases e.claim? o r with
      | none => rfl
      | some claim =>
        refine Schedule.waitingFor_later hs rfl ?_ _
        exact NamesOnly.ne_some rfl hne
    rw [← hpreload]
    exact (grows_onReport o he (hnamed _ e he)).waitingFor (orderly_withPreload hs _ _ _)
      fun job hjob => hjob.2.ne_some hne

/-- An act for one queue leaves the jobs that wait for the others, unless a player goes, everything
is cancelled, or a job starts. -/
theorem waitingFor_apply (hs : h.schedule.Orderly) (hnamed : h.Named) {a : Act}
    (hadds : a.AddsWork ∨ (∃ r, a = .report r) ∨ ∃ r, a = .register r)
    (hfor : NamesOnly queueId a.target?) (hne : other ≠ queueId) :
    (a.apply o h).schedule.waitingFor other = h.schedule.waitingFor other := by
  rcases hadds with hadds | ⟨r, rfl⟩ | ⟨r, rfl⟩
  · by_cases hdispatch : ∃ target delay media, a = .dispatch target delay media
    · obtain ⟨target, delay, media, rfl⟩ := hdispatch
      cases hfor
      refine Schedule.waitingFor_later hs rfl ?_ _
      exact NamesOnly.ne_some rfl hne
    · have hminor : a.AddsMinor := by
        cases a <;> first | exact hadds | exact absurd ⟨_, _, _, rfl⟩ hdispatch
      exact (grows_minorFor_apply o hminor hfor).waitingFor hs fun job hjob => hjob.2.ne_some hne
  · cases hfor
    exact waitingFor_onReport o hs hnamed hne
  · cases hfor
    refine waitingFor_onReport (h := h.putEntry r.playerId (h.newEntry o r)) o hs ?_ hne
    exact hnamed.putEntry (id_newEntry o r)

end Hub

/-! ## Programs of one queue -/

namespace Program

variable {α : Type} {R : Rules} {P : α → Prop} {p q : Program α}

/-- Whether a program goes on to another one, whatever it sees and is answered. -/
inductive Leads (p : Program α) : Program α → Prop
  | refl : Leads p p
  | advance {q : Program α} (hq : Leads p q) (o : Outside) (answers : Answers) (h : Hub) :
      Leads p (q.advance o answers h).1

theorem Leads.yields (hq : p.Leads q) (hp : p.Yields R P none) : q.Yields R P none := by
  induction hq with
  | refl => exact hp
  | advance _ o answers h ih => exact (ih.advance o answers h).1

/-- The call that an obedient program waits for an answer of is an allowed one. -/
theorem Yields.call (hp : p.Yields R P none) {c : Call} (hcall : p.call? = some c) : R.call c := by
  cases p with
  | call c' next =>
    cases hcall
    exact hp.1
  | _ => cases hcall

end Program

/-- Whether an activity is what is left of a request of a queue, or of a job that is for no other
queue. -/
inductive Activity.IsFor (queueId : String) : Activity → Prop
  | request {request : Request} {p : Program (Except Failure Unit)}
      (hqueue : request.queueId? = some queueId) (hp : request.command.run.Leads p) :
      IsFor queueId ⟨none, p⟩
  | job {job : Job} {p : Program (Except Failure Unit)} (hqueue : NamesOnly queueId job.queueId?)
      (hp : job.command.run.Leads p) : IsFor queueId ⟨some job, p⟩

theorem Activity.IsFor.yields {queueId : String} {a : Activity} (ha : a.IsFor queueId) :
    a.program.Yields (Rules.work.confined queueId) (fun _ => True) none := by
  cases ha with
  | request hqueue hp => exact hp.yields (Request.command_works _ hqueue).yields_run
  | job hqueue hp => exact hp.yields (Job.command_works _ hqueue).yields_run

theorem Activity.IsFor.advance {queueId : String} {a : Activity} (ha : a.IsFor queueId)
    (o : Outside) (answers : Answers) (h : Hub) :
    Activity.IsFor queueId { a with program := (a.program.advance o answers h).1 } := by
  cases ha with
  | request hqueue hp => exact .request hqueue (hp.advance o answers h)
  | job hqueue hp => exact .job hqueue (hp.advance o answers h)

namespace Session

/-- Whether a move is addressed to a queue: a report of its player, or its coming or going, a
request of the queue, the start of a job that is for no other one, or a step of such a request or
job. -/
def Addresses (s : Session) (queueId : String) : Move → Prop
  | .report r => r.playerId = queueId
  | .register r => r.playerId = queueId
  | .remove playerId => playerId = queueId
  | .ask request => request.queueId? = some queueId
  | .start number => ∀ w, s.waiting? number = some w → NamesOnly queueId w.job.queueId?
  | .proceed index _ => ∀ a, s.active[index]? = some a → a.IsFor queueId

variable {s : Session} {o : Outside} {move : Move} {queueId other : String}

/-- A step of an activity of a queue is an act for the queue, if it changes anything. -/
theorem Addresses.proceed {index : Nat} {answers : Answers}
    (hmove : s.Addresses queueId (.proceed index answers)) (o : Outside) :
    (s.step o (.proceed index answers)).hub = s.hub ∨
      ∃ a : Act, a.AddsWork ∧ NamesOnly queueId a.target? ∧
        (s.step o (.proceed index answers)).hub = a.apply o s.hub := by
  cases ha : s.active[index]? with
  | none =>
    simp only [Session.step, ha]
    exact .inl trivial
  | some a =>
    simp only [Session.step, ha]
    refine ((hmove a ha).yields.advance o answers s.hub).2.imp_right ?_
    rintro ⟨act, ⟨hwork, hfor⟩ | rfl, heq⟩
    · refine ⟨act, ?_, hfor, heq⟩
      cases act <;> first | exact hwork | exact trivial
    · exact ⟨.takeTurn, trivial, trivial, heq⟩

/-- A move leaves every queue alone but the one that it is addressed to. -/
theorem Addresses.leavesAlone (hmove : s.Addresses queueId move) (hnamed : s.hub.Named)
    (hne : other ≠ queueId) (o : Outside) : s.hub.LeavesAlone other (s.step o move).hub := by
  cases move with
  | report r => exact Hub.leavesAlone_apply (a := .report r) o hnamed hmove hne
  | register r => exact Hub.leavesAlone_apply (a := .register r) o hnamed hmove hne
  | remove playerId => exact Hub.leavesAlone_apply (a := .remove playerId) o hnamed hmove hne
  | ask request => exact .refl _ _
  | start number =>
    cases hw : s.waiting? number with
    | none =>
      simp only [Session.step, hw]
      exact .refl _ _
    | some w =>
      simp only [Session.step, hw]
      have hfor : NamesOnly queueId (Act.begin number).target? := trivial
      exact Hub.leavesAlone_apply o hnamed hfor hne
  | proceed index answers =>
    rcases hmove.proceed o with hsame | ⟨a, -, hfor, heq⟩
    · rw [hsame]
      exact .refl _ _
    · rw [heq]
      exact Hub.leavesAlone_apply o hnamed hfor hne

/-- A move tells no player anything but the one of the queue that it is addressed to. -/
theorem Addresses.call (hmove : s.Addresses queueId move) {c : Call}
    (hcall : s.call? o move = some c) : NamesOnly queueId c.player? := by
  cases move with
  | ask request => exact ((request.command_works hmove).yields_run.call hcall).2
  | start number =>
    obtain ⟨w, hw, hcall⟩ := Option.bind_eq_some_iff.1 hcall
    exact ((w.job.command_works (hmove w hw)).yields_run.call hcall).2
  | proceed index answers =>
    obtain ⟨a, ha, hcall⟩ := Option.bind_eq_some_iff.1 hcall
    exact (((hmove a ha).yields.advance o answers s.hub).1.call hcall).2
  | _ => cases hcall

/-- A move leaves the jobs that wait for a queue, but for the one that it is addressed to, unless a
player goes. -/
theorem Addresses.waitingFor (hmove : s.Addresses queueId move) (hs : s.hub.schedule.Orderly)
    (hnamed : s.hub.Named) (hstays : ∀ playerId, move ≠ .remove playerId)
    (hne : other ≠ queueId) (o : Outside) :
    (s.step o move).hub.schedule.waitingFor other = s.hub.schedule.waitingFor other := by
  cases move with
  | report r =>
    exact Hub.waitingFor_apply (a := .report r) o hs hnamed (.inr (.inl ⟨r, rfl⟩)) hmove hne
  | register r =>
    exact Hub.waitingFor_apply (a := .register r) o hs hnamed (.inr (.inr ⟨r, rfl⟩)) hmove hne
  | remove playerId => exact absurd rfl (hstays playerId)
  | ask request => rfl
  | start number =>
    cases hw : s.waiting? number with
    | none => simp only [Session.step, hw]
    | some w =>
      simp only [Session.step, hw]
      refine Schedule.waitingFor_remove fun v hv hnumber => ?_
      have hfound := waiting?_number hs hv
      rw [hnumber, hw] at hfound
      cases hfound
      exact (hmove w hw).ne_some hne
  | proceed index answers =>
    rcases hmove.proceed o with hsame | ⟨a, hadds, hfor, heq⟩
    · rw [hsame]
    · rw [heq]
      exact Hub.waitingFor_apply o hs hnamed (.inl hadds) hfor hne

/-! ## Runs -/

/-- Whether a move moves a queue to another player or shuts everything down, or is a step of
that. -/
def Widens (s : Session) : Move → Prop
  | .ask request => request.queueId? = none
  | .proceed index _ => ∃ request : Request, ∃ p, request.queueId? = none ∧
      request.command.run.Leads p ∧ s.active[index]? = some ⟨none, p⟩
  | _ => False

/-- Whether every activity is what is left of a request or of a job. -/
def Begun (s : Session) : Prop :=
  ∀ a ∈ s.active, (∃ queueId, a.IsFor queueId) ∨
    ∃ request : Request, ∃ p, request.queueId? = none ∧ request.command.run.Leads p ∧
      a = ⟨none, p⟩

theorem Begun.step (hs : s.Begun) (o : Outside) (move : Move) : (s.step o move).Begun := by
  cases move with
  | ask request =>
    intro a ha
    rcases List.mem_append.1 ha with ha | ha
    · exact hs a ha
    · rw [List.mem_singleton.1 ha]
      cases hqueue : request.queueId? with
      | some queueId => exact .inl ⟨queueId, .request hqueue .refl⟩
      | none => exact .inr ⟨request, _, hqueue, .refl, rfl⟩
  | start number =>
    cases hw : s.waiting? number with
    | none =>
      simp only [Session.step, hw]
      exact hs
    | some w =>
      simp only [Session.step, hw]
      intro a ha
      rcases List.mem_append.1 ha with ha | ha
      · exact hs a ha
      · rw [List.mem_singleton.1 ha]
        obtain ⟨queueId, hqueue⟩ := exists_namesOnly w.job.queueId?
        exact .inl ⟨queueId, .job hqueue .refl⟩
  | proceed index answers =>
    cases ha : s.active[index]? with
    | none =>
      simp only [Session.step, ha]
      exact hs
    | some a =>
      simp only [Session.step, ha]
      intro b hb
      rcases mem_replace hb with hb | ⟨-, rfl⟩
      · exact hs b (List.mem_of_mem_eraseIdx hb)
      · rcases hs a (List.mem_of_getElem? ha) with ⟨queueId, hfor⟩ | ⟨request, p, hqueue, hp, rfl⟩
        · exact .inl ⟨queueId, hfor.advance o answers s.hub⟩
        · exact .inr ⟨request, _, hqueue, hp.advance o answers s.hub, rfl⟩
  | _ => exact hs

theorem Begun.run (hs : s.Begun) (moves : List (Outside × Move)) : (s.run moves).Begun := by
  induction moves generalizing s with
  | nil => exact hs
  | cons m more ih => exact ih (hs.step m.1 m.2)

/-- Every move is addressed to some queue, but for moving a queue and shutting down. -/
theorem Begun.addresses (hs : s.Begun) (move : Move) :
    (∃ queueId, s.Addresses queueId move) ∨ s.Widens move := by
  cases move with
  | report r => exact .inl ⟨r.playerId, rfl⟩
  | register r => exact .inl ⟨r.playerId, rfl⟩
  | remove playerId => exact .inl ⟨playerId, rfl⟩
  | ask request =>
    cases hqueue : request.queueId? with
    | some queueId => exact .inl ⟨queueId, hqueue⟩
    | none => exact .inr hqueue
  | start number =>
    cases hw : s.waiting? number with
    | none => exact .inl ⟨"", fun w h => nomatch hw.symm.trans h⟩
    | some w =>
      obtain ⟨queueId, hqueue⟩ := exists_namesOnly w.job.queueId?
      refine .inl ⟨queueId, fun v hv => ?_⟩
      cases hw.symm.trans hv
      exact hqueue
  | proceed index answers =>
    cases ha : s.active[index]? with
    | none => exact .inl ⟨"", fun a h => nomatch ha.symm.trans h⟩
    | some a =>
      rcases hs a (List.mem_of_getElem? ha) with ⟨queueId, hfor⟩ | ⟨request, p, hqueue, hp, rfl⟩
      · refine .inl ⟨queueId, fun b hb => ?_⟩
        cases ha.symm.trans hb
        exact hfor
      · exact .inr ⟨request, p, hqueue, hp, ha⟩

section Runs

variable (config : Config) (store : Store) (draws : Draws) (nextItem : Nat)

theorem begun_run (moves : List (Outside × Move)) :
    ((start config store draws nextItem).run moves).Begun := by
  have hstart : (start config store draws nextItem).Begun := fun _ ha => nomatch ha
  exact hstart.run moves

/-- In every state of a session every move is addressed to some queue, but for moving a queue and
shutting down. -/
theorem addresses_run (moves : List (Outside × Move)) (move : Move) :
    (∃ queueId, ((start config store draws nextItem).run moves).Addresses queueId move) ∨
      ((start config store draws nextItem).run moves).Widens move :=
  (begun_run config store draws nextItem moves).addresses move

/-- A queue is left alone as long as every move is addressed to another one. -/
theorem leavesAlone_run (before after : List (Outside × Move)) {other : String}
    (hafter : ∀ n o move, after[n]? = some (o, move) → ∃ queueId, other ≠ queueId ∧
      ((start config store draws nextItem).run (before ++ after.take n)).Addresses queueId move) :
    Hub.LeavesAlone other ((start config store draws nextItem).run before).hub
      ((start config store draws nextItem).run (before ++ after)).hub := by
  have hprefix : ∀ n, Hub.LeavesAlone other ((start config store draws nextItem).run before).hub
      ((start config store draws nextItem).run (before ++ after.take n)).hub := by
    intro n
    induction n with
    | zero =>
      rw [List.take_zero, List.append_nil]
      exact .refl _ _
    | succ n ih =>
      cases hmove : after[n]? with
      | none =>
        rw [List.take_add_one, hmove, Option.toList_none, List.append_nil]
        exact ih
      | some m =>
        obtain ⟨o, move⟩ := m
        obtain ⟨queueId, hne, hto⟩ := hafter n o move hmove
        rw [List.take_add_one, hmove, Option.toList_some, ← List.append_assoc, run_concat]
        exact ih.trans (hto.leavesAlone (named_run config store draws nextItem _) hne o)
  have hall := hprefix after.length
  rwa [List.take_length] at hall

end Runs

end Session

/-- What is addressed to one queue leaves every other one alone: the other queue with its items and
what is remembered of it, its stored snapshot and the jobs that wait for it are as before, nothing
is published about it, and its player is told nothing. Only the removal of a player may cancel jobs
of another queue. -/
theorem queues_isolated (config : Config) (store : Store) (draws : Draws) (nextItem : Nat)
    (moves : List (Outside × Move)) (o : Outside) (move : Move) {queueId other : String}
    (hne : other ≠ queueId) :
    let s := (Session.start config store draws nextItem).run moves
    s.Addresses queueId move →
      s.hub.LeavesAlone other (s.step o move).hub ∧
      (∀ c, s.call? o move = some c → c.player? ≠ some other) ∧
      ((∀ playerId, move ≠ .remove playerId) →
        (s.step o move).hub.schedule.waitingFor other = s.hub.schedule.waitingFor other) := by
  intro s hmove
  have hnamed : s.hub.Named := Session.named_run config store draws nextItem moves
  have horderly : s.hub.schedule.Orderly := Session.orderly_run config store draws nextItem moves
  refine ⟨hmove.leavesAlone hnamed hne o, fun c hcall => ?_, fun hstays => ?_⟩
  · exact (hmove.call hcall).ne_some hne
  · exact hmove.waitingFor horderly hnamed hstays hne o

/-- A track is about to play in each of two queues, and the first queue is asked to clear itself. -/
def House.clearDen : List (Outside × Move) :=
  bothPlay "living_den" ++ [(world, .ask (.clear "den"))]

/-- A queue is cleared, and another one whose id ends in its id is left alone. -/
theorem living_den_left_alone :
    let s := House.session.run House.clearDen
    let s' := s.step House.world (.proceed 0 House.answers)
    (s.hub.items "den" ≠ [] ∧ s'.hub.items "den" = []) ∧
      s.hub.LeavesAlone "living_den" s'.hub ∧
      s'.hub.schedule.waitingFor "living_den" = s.hub.schedule.waitingFor "living_den" ∧
      s.hub.schedule.waitingFor "living_den" ≠ [] := by
  intro s s'
  have hcleared : (s.hub.items "den").length = 1 ∧ (s'.hub.items "den").length = 0 := by
    decide +kernel
  have hwaits : (s.hub.schedule.waitingFor "living_den").length = 1 := by decide +kernel
  have hidle : (House.session.run (House.bothPlay "living_den")).active.length = 0 := by
    decide +kernel
  have haddresses : s.Addresses "den" (.proceed 0 House.answers) := by
    intro a ha
    have hactive : s.active = [⟨none, (Request.clear "den").command.run⟩] := by
      show (House.session.run House.clearDen).active = _
      rw [House.clearDen, Session.run_concat]
      show (House.session.run (House.bothPlay "living_den")).active ++ _ = _
      rw [List.eq_nil_of_length_eq_zero hidle]
      rfl
    rw [hactive] at ha
    cases ha
    exact .request rfl .refl
  obtain ⟨halone, -, hjobs⟩ := queues_isolated {} {} default 1 House.clearDen House.world
    (.proceed 0 House.answers) (show "living_den" ≠ "den" by decide) haddresses
  refine ⟨⟨fun hnil => ?_, List.eq_nil_of_length_eq_zero hcleared.2⟩, halone, ?_, fun hnil => ?_⟩
  · rw [hnil] at hcleared
    cases hcleared.1
  · dsimp only [s', s, House.session]
    exact hjobs fun playerId h => nomatch h
  · rw [hnil] at hwaits
    cases hwaits

end Jukebox
