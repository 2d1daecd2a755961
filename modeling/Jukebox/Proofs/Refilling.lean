import Jukebox.Proofs.Labels
import Jukebox.Proofs.Ownership
import Jukebox.Proofs.Splicing

/-!
# Refills only append

A refill of a queue first generates tracks, which takes many calls, and then appends what is
available of them (`fillRadio_eq`). While it generates it leaves all queues alone, whatever becomes
of them meanwhile (`goOn_generating`). The tracks never come with the answer of a call
(`generation_settles`), so at the instant at which they are there the refill also makes items of
them, looks how long the list is and loads them behind it (`goOn_refill`). It appends to the list
that it finds then, and at no other instant does it touch a queue (`refill_only_appends`).
-/

namespace Jukebox

/-! ## Programs that go on -/

namespace Program

variable {α β : Type} {p : Program α}

/-- Whether a program comes to another one by going on, whatever it sees and is answered and
whatever becomes of the hub between its waits. -/
inductive Continues (p : Program α) : Program α → Prop
  | refl : Continues p p
  | goOn {q : Program α} (hq : Continues p q) (o : Outside) (answers : Answers) (h : Hub) :
      Continues p (q.goOn o answers h).1

theorem Continues.yields {R : Rules} {P : α → Prop} {q : Program α} (hq : p.Continues q)
    (hp : p.Yields R P none) : q.Yields R P none := by
  induction hq with
  | refl => exact hp
  | goOn _ o answers h ih =>
    exact (ih.goOn (I := fun _ => True) (fun _ _ _ _ => trivial) (fun _ _ => trivial) trivial
      answers).1

theorem goOn_of_isDone (hdone : p.isDone = true) (o : Outside) (answers : Answers) (h : Hub) :
    p.goOn o answers h = (p, h) := by
  cases p with
  | done v => rfl
  | _ => cases hdone

/-- What follows a program is done at the instant at which the program ends. -/
def followUp (f : α → Program β) (o : Outside) : Program α × Hub → Program β × Hub
  | (done value, h) => (f value).onward o h
  | (p, h) => (p.bind f, h)

theorem onward_bind (p : Program α) (f : α → Program β) (o : Outside) (h : Hub) :
    (p.bind f).onward o h = followUp f o (p.onward o h) := by
  induction p generalizing h with
  | read next ih => exact ih o h h
  | write h' next ih => exact ih h'
  | _ => rfl

/-! ## Programs that settle by themselves -/

/-- Whether a program has ended well. -/
def HasEnded (p : Program (Except Failure α)) : Prop := ∃ value, p = .done (.ok value)

/-- Whether a program does not end well by an answer or the end of a wait alone. -/
def Settles : Program (Except Failure α) → Prop
  | done _ => True
  | read next => ∀ o h, (next o h).Settles
  | write _ next => next.Settles
  | call _ next => ∀ reply, (next reply).Settles ∧ ¬ (next reply).HasEnded
  | sleep _ next => next.Settles ∧ ¬ next.HasEnded
  | turn next => next.Settles ∧ ¬ next.HasEnded

section Bind

variable {f : α → Program (Except Failure β)}

theorem not_hasEnded_bind (hf : ∀ value, ¬ (f value).HasEnded) (p : Program α) :
    ¬ (p.bind f).HasEnded := by
  cases p with
  | done value => exact hf value
  | _ => exact fun ⟨_, hended⟩ => nomatch hended

theorem settles_bind (hsettles : ∀ value, (f value).Settles)
    (hf : ∀ value, ¬ (f value).HasEnded) (p : Program α) : (p.bind f).Settles := by
  induction p with
  | done value => exact hsettles value
  | read next ih => exact ih
  | write h' next ih => exact ih
  | call c next ih => exact fun reply => ⟨ih reply, not_hasEnded_bind hf _⟩
  | sleep ms next ih => exact ⟨ih, not_hasEnded_bind hf _⟩
  | turn next ih => exact ⟨ih, not_hasEnded_bind hf _⟩

end Bind

theorem Settles.onward {p : Program (Except Failure α)} (hp : p.Settles) (o : Outside) (h : Hub) :
    (p.onward o h).1.Settles := by
  induction p generalizing h with
  | read next ih => exact ih o h (hp o h) h
  | write h' next ih => exact ih hp h'
  | _ => exact hp

theorem Settles.goOn {p : Program (Except Failure α)} (hp : p.Settles) (o : Outside)
    (answers : Answers) (h : Hub) : (p.goOn o answers h).1.Settles := by
  cases p with
  | done value => exact trivial
  | read next => exact (hp o h).onward o h
  | write h' next => exact Settles.onward (p := next) hp o h'
  | call c next => exact (hp (answers c)).1
  | sleep ms next => exact hp.1
  | turn next => exact hp.1

theorem Continues.settles {p q : Program (Except Failure α)} (hq : p.Continues q)
    (hp : p.Settles) : q.Settles := by
  induction hq with
  | refl => exact hp
  | goOn _ o answers h ih => exact ih.goOn o answers h

end Program

namespace Session

/-- Whether what is left of each job comes from the command of the job, and goes on unless it has
just begun. -/
def Continuing (s : Session) : Prop :=
  ∀ a ∈ s.active, ∀ job, a.job = some job →
    job.command.run.Continues a.program ∧
      (a.program = job.command.run ∨ a.program.isDone = false)

theorem Continuing.instant {s : Session} (hs : s.Continuing) (o : Outside) (move : Move) :
    (s.instant o move).Continuing := by
  intro a ha job hjob
  cases move with
  | ask request =>
    rcases List.mem_append.1 ha with ha | ha
    · exact hs a ha job hjob
    · rw [List.mem_singleton.1 ha] at hjob
      cases hjob
  | start number =>
    simp only [Session.instant, step] at ha
    split at ha
    · exact hs a ha job hjob
    · rcases List.mem_append.1 ha with ha | ha
      · exact hs a ha job hjob
      · rw [List.mem_singleton.1 ha] at hjob ⊢
        cases hjob
        exact ⟨.refl, .inl rfl⟩
  | proceed index answers =>
    simp only [Session.instant] at ha
    split at ha
    · exact hs a ha job hjob
    · next b hb =>
      rcases mem_replace ha with ha | ⟨hgoing, rfl⟩
      · exact hs a (List.mem_of_mem_eraseIdx ha) job hjob
      · exact ⟨(hs b (List.mem_of_getElem? hb) job hjob).1.goOn o answers _, .inr hgoing⟩
  | _ => exact hs a ha job hjob

theorem Continuing.instants {s : Session} (hs : s.Continuing) (moves : List (Outside × Move)) :
    (s.instants moves).Continuing := by
  induction moves generalizing s with
  | nil => exact hs
  | cons m more ih => exact ih (hs.instant m.1 m.2)

end Session

/-! ## The two parts of a refill -/

theorem Hub.load_of_none {h : Hub} {queueId : String} (he : h.entry? queueId = none) (o : Outside)
    (batch : List QueueItem) (options : LoadOptions) :
    h.load o queueId batch options = (.error (.noQueue queueId), h) := by
  simp only [Hub.load, he]

/-- A batch that is loaded at the end of a list comes behind it. -/
theorem Hub.load_at_end {h : Hub} {e : Entry} {queueId : String}
    (he : h.entry? queueId = some e) (o : Outside) (batch : List QueueItem) :
    (h.load o queueId batch { insertAt := e.items.length }).1 = .ok () ∧
      Hub.Relisted o queueId
        (e.commit e.queue (e.items ++ Edit.numbered e.items.length batch)) h
        (h.load o queueId batch { insertAt := e.items.length }).2 := by
  have hsplice : Edit.splice h.draws e.items batch { insertAt := e.items.length } =
      (e.items ++ Edit.numbered e.items.length batch, h.draws) := by
    simp [Edit.splice, Edit.upcoming, Edit.renumbered]
  simp only [Hub.load, he, hsplice]
  exact ⟨trivial, Hub.relisted_commit he o e.queue _⟩

namespace Command

section Concludes

variable {α β : Type}

/-- Whether a command does something of its own before it ends well. -/
def Concludes (c : Command α) : Prop := c.run.Settles ∧ ¬ c.run.HasEnded

theorem concludes_throw (failure : Failure) : (throw failure : Command α).Concludes :=
  ⟨trivial, fun ⟨_, hended⟩ => nomatch hended⟩

theorem concludes_step (f : Outside → Hub → Hub.Outcome α) : (step f).Concludes :=
  ⟨fun _ _ => trivial, fun ⟨_, hended⟩ => nomatch hended⟩

theorem concludes_bind (c : Command α) {f : α → Command β} (hf : ∀ v, (f v).Concludes) :
    (c >>= f).Concludes := by
  have hthen : ∀ result : Except Failure α,
      (ExceptT.bindCont (m := Program) f result).Settles ∧
        ¬ (ExceptT.bindCont (m := Program) f result).HasEnded := by
    intro result
    cases result with
    | ok v => exact hf v
    | error failure => exact concludes_throw failure
  exact ⟨Program.settles_bind (fun result => (hthen result).1) (fun result => (hthen result).2) _,
    Program.not_hasEnded_bind (fun result => (hthen result).2) _⟩

end Concludes

/-- The tracks that a queue is to go on with. -/
def generation (queueId : String) : Command (List MediaItem) := do
  let q ← queue queueId
  radioBatch .background q.radioSource false

/-- Tracks are added to the end of the list, if there are any. -/
def append (queueId : String) (tracks : List MediaItem) : Command Unit := do
  if tracks.isEmpty then return
  let batch ← newItems queueId tracks
  load queueId batch { insertAt := (← items queueId).length }

theorem fillRadio_eq (queueId : String) :
    fillRadio queueId = generation queueId >>= append queueId := by
  rw [generation, bind_assoc]
  rfl

/-- The last thing that the generation of tracks does is to draw them. -/
theorem generation_settles (queueId : String) : (generation queueId).run.Settles := by
  have hbatch : ∀ sources, (radioBatch .background sources false).run.Settles := by
    intro sources
    unfold radioBatch
    split
    · exact trivial
    · refine (concludes_bind _ fun mixed => concludes_bind _ fun known => ?_).1
      split
      · exact concludes_bind _ fun _ => concludes_bind _ fun bases =>
          concludes_bind _ fun pool => concludes_step _
      · exact concludes_bind _ fun bases => concludes_bind _ fun pool => concludes_step _
  intro o h
  beta_reduce
  cases h.entry? queueId with
  | none => exact trivial
  | some e => exact hbatch e.queue.radioSource

/-- The new items that are made of the available ones of some tracks. -/
def newBatch (queueId : String) (tracks : List MediaItem) (nextItem : Nat) : List QueueItem :=
  (tracks.filter (·.available)).mapIdx fun n m =>
    QueueItem.ofMedia (newId (nextItem + n)) queueId m

variable {queueId : String} {tracks : List MediaItem}

theorem onward_append (queueId : String) (htracks : tracks ≠ []) (o : Outside) (h : Hub) :
    (append queueId tracks).run.onward o h =
      let nextItem := h.nextItem + (tracks.filter fun m => m.available).length
      let r := { h with nextItem }.load o queueId (newBatch queueId tracks h.nextItem)
        { insertAt := (h.items queueId).length }
      (.done r.1, r.2) := by
  cases tracks with
  | nil => exact absurd rfl htracks
  | cons track more => rfl

/-- Tracks for a queue that is gone are dropped. -/
theorem onward_append_of_none {h : Hub} (he : h.entry? queueId = none) (htracks : tracks ≠ [])
    (o : Outside) :
    ((append queueId tracks).run.onward o h).1 = .done (.error (.noQueue queueId)) ∧
      ∀ other, Hub.entry? ((append queueId tracks).run.onward o h).2 other = h.entry? other := by
  have hload := Hub.load_of_none
    (h := { h with nextItem := h.nextItem + (tracks.filter fun m => m.available).length }) he o
    (newBatch queueId tracks h.nextItem)
    { insertAt := (h.items queueId).length }
  rw [onward_append queueId htracks]
  dsimp only
  rw [hload]
  exact ⟨rfl, fun _ => rfl⟩

theorem onward_append_of_some {h : Hub} {e : Entry} (he : h.entry? queueId = some e)
    (htracks : tracks ≠ []) (o : Outside) :
    ((append queueId tracks).run.onward o h).1 = .done (.ok ()) ∧
      Hub.Relisted o queueId
        (e.commit e.queue
          (e.items ++ Edit.numbered e.items.length (newBatch queueId tracks h.nextItem)))
        { h with nextItem := h.nextItem + (tracks.filter fun m => m.available).length }
        ((append queueId tracks).run.onward o h).2 := by
  rw [onward_append queueId htracks, Hub.items_eq_of_entry _ _ he]
  obtain ⟨hok, hrelisted⟩ := Hub.load_at_end
    (h := { h with nextItem := h.nextItem + (tracks.filter fun m => m.available).length }) he o
    (newBatch queueId tracks h.nextItem)
  exact ⟨congrArg Program.done hok, hrelisted⟩

/-- What follows when a refill has generated its tracks, or has failed to. -/
abbrev thenAppend (queueId : String) :
    Except Failure (List MediaItem) → Program (Except Failure Unit) :=
  ExceptT.bindCont (append queueId)

theorem run_fillRadio (queueId : String) :
    (fillRadio queueId).run = (generation queueId).run.bind (thenAppend queueId) := by
  rw [fillRadio_eq]
  rfl

/-- A refill that has its tracks is over at once. -/
theorem isDone_onward_thenAppend (queueId : String) (result : Except Failure (List MediaItem))
    (o : Outside) (h : Hub) : ((thenAppend queueId result).onward o h).1.isDone := by
  cases result with
  | error failure => rfl
  | ok tracks => cases tracks <;> rfl

/-- A refill generates, and at the instant at which the tracks are there it appends them. -/
theorem goOn_refill (queueId : String) {generating : Program (Except Failure (List MediaItem))}
    (hsettles : generating.Settles) (hgoing : generating.isDone = false) (o : Outside)
    (answers : Answers) (h : Hub) :
    (generating.bind (thenAppend queueId)).goOn o answers h =
      Program.followUp (thenAppend queueId) o (generating.goOn o answers h) := by
  -- an answer or the end of a wait may be a failure, with which the refill fails too
  have hwaits : ∀ p : Program (Except Failure (List MediaItem)), ¬ p.HasEnded → ∀ h : Hub,
      (p.bind (thenAppend queueId), h) = Program.followUp (thenAppend queueId) o (p, h) := by
    intro p hp h
    cases p with
    | done result =>
      cases result with
      | error failure => rfl
      | ok tracks => exact absurd ⟨tracks, rfl⟩ hp
    | _ => rfl
  cases generating with
  | done result => cases hgoing
  | read next => exact Program.onward_bind (next o h) _ o h
  | write h' next => exact Program.onward_bind next _ o h'
  | call c next => exact hwaits (next (answers c)) (hsettles (answers c)).2 h
  | sleep ms next => exact hwaits next hsettles.2 h
  | turn next => exact hwaits next hsettles.2 _

/-- What is left of a refill generates tracks, or there is nothing left to do. -/
theorem exists_generating {p : Program (Except Failure Unit)}
    (hp : (fillRadio queueId).run.Continues p) (hgoing : p.isDone = false) :
    ∃ generating, (generation queueId).run.Continues generating ∧ generating.isDone = false ∧
      p = generating.bind (thenAppend queueId) := by
  induction hp with
  | refl => exact ⟨_, .refl, rfl, run_fillRadio queueId⟩
  | @goOn q _ o answers h ih =>
    cases hdone : q.isDone with
    | true =>
      rw [Program.goOn_of_isDone hdone, hdone] at hgoing
      cases hgoing
    | false =>
      obtain ⟨generating, hcontinues, hstill, rfl⟩ := ih hdone
      have hgoes := goOn_refill queueId (hcontinues.settles (generation_settles queueId)) hstill o
        answers h
      refine ⟨_, hcontinues.goOn o answers h, ?_⟩
      rw [hgoes] at hgoing ⊢
      generalize generating.goOn o answers h = after at hgoing ⊢
      obtain ⟨p, h'⟩ := after
      cases p with
      | done result =>
        rw [Program.followUp, isDone_onward_thenAppend] at hgoing
        cases hgoing
      | _ => exact ⟨rfl, rfl⟩

/-- While tracks are generated, all queues are left alone, and no items are made. -/
theorem goOn_generating {generating : Program (Except Failure (List MediaItem))}
    (hcontinues : (generation queueId).run.Continues generating) (o : Outside) (answers : Answers)
    (h : Hub) :
    (∀ other, Hub.entry? (generating.goOn o answers h).2 other = h.entry? other) ∧
      (generating.goOn o answers h).2.nextItem = h.nextItem := by
  have hobeys : (generation queueId).Obeys .expanding :=
    (queue_obeys queueId).bind fun q => radioBatch_obeys .background q.radioSource false
  refine ((hcontinues.yields hobeys).goOn
    (I := fun h' => (∀ other, h'.entry? other = h.entry? other) ∧ h'.nextItem = h.nextItem)
    ?_ (fun _ hkept => hkept) ⟨fun _ => rfl, rfl⟩ answers).2
  rintro a h' (⟨draws, rfl⟩ | ⟨media, rfl⟩) hkept
  · exact hkept
  · exact hkept

end Command

/-! ## What a refill does -/

/-- The queue that a job is to add radio tracks to. -/
def Job.refills? : Job → Option String
  | fillRadio queueId => some queueId
  | _ => none

theorem Job.eq_of_refills? {job : Job} {queueId : String} (hrefills : job.refills? = some queueId) :
    job = .fillRadio queueId := by
  cases job <;> cases hrefills
  rfl

/-- Whether an activity is a refill of a queue: the job, or what is left of a request for it. -/
def Activity.Refills (queueId : String) (a : Activity) : Prop :=
  a.job.bind (·.refills?) = some queueId ∨
    ((Command.fillRadio queueId).run.Continues a.program ∧ a.program.isDone = false)

/-- In a state of a session, a refill that goes on is at the generation of its tracks. -/
theorem Session.Continuing.exists_generating {s : Session} (hs : s.Continuing) {a : Activity}
    (ha : a ∈ s.active) {queueId : String} (hrefill : a.Refills queueId) :
    ∃ generating, (Command.generation queueId).run.Continues generating ∧
      generating.isDone = false ∧ a.program = generating.bind (Command.thenAppend queueId) := by
  rcases hrefill with hrefill | ⟨hcontinues, hgoing⟩
  · obtain ⟨job, hjob, hrefills⟩ := Option.bind_eq_some_iff.1 hrefill
    rw [Job.eq_of_refills? hrefills] at hjob
    obtain ⟨hcontinues, hbegun⟩ := hs a ha _ hjob
    refine Command.exists_generating hcontinues ?_
    rcases hbegun with hbegun | hgoing
    · rw [hbegun]
      rfl
    · exact hgoing
  · exact Command.exists_generating hcontinues hgoing

/-- In every state of a session a refill generates tracks. When the tracks are there, those that are
available are appended to the list as it is then, as new items with the next numbers, and the refill
is over. It touches no queue when it generates nothing, when it fails, and as long as it goes on. -/
theorem refill_only_appends (config : Config) (store : Store) (draws : Draws) (nextItem : Nat)
    (moves : List (Outside × Move)) (o : Outside) (answers : Answers) {index : Nat} {a : Activity}
    {queueId : String} :
    let s := (Session.start config store draws nextItem).instants moves
    let after := (s.instant o (.proceed index answers)).hub
    let untouched := ∀ other, after.entry? other = s.hub.entry? other
    s.active[index]? = some a → a.Refills queueId → ∃ generating,
      (Command.generation queueId).run.Continues generating ∧
      a.program = generating.bind (Command.thenAppend queueId) ∧
      let left := (a.program.goOn o answers s.hub).1
      match (generating.goOn o answers s.hub).1 with
      | .done (.error failure) => left = .done (.error failure) ∧ untouched
      | .done (.ok []) => left = .done (.ok ()) ∧ untouched
      | .done (.ok tracks) =>
        match s.hub.entry? queueId with
        | none => left = .done (.error (.noQueue queueId)) ∧ untouched
        | some e =>
          let batch := Command.newBatch queueId tracks s.hub.nextItem
          let items := e.items ++ Edit.numbered e.items.length batch
          let queue := { e.queue with enqueuedNext := none, itemCount := items.length }
          left = .done (.ok ()) ∧ after.entry? queueId = some { e with queue, items } ∧
            ∀ other, other ≠ queueId → after.entry? other = s.hub.entry? other
      | p => left = p.bind (Command.thenAppend queueId) ∧ untouched := by
  intro s after untouched ha hrefill
  have hstart : (Session.start config store draws nextItem).Continuing := fun _ ha => nomatch ha
  obtain ⟨generating, hcontinues, hgoing, hprogram⟩ :=
    (hstart.instants moves).exists_generating (List.mem_of_getElem? ha) hrefill
  refine ⟨generating, hcontinues, hprogram, ?_⟩
  have hafter : after = (a.program.goOn o answers s.hub).2 := by
    simp only [after, Session.instant, ha]
  have hgoes := Command.goOn_refill queueId
    (hcontinues.settles (Command.generation_settles queueId)) hgoing o answers s.hub
  rw [← hprogram] at hgoes
  obtain ⟨hkept, hnext⟩ := Command.goOn_generating hcontinues o answers s.hub
  dsimp only [untouched]
  rw [hafter, hgoes]
  generalize generating.goOn o answers s.hub = generated at hkept hnext ⊢
  obtain ⟨p, h'⟩ := generated
  dsimp only at hkept hnext
  cases p with
  | done result =>
    cases result with
    | error failure => exact ⟨rfl, hkept⟩
    | ok tracks =>
      cases tracks with
      | nil => exact ⟨rfl, hkept⟩
      | cons track more =>
        have htracks : track :: more ≠ [] := List.cons_ne_nil track more
        dsimp only [Program.followUp]
        cases he : s.hub.entry? queueId with
        | none =>
          obtain ⟨herror, hsame⟩ :=
            Command.onward_append_of_none ((hkept queueId).trans he) htracks o
          exact ⟨herror, fun other => (hsame other).trans (hkept other)⟩
        | some e =>
          obtain ⟨hok, hrelisted⟩ :=
            Command.onward_append_of_some ((hkept queueId).trans he) htracks o
          rw [hnext] at hrelisted
          exact ⟨hok, hrelisted.entry_eq,
            fun other hother => (hrelisted.others other hother).trans (hkept other)⟩
  | _ => exact ⟨rfl, hkept⟩

/-! ## A refill in the midst of which the list grows -/

namespace House

/-- A world with a source of similar tracks. -/
def radioWorld : Outside := { world with similarSupported := true }

/-- To every track there are three similar ones, of which one is not available. -/
def radioAnswers : Answers
  | .radioBase m => .ok [m]
  | .similarTracks _ _ => .ok [track "x", { track "y" with available := false }, track "z"]
  | c => answers c

/-- An activity goes on for some instants. -/
def radioOn (index count : Nat) : List (Outside × Move) :=
  List.replicate count (radioWorld, .proceed index radioAnswers)

def addTrack (name : String) : Outside × Move :=
  (radioWorld, .ask (.playMedia "den" [.item (track name)] (some .add) false none))

/-- A queue with one track is told to go on by itself. While its refill generates tracks, another
one is added. -/
def refill : List (Outside × Move) :=
  [(radioWorld, .register den), addTrack "a"] ++ radioOn 0 3 ++
    [(radioWorld, .ask (.setDontStop "den" true))] ++ radioOn 0 1 ++
    [(radioWorld, .start 0)] ++ radioOn 0 2 ++ [addTrack "b"] ++ radioOn 1 3 ++ radioOn 0 4

end House

/-- The two similar tracks that are available come behind the track that was added meanwhile. -/
theorem refill_only_appends_refill :
    let s := House.session.instants House.refill
    let after := (s.instant House.radioWorld (.proceed 0 House.radioAnswers)).hub
    ids (s.hub.items "den") = ["qi1", "qi2"] ∧
      (after.items "den").map (fun i => (i.id, i.uri)) =
        [("qi1", "test://track/a"), ("qi2", "test://track/b"), ("qi3", "test://track/x"),
          ("qi4", "test://track/z")] ∧
      ∃ a, s.active[0]? = some a ∧ a.Refills "den" ∧ ∃ generating,
        (Command.generation "den").run.Continues generating ∧
          a.program = generating.bind (Command.thenAppend "den") := by
  intro s after
  have hfirst : s.active[0]?.bind (fun a => a.job.bind (·.refills?)) = some "den" := by
    decide +kernel
  obtain ⟨a, ha, hrefill⟩ := Option.bind_eq_some_iff.1 hfirst
  obtain ⟨generating, hcontinues, hprogram, -⟩ :=
    refill_only_appends {} {} default 1 House.refill House.radioWorld House.radioAnswers ha
      (.inl hrefill)
  exact ⟨by decide +kernel, by decide +kernel, a, ha, .inl hrefill, generating, hcontinues,
    hprogram⟩

end Jukebox
