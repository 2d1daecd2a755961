import Jukebox.Proofs.Runs

/-!
# The course of a hand-over

A job that hands over the next item of a queue looks an item up, sees that the item is not the one
marked as handed over, sends it to the player, marks it, and ends the claim of the queue.
`Command.Handing` says how far a job is and what it has seen. All that others do meanwhile leaves
that true, as long as they set no mark: they may take it away at any time (`Hub.Fades`).
-/

namespace Jukebox

/-! ## Marks and claims -/

namespace Hub

/-- The item that a queue has claimed for a preload. -/
def preloading? (h : Hub) (queueId : String) : Option String :=
  (h.queue? queueId).bind (·.preloading)

/-- The item of a queue that is marked as handed over. -/
def marked? (h : Hub) (queueId : String) : Option String :=
  (h.queue? queueId).bind (·.enqueuedNext)

/-- Whether a queue that was there still is, with the mark it had or with none. -/
def Fades (queueId : String) (h h' : Hub) : Prop :=
  h.contains queueId → h'.contains queueId ∧
    (h'.marked? queueId = h.marked? queueId ∨ h'.marked? queueId = none)

/-- Whether a queue is there and an item is not marked as handed over. -/
def Unmarked (h : Hub) (queueId itemId : String) : Prop :=
  h.contains queueId ∧ h.marked? queueId ≠ some itemId

variable {h h' : Hub} {queueId : String}

theorem marked?_of_entry {e : Entry} (he : h.entry? queueId = some e) :
    h.marked? queueId = e.queue.enqueuedNext := by
  rw [marked?, queue?_eq_map, he]
  rfl

theorem preloading?_of_entry {e : Entry} (he : h.entry? queueId = some e) :
    h.preloading? queueId = e.queue.preloading := by
  rw [preloading?, queue?_eq_map, he]
  rfl

theorem preloading?_of_unknown (he : h.entry? queueId = none) : h.preloading? queueId = none := by
  rw [preloading?, queue?_eq_map, he]
  rfl

theorem contains_of_entry {e : Entry} (he : h.entry? queueId = some e) : h.contains queueId := by
  rw [contains, he]
  rfl

theorem Fades.of_eq (heq : h'.entry? queueId = h.entry? queueId) : Fades queueId h h' := by
  intro hknown
  rw [contains, marked?, queue?_eq_map, heq]
  exact ⟨hknown, .inl rfl⟩

theorem Unmarked.fades {itemId : String} (hfresh : h.Unmarked queueId itemId)
    (hfades : Fades queueId h h') : h'.Unmarked queueId itemId := by
  obtain ⟨hknown, hmark⟩ := hfades hfresh.1
  refine ⟨hknown, ?_⟩
  rcases hmark with hsame | hnone
  · rw [hsame]
    exact hfresh.2
  · rw [hnone]
    exact fun hsome => nomatch hsome

end Hub

/-! ## The stops of a hand-over -/

namespace Command

variable (queueId : String)

/-- An item is marked as handed over. -/
def markItem (item : QueueItem) : Command Unit := do
  let _ ← modifyQueue queueId fun q => { q with enqueuedNext := some item.id }

/-- An item is sent to the player, to be played from an address. -/
def sendItem (item : QueueItem) (url : String) : Command Unit := do
  call (.enqueueNext queueId (PlayerMedia.ofItem url item false))
  markItem queueId item

def addressItem (item : QueueItem) : Command Unit := do
  sendItem queueId item (← look fun o _ => o.streamUrl item false)

/-- What is done with an item once the queue is seen. -/
def give (item : QueueItem) : Option Entry → Command Unit
  | none => throw (.noQueue queueId)
  | some e =>
    if e.queue.enqueuedNext = some item.id then pure ()
    else if !e.queue.flowMode then addressItem queueId item
    else markItem queueId item

/-- What is done with the item that was looked up. -/
def giveItem (item : QueueItem) : Command Unit := do
  give queueId item (← look fun _ h => h.entry? queueId)

/-- The claim of the queue ends, and with it the job. -/
def endClaim (result : Except Failure Unit) : Command Unit := do
  change fun _ h => h.modifyQueue queueId fun q => { q with preloading := none }
  match result with
  | .ok () => pure ()
  | .error failure => throw failure

/-- How far a hand-over is, up to the end of the claim. -/
inductive Handing (h : Hub) : Program (Except Failure Unit) → Prop
  | lookingUp {p : Program (Except Failure QueueItem)}
      (hp : p.Yields .lookup (fun _ => True) none) :
      Handing h (p.bind (ExceptT.bindCont (giveItem queueId)))
  | addressing (item : QueueItem) (hfresh : h.Unmarked queueId item.id) :
      Handing h (addressItem queueId item).run
  | sending (item : QueueItem) (url : String) (hfresh : h.Unmarked queueId item.id) :
      Handing h (sendItem queueId item url).run
  | marking (item : QueueItem) (hknown : h.contains queueId) :
      Handing h (markItem queueId item).run
  | finished (result : Except Failure Unit) : Handing h (.done result)

/-- The rest of a job that hands over an item. -/
def untilEnd (p : Program (Except Failure Unit)) : Program (Except Failure Unit) :=
  p.bind fun result => (endClaim queueId result).run

variable {queueId} {h h' : Hub} {p : Program (Except Failure Unit)}

theorem enqueueNext_eq (currentItemId : String) :
    enqueueNext queueId currentItemId =
      loadNextItem queueId currentItemId >>= giveItem queueId := by
  refine congrArg (loadNextItem queueId currentItemId >>= ·) (funext fun item => ?_)
  refine congrArg (ExceptT.mk ∘ Program.read) (funext fun o => funext fun h => ?_)
  dsimp only [Program.bind]
  cases h.entry? queueId <;> rfl

/-- A job begins by looking the item up. -/
theorem handing_preload (h : Hub) (currentItemId : String) :
    ∃ p, Handing queueId h p ∧ (preload queueId currentItemId).run = untilEnd queueId p := by
  have hlookup := (loadNextItem_obeys queueId currentItemId).within
    (Rules.le_trans Rules.confined_le Rules.loading_le_lookup)
  refine ⟨_, .lookingUp hlookup.yields_run, ?_⟩
  have hrun : (preload queueId currentItemId).run =
      ((enqueueNext queueId currentItemId).run.bind fun result =>
        Program.done (Except.ok result)).bind (ExceptT.bindCont (endClaim queueId)) := rfl
  rw [hrun, Program.bind_assoc, enqueueNext_eq]
  rfl

/-- After it has seen the queue, a job is over, or goes on to send the item or to mark it. -/
theorem handing_give (h : Hub) (item : QueueItem) :
    Handing queueId h (give queueId item (h.entry? queueId)).run := by
  cases he : h.entry? queueId with
  | none => exact .finished _
  | some e =>
    have hknown : h.contains queueId := h.contains_of_entry he
    by_cases hsame : e.queue.enqueuedNext = some item.id
    · rw [give, if_pos hsame]
      exact .finished _
    · rw [give, if_neg hsame]
      cases hflow : e.queue.flowMode with
      | true => exact .marking item hknown
      | false =>
        refine .addressing item ⟨hknown, ?_⟩
        rw [h.marked?_of_entry he]
        exact hsame

theorem Handing.ne_write (hp : Handing queueId h p) (h' : Hub)
    (rest : Program (Except Failure Unit)) : p ≠ .write h' rest := by
  cases hp with
  | @lookingUp p hp =>
    cases p with
    | done result => cases result <;> exact fun hwrite => nomatch hwrite
    | write => exact hp.elim
    | _ => exact fun hwrite => nomatch hwrite
  | _ => exact fun hwrite => nomatch hwrite

theorem Handing.fades (hp : Handing queueId h p) (hfades : Hub.Fades queueId h h') :
    Handing queueId h' p := by
  cases hp with
  | lookingUp hp => exact .lookingUp hp
  | addressing item hfresh => exact .addressing item (hfresh.fades hfades)
  | sending item url hfresh => exact .sending item url (hfresh.fades hfades)
  | marking item hknown => exact .marking item (hfades hknown).1
  | finished result => exact .finished result

theorem advance_markItem {item : QueueItem} (hknown : h.contains queueId) (o : Outside)
    (answers : Answers) :
    (markItem queueId item).run.advance o answers h =
      (.done (.ok ()), (Act.modify queueId (.handOver item.id)).apply o h) := by
  obtain ⟨e, he⟩ := Option.isSome_iff_exists.1 hknown
  have hq : h.queue? queueId = some e.queue := by rw [Hub.queue?_eq_map, he]; rfl
  simp only [Program.advance, markItem, modifyQueue, step, ExceptT.run_bind, ExceptT.run_mk,
    Program.instant, Program.bind_eq, Program.bind, hq]
  rfl

/-- A hand-over goes on by acts of a command, or marks the item. -/
theorem Handing.advance (hp : Handing queueId h p) (hgoing : p.isDone = false) (o : Outside)
    (answers : Answers) :
    Handing queueId (p.advance o answers h).2 (p.advance o answers h).1 ∧
      (((p.advance o answers h).2 = h ∨
          ∃ a : Act, a.ByCommand ∧ (p.advance o answers h).2 = a.apply o h) ∨
        ∃ itemId, (p.advance o answers h).2 =
          (Act.modify queueId (.handOver itemId)).apply o h) := by
  cases hp with
  | @lookingUp p hp =>
    cases p with
    | done result =>
      cases result with
      | error failure => cases hgoing
      | ok item =>
        have hadvance :
            ((Program.done (.ok item)).bind (ExceptT.bindCont (giveItem queueId))).advance o
              answers h = ((give queueId item (h.entry? queueId)).run, h) :=
          Program.advance_read (handing_give h item).ne_write answers
        rw [hadvance]
        exact ⟨handing_give h item, .inl (.inl rfl)⟩
    | _ =>
      rw [Program.advance_bind rfl o answers h fun result _ h' rest => ?_]
      · obtain ⟨hnext, hhub⟩ := hp.advance o answers h
        refine ⟨.lookingUp hnext, .inl (hhub.imp_right ?_)⟩
        rintro ⟨a, ⟨target, itemId, change, rfl⟩ | rfl, heq⟩
        · exact ⟨.updateItem target itemId change, trivial, heq⟩
        · exact ⟨.takeTurn, trivial, heq⟩
      · exact (Handing.lookingUp (h := h) (p := .done result) trivial).ne_write h' rest
  | addressing item hfresh => exact ⟨.sending item _ hfresh, .inl (.inl rfl)⟩
  | sending item url hfresh =>
    have hadvance : (sendItem queueId item url).run.advance o answers h =
        (ExceptT.bindCont (fun _ => markItem queueId item)
          (answers (.enqueueNext queueId (PlayerMedia.ofItem url item false))), h) := rfl
    rw [hadvance]
    refine ⟨?_, .inl (.inl rfl)⟩
    cases answers (.enqueueNext queueId (PlayerMedia.ofItem url item false)) with
    | error failure => exact .finished _
    | ok _ => exact .marking item hfresh.1
  | marking item hknown =>
    rw [advance_markItem hknown]
    exact ⟨.finished _, .inr ⟨item.id, rfl⟩⟩
  | finished result => cases hgoing

theorem isDone_untilEnd (queueId : String) (p : Program (Except Failure Unit)) :
    (untilEnd queueId p).isDone = false := by
  cases p <;> rfl

/-- A job that is not over yet goes on with the hand-over. -/
theorem advance_untilEnd (hgoing : p.isDone = false) (o : Outside) (answers : Answers) (h : Hub) :
    (untilEnd queueId p).advance o answers h =
      (untilEnd queueId (p.advance o answers h).1, (p.advance o answers h).2) := by
  refine Program.advance_bind hgoing o answers h fun result _ h' rest hwrite => ?_
  cases hwrite

/-- At the end of a job the claim of its queue ends. -/
theorem advance_endClaim (result : Except Failure Unit) (o : Outside) (answers : Answers)
    (h : Hub) :
    (untilEnd queueId (.done result)).advance o answers h =
      (.done result, (Act.modify queueId .release).apply o h) := by
  cases result <;> rfl

/-- A job calls the player with an item that is not marked, and goes on to mark it. -/
theorem Handing.of_call (hp : Handing queueId h p) {target : String} {media : PlayerMedia}
    {next : Call.Reply (.enqueueNext target media) → Program (Except Failure Unit)}
    (hcall : untilEnd queueId p = .call (.enqueueNext target media) next) :
    target = queueId ∧ ∃ item : QueueItem, media.queueItemId = some item.id ∧
      h.Unmarked queueId item.id ∧
      ∀ answer, next (.ok answer) = untilEnd queueId (markItem queueId item).run := by
  cases hp with
  | @lookingUp p hp =>
    cases p with
    | done result => cases result <;> cases hcall
    | call c next =>
      injection hcall with hc
      subst hc
      exact absurd trivial hp.1
    | _ => cases hcall
  | sending item url hfresh =>
    cases hcall
    exact ⟨rfl, item, rfl, hfresh, fun _ => rfl⟩
  | _ => cases hcall

end Command

/-! ## What acts do to marks and claims -/

/-- What a report claims was not claimed before. -/
theorem Entry.preloading_of_claim (e : Entry) {o : Outside} {r : PlayerReport}
    {claim : QueueItem × QueueItem} (hclaim : e.claim? o r = some claim) :
    e.queue.preloading = none := by
  unfold Entry.claim? at hclaim
  split at hclaim
  · cases hclaim
  · rw [← (Hub.reportedQueue_eq o r e).2.2.1]
    unfold Queue.claim? at hclaim
    split at hclaim
    · cases hclaim
    · next hfree => simpa using hfree

/-- Whether an entry has the claim it had, and the mark it had or none. -/
structure Entry.Spares (e e' : Entry) : Prop where
  claim : e'.queue.preloading = e.queue.preloading
  mark : e'.queue.enqueuedNext = e.queue.enqueuedNext ∨ e'.queue.enqueuedNext = none

theorem QueueChange.spares_apply {change : QueueChange} (hchange : change.ByCommand) (q : Queue) :
    (change.apply q).preloading = q.preloading ∧
      ((change.apply q).enqueuedNext = q.enqueuedNext ∨ (change.apply q).enqueuedNext = none) := by
  cases change with
  | handOver itemId => exact hchange.elim
  | release => exact hchange.elim
  | buffer index item flow => exact ⟨rfl, .inr rfl⟩
  | settle prior =>
    simp only [QueueChange.apply, Queue.settle]
    split <;> exact ⟨rfl, .inl rfl⟩
  | arrive prior loaded =>
    simp only [QueueChange.apply, Queue.settle]
    split <;> exact ⟨rfl, .inl rfl⟩
  | keepPosition clock onlyActive =>
    simp only [QueueChange.apply]
    split <;> exact ⟨rfl, .inl rfl⟩
  | _ => exact ⟨rfl, .inl rfl⟩

theorem Act.ByCommand.addsWork {a : Act} (ha : a.ByCommand) : a.AddsWork := by
  cases a <;> first | exact ha | trivial

/-- A command never claims an item and never marks one. -/
theorem Act.spares_edit {a : Act} (ha : a.ByCommand) (o : Outside) (h : Hub) (e : Entry) :
    e.Spares (a.edit o h e) := by
  cases a with
  | modify queueId change =>
    exact ⟨(change.spares_apply ha e.queue).1, (QueueChange.spares_apply ha e.queue).2⟩
  | updateItem queueId itemId change =>
    simp only [edit, Entry.updateItem]
    split <;> exact ⟨rfl, .inl rfl⟩
  | load queueId batch options => exact ⟨rfl, .inr rfl⟩
  | moveItem queueId itemId shift =>
    simp only [edit, Entry.edit]
    split
    · exact ⟨rfl, .inr rfl⟩
    · exact ⟨rfl, .inl rfl⟩
  | deleteItem queueId key =>
    simp only [edit, Entry.edit]
    split
    · exact ⟨rfl, .inr rfl⟩
    · exact ⟨rfl, .inl rfl⟩
  | startOver queueId =>
    simp only [edit, Entry.startOver]
    split <;> exact ⟨rfl, .inl rfl⟩
  | setShuffle queueId enabled =>
    simp only [edit, Entry.setShuffle]
    split
    · exact ⟨rfl, .inl rfl⟩
    · exact ⟨rfl, .inr rfl⟩
  | setDontStop queueId enabled =>
    simp only [edit, Entry.setDontStop]
    split
    · exact ⟨rfl, .inl rfl⟩
    · split <;> exact ⟨rfl, .inl rfl⟩
  | logFlow queueId entry =>
    simp only [edit, Entry.logFlow]
    split <;> exact ⟨rfl, .inl rfl⟩
  | report r => exact ha.elim
  | clear queueId => exact ⟨rfl, .inr rfl⟩
  | _ => exact ⟨rfl, .inl rfl⟩

namespace Hub

/-- Whether a queue has the claim it had and the jobs for it, and the mark it had or none. -/
structure Spares (queueId : String) (h h' : Hub) : Prop where
  fades : Fades queueId h h'
  claim : h'.preloading? queueId = h.preloading? queueId
  jobs : h'.schedule.preloads queueId = h.schedule.preloads queueId

variable {h h' : Hub} {queueId : String} (o : Outside)

theorem Spares.of_eq (hentry : h'.entry? queueId = h.entry? queueId)
    (hjobs : h'.schedule.preloads queueId = h.schedule.preloads queueId) :
    Spares queueId h h' where
  fades := .of_eq hentry
  claim := by rw [preloading?, preloading?, queue?_eq_map, queue?_eq_map, hentry]
  jobs := hjobs

theorem Spares.of_entry {f : Entry → Entry} (hspares : ∀ e, Entry.Spares e (f e))
    (hentry : h'.entry? queueId = (h.entry? queueId).map f)
    (hjobs : h'.schedule.preloads queueId = h.schedule.preloads queueId) :
    Spares queueId h h' := by
  cases he : h.entry? queueId with
  | none =>
    rw [he] at hentry
    exact .of_eq (hentry.trans he.symm) hjobs
  | some e =>
    rw [he] at hentry
    refine ⟨fun _ => ⟨contains_of_entry hentry, ?_⟩, ?_, hjobs⟩
    · rw [marked?_of_entry hentry, marked?_of_entry he]
      exact (hspares e).mark
    · rw [preloading?_of_entry hentry, preloading?_of_entry he]
      exact (hspares e).claim

theorem spares_apply (hnamed : h.Named) (hs : h.schedule.Orderly) {a : Act} (ha : a.ByCommand)
    (queueId : String) : Spares queueId h (a.apply o h) := by
  have hjobs := Schedule.preloads_grows hs (fun _ => id) (grows_apply o ha.addsWork) queueId
  cases htarget : a.queueId? with
  | none =>
    refine .of_eq (entry?_apply_of_none o htarget ?_ ?_ queueId) hjobs
    · rintro r rfl
      exact ha
    · rintro playerId rfl
      exact ha
  | some target =>
    have hentry := touches_apply o (fun _ _ => hnamed) htarget queueId
    by_cases hq : queueId = target
    · rw [if_pos hq] at hentry
      exact .of_entry (fun e => Act.spares_edit ha o h e) hentry hjobs
    · rw [if_neg hq] at hentry
      exact .of_eq hentry hjobs

/-- A change of one queue spares the others. -/
theorem spares_modify {target : String} (hq : queueId ≠ target) (change : QueueChange) :
    Spares queueId h ((Act.modify target change).apply o h) := by
  refine .of_eq ?_ (by simp [Act.apply])
  simp [Act.apply, hq]

theorem marked?_handOver (hknown : h.contains queueId) (itemId : String) :
    marked? ((Act.modify queueId (.handOver itemId)).apply o h) queueId = some itemId := by
  obtain ⟨e, he⟩ := Option.isSome_iff_exists.1 hknown
  simp [Act.apply, marked?, queue?_eq_map, he, QueueChange.apply]

theorem preloading?_handOver (itemId : String) :
    preloading? ((Act.modify queueId (.handOver itemId)).apply o h) queueId =
      h.preloading? queueId := by
  cases he : h.entry? queueId <;>
    simp [Act.apply, preloading?, queue?_eq_map, he, QueueChange.apply]

theorem preloading?_release :
    preloading? ((Act.modify queueId .release).apply o h) queueId = none := by
  cases he : h.entry? queueId <;>
    simp [Act.apply, preloading?, queue?_eq_map, he, QueueChange.apply]

/-! ## Reports -/

theorem fades_onReport (hnamed : h.Named) (r : PlayerReport) (queueId : String) :
    Fades queueId h (h.onReport o r) := by
  have hentry := touches_onReport o r (fun e he => hnamed _ e he) queueId
  by_cases hq : queueId = r.playerId
  · subst hq
    rw [if_pos rfl] at hentry
    intro hknown
    obtain ⟨e, he⟩ := Option.isSome_iff_exists.1 hknown
    rw [he] at hentry
    refine ⟨contains_of_entry hentry, .inl ?_⟩
    rw [marked?_of_entry hentry, marked?_of_entry he]
    exact (e.reported_eq o r).2.2.1
  · rw [if_neg hq] at hentry
    exact .of_eq hentry

theorem preloads_withPreload {s : Schedule Job} (hs : s.Orderly) {target : String}
    (hq : queueId ≠ target) (now : Nat) (claim : Option (QueueItem × QueueItem)) :
    (withPreload s now target claim).preloads queueId = s.preloads queueId := by
  cases claim with
  | none => rfl
  | some claim =>
    exact Schedule.preloads_later hs now rfl fun hkey => hq ((String.append_right_inj _).1 hkey).symm

/-- A report leaves the claim of a queue and the jobs for it alone, or it makes a claim where there
was none, and one job wait. -/
theorem claims_onReport (hnamed : h.Named) (hs : h.schedule.Orderly) (r : PlayerReport)
    (queueId : String) :
    (preloading? (h.onReport o r) queueId = h.preloading? queueId ∧
        (h.onReport o r).schedule.preloads queueId = h.schedule.preloads queueId) ∨
      (h.preloading? queueId = none ∧ (preloading? (h.onReport o r) queueId).isSome ∧
        ((h.onReport o r).schedule.preloads queueId).length = 1) := by
  have hentry := touches_onReport o r (fun e he => hnamed _ e he) queueId
  cases he : h.entry? r.playerId with
  | none =>
    rw [onReport_unknown o he]
    exact .inl ⟨rfl, rfl⟩
  | some e =>
    have hjobs := Schedule.preloads_grows (orderly_withPreload hs o.now r.playerId _)
      (fun _ hjob => hjob.1.preloads?) (grows_onReport o he (hnamed _ e he)) queueId
    by_cases hq : queueId = r.playerId
    · subst hq
      rw [if_pos rfl, he] at hentry
      have hclaim := e.preloading_reported o r
      rw [preloading?_of_entry hentry, preloading?_of_entry he]
      cases hnew : e.claim? o r with
      | none =>
        rw [hnew] at hjobs hclaim
        exact .inl ⟨hclaim, hjobs⟩
      | some claim =>
        rw [hnew] at hjobs hclaim
        rw [hjobs, hclaim]
        refine .inr ⟨e.preloading_of_claim hnew, rfl, ?_⟩
        rw [withPreload, Schedule.preloads_later_preload hs]
        rfl
    · rw [if_neg hq] at hentry
      rw [preloads_withPreload hs hq] at hjobs
      exact .inl ⟨(Spares.of_eq hentry hjobs).claim, hjobs⟩

/-! ## New players -/

/-- No claim is stored. -/
theorem preloading_of_decode {j : Json} {q : Queue} (hq : (decode j : Option Queue) = some q) :
    q.preloading = none := by
  have hbind : ∀ {α : Type} {x : Option α} {f : α → Option Queue},
      (∀ a q, f a = some q → q.preloading = none) →
      ∀ q, (x >>= f) = some q → q.preloading = none := by
    intro α x f hf q hq
    obtain ⟨a, -, ha⟩ := Option.bind_eq_some_iff.1 hq
    exact hf a q ha
  refine hbind (fun parts q hq => ?_) q hq
  split at hq
  · revert q
    iterate 21 refine hbind fun _ => ?_
    intro q hq
    cases hq
    rfl
  · cases hq

theorem preloading_of_restored? {queueId : String} {q : Queue} {items : List QueueItem}
    (hrestored : h.restored? o queueId = some (q, items)) : q.preloading = none := by
  obtain ⟨text, stored, -, hstored, -, -, rfl⟩ := (restored?_eq_some_iff o).1 hrestored
  obtain ⟨j, -, hj⟩ := Option.bind_eq_some_iff.1 hstored
  have hnone := preloading_of_decode hj
  exact hnone

theorem preloading_newEntry (r : PlayerReport) : (h.newEntry o r).queue.preloading = none := by
  unfold newEntry registered
  rcases hrestored : h.restored? o r.playerId with _ | ⟨q, items⟩
  · rfl
  · have hnone := preloading_of_restored? o hrestored
    exact hnone

end Hub

end Jukebox
