import Jukebox.Proofs.Runs

/-!
# What is recorded as played

A report records one item at most: the one that was the current item when the queue was last
looked at, if the report leaves it or ends the queue (`Entry.recorded?`). It then tells the streams
how long that item was heard (`tells_onReport`). What a queue remembers was seen by a report, so an
item that is recorded was the current one after an earlier report (`remembered_since`). That report
need not have found it playing: an item that was recorded when the queue ended stays remembered, and
so does one that became the current item while the player was idle, and both are recorded again when
they are left. Between two records of an item it was played if the queue is remembered as playing at
the second one, or if it left the item at the first one and finds it playing whenever it comes back
to it (`played_between_records`).
-/

namespace Jukebox

/-! ## What a report records -/

namespace Hub

/-- The item that is recorded with its stream when it was left or the queue ended. -/
def left? (items : List QueueItem) (old new : Observation) (ended : Bool) :
    Option (QueueItem × StreamDetails) :=
  old.currentItemId.bind fun itemId =>
    if new.currentItemId = some itemId ∧ !ended then none
    else (items.find? fun i => i.id = itemId).bind fun item =>
      item.stream.map fun stream => (item, stream)

theorem recordLeft_eq (h : Hub) (o : Outside) (queueId : String) (items : List QueueItem)
    (old new : Observation) (ended : Bool) :
    h.recordLeft o queueId items old new ended =
      match left? items old new ended with
      | none => h
      | some (item, stream) => h.recordPlayed o queueId item stream old.elapsed := by
  unfold recordLeft left?
  cases old.currentItemId with
  | none => rfl
  | some itemId =>
    dsimp only [Option.bind_some]
    by_cases hstays : new.currentItemId = some itemId ∧ !ended
    · rw [if_pos hstays, if_pos hstays]
    · rw [if_neg hstays, if_neg hstays]
      cases items.find? fun i => i.id = itemId with
      | none => rfl
      | some item => cases hstream : item.stream <;> simp [hstream]

/-- An item is recorded if it was the current one, and was left or the queue ended with it. -/
theorem of_left? {items : List QueueItem} {old new : Observation} {ended : Bool}
    {found : QueueItem × StreamDetails} (hleft : left? items old new ended = some found) :
    old.currentItemId = some found.1.id ∧
      (new.currentItemId = some found.1.id → ended = true) ∧ found.1 ∈ items := by
  unfold left? at hleft
  obtain ⟨itemId, hcurrent, hleft⟩ := Option.bind_eq_some_iff.1 hleft
  by_cases hstays : new.currentItemId = some itemId ∧ !ended
  · rw [if_pos hstays] at hleft
    cases hleft
  · rw [if_neg hstays] at hleft
    obtain ⟨item, hitem, hstream⟩ := Option.bind_eq_some_iff.1 hleft
    obtain ⟨stream, -, rfl⟩ := Option.map_eq_some_iff.1 hstream
    have hid : item.id = itemId := by simpa using List.find?_some hitem
    subst hid
    refine ⟨hcurrent, fun hnew => ?_, List.mem_of_find?_eq_some hitem⟩
    simpa [hnew] using hstays

theorem left?_self (items : List QueueItem) (old : Observation) :
    left? items old old false = none := by
  unfold left?
  cases old.currentItemId <;> simp

theorem endReached_self (old : Observation) (q : Queue) : endReached old old q = false := by
  unfold endReached
  cases old.state <;> rfl

end Hub

namespace Entry

/-- The item that a report records as played, with its stream. -/
def recorded? (e : Entry) (o : Outside) (r : PlayerReport) : Option (QueueItem × StreamDetails) :=
  if r.announcementInProgress ∨ ¬ Hub.Heeds r e then none
  else
    let q := Hub.reportedQueue o r e
    let old := e.remembered.getD {}
    let new := Observation.ofQueue q
    Hub.left? e.items old new (Hub.endReached old new q)

end Entry

/-! ## What the streams are told -/

/-- Whether a job tells the streams of an item that was heard. -/
def Job.isStreamed : Job → Bool
  | streamed .. => true
  | _ => false

namespace Schedule

/-- The jobs that wait to tell the streams of items that were heard. -/
def streams (s : Schedule Job) : List Job := (s.waiting.map (·.job)).filter Job.isStreamed

/-- Whether the streams are to be told of one item more than before, if there is one. -/
def Tells (s s' : Schedule Job) : Option (QueueItem × StreamDetails) → Prop
  | none => s'.streams = s.streams
  | some (_, stream) => ∃ seconds fully, s'.streams = s.streams ++ [.streamed stream seconds fully]

variable {s s' s'' : Schedule Job} {found : Option (QueueItem × StreamDetails)}

theorem streams_append (waiting : List (Waiting Job)) (w : Waiting Job) (nextNumber : Nat) :
    streams ⟨waiting ++ [w], nextNumber⟩ =
      streams ⟨waiting, nextNumber⟩ ++ [w.job].filter Job.isStreamed := by
  simp [streams]

/-- A job that takes the place of the one under its key tells the streams nothing. -/
theorem streams_later (hs : s.Orderly) (key : String) (due : Nat) {job : Job}
    (hjob : job.isStreamed = false) : (s.later key due job).streams = s.streams := by
  unfold Schedule.later
  rw [streams_append, List.filter_cons_of_neg (by simp [hjob]), List.filter_nil, List.append_nil]
  unfold streams without
  rw [List.filter_map, List.filter_map, List.filter_filter]
  congr 1
  refine List.filter_congr fun w hw => ?_
  cases hstreamed : w.job.isStreamed with
  | false => simp [hstreamed]
  | true =>
    have hkey : w.key = none := by
      rw [hs.keyed w hw]
      cases hjob : w.job with
      | streamed => rfl
      | _ => simp [hjob, Job.isStreamed] at hstreamed
    simp [hstreamed, hkey]

theorem streams_spawn (now : Nat) (job : Job) :
    (s.spawn now job).streams = s.streams ++ [job].filter Job.isStreamed :=
  streams_append s.waiting _ _

theorem Tells.of_eq (htells : s.Tells s' found) (heq : s''.streams = s'.streams) :
    s.Tells s'' found := by
  cases found with
  | none => exact heq.trans htells
  | some found =>
    obtain ⟨seconds, fully, htold⟩ := htells
    exact ⟨seconds, fully, heq.trans htold⟩

theorem Tells.eq_of (htells : s'.Tells s'' found) (heq : s'.streams = s.streams) :
    s.Tells s'' found := by
  cases found with
  | none => exact Eq.trans htells heq
  | some found =>
    obtain ⟨seconds, fully, htold⟩ := htells
    exact ⟨seconds, fully, by rw [htold, heq]⟩

end Schedule

namespace Hub

variable {h : Hub} (o : Outside)

/-- Recording an item tells the streams of it once. -/
theorem tells_recordPlayed (queueId : String) (item : QueueItem) (stream : StreamDetails)
    (elapsed : Int) :
    h.schedule.Tells (h.recordPlayed o queueId item stream elapsed).schedule
      (some (item, stream)) := by
  have hstreamed : ∀ seconds fully,
      (h.spawn o (.streamed stream seconds fully)).schedule.streams =
        h.schedule.streams ++ [.streamed stream seconds fully] :=
    fun seconds fully => Schedule.streams_spawn o.now _
  have hmarked : ∀ seconds fully report,
      ((h.spawn o (.streamed stream seconds fully)).spawn o (.markPlayed report)).schedule.streams =
        h.schedule.streams ++ [.streamed stream seconds fully] := by
    intro seconds fully report
    refine (Schedule.streams_spawn o.now _).trans ?_
    rw [hstreamed]
    exact List.append_nil _
  unfold recordPlayed
  cases item.media with
  | none => exact ⟨_, _, hstreamed _ _⟩
  | some media =>
    dsimp only
    split
    · exact ⟨_, _, hstreamed _ _⟩
    · exact ⟨_, _, hmarked _ _ _⟩

theorem streams_schedulePreload (hs : h.schedule.Orderly) {q : Queue}
    (hq : h.queue? q.id = some q) :
    (h.schedulePreload o q).schedule.streams = h.schedule.streams := by
  rw [schedule_schedulePreload o hq]
  cases q.claim? o.clock with
  | none => rfl
  | some claim => exact Schedule.streams_later hs _ _ rfl

theorem streams_currentItemChanged (hs : h.schedule.Orderly) (q : Queue) :
    (h.currentItemChanged o q).schedule.streams = h.schedule.streams := by
  have hadopt : ∀ (p : Prop) [Decidable p],
      (if p then h.adoptRequests q.id else h).schedule = h.schedule := by
    intro p _
    split
    · exact schedule_modifyQueue h q.id _
    · rfl
  unfold currentItemChanged
  split
  · rfl
  · dsimp only
    split
    · unfold scheduleRadio
      rw [schedule_later, hadopt]
      exact Schedule.streams_later hs _ _ rfl
    · rw [hadopt]

theorem tells_recordLeft (queueId : String) (items : List QueueItem) (old new : Observation)
    (ended : Bool) :
    h.schedule.Tells (h.recordLeft o queueId items old new ended).schedule
      (left? items old new ended) := by
  rw [recordLeft_eq]
  cases left? items old new ended with
  | none => rfl
  | some found => exact tells_recordPlayed o queueId found.1 found.2 old.elapsed

/-- Work that is scheduled when a queue ended or another item became the current one tells the
streams nothing. -/
theorem streams_afterwards (hs : h.schedule.Orderly) (queueId : String) (q : Queue)
    (ended changed : Bool) :
    (let g := if ended then h.scheduleClearCheck o queueId else h
      if changed then g.currentItemChanged o q else g).schedule.streams = h.schedule.streams := by
  have hended : (if ended then h.scheduleClearCheck o queueId else h).schedule.Orderly ∧
      (if ended then h.scheduleClearCheck o queueId else h).schedule.streams =
        h.schedule.streams := by
    split
    · exact ⟨hs.later _ rfl, Schedule.streams_later hs _ _ rfl⟩
    · exact ⟨hs, rfl⟩
  dsimp only
  split
  · rw [streams_currentItemChanged o hended.1, hended.2]
  · exact hended.2

/-- What follows from a report tells the streams of the item that it records, and of no other. -/
theorem tells_followReport (hs : h.schedule.Orderly) {q : Queue} (hq : h.queue? q.id = some q)
    (items : List QueueItem) (old : Observation) :
    h.schedule.Tells (h.followReport o q.id items old q).schedule
      (left? items old (Observation.ofQueue q) (endReached old (Observation.ofQueue q) q)) := by
  obtain ⟨g, hg, hpreload⟩ : ∃ g : Hub, (g.schedule.Orderly ∧
      g.schedule.streams = h.schedule.streams) ∧
        (if old.LetsPreload q then h.schedulePreload o q else h) = g := by
    refine ⟨_, ?_, rfl⟩
    split
    · refine ⟨?_, streams_schedulePreload o hs hq⟩
      rw [schedule_schedulePreload o hq]
      exact orderly_withPreload hs _ _ _
    · exact ⟨hs, rfl⟩
  have hfollow : h.followReport o q.id items old q =
      if (old.changeTo (Observation.ofQueue q)).isEmpty then g
      else
        let change := old.changeTo (Observation.ofQueue q)
        let ended := endReached old (Observation.ofQueue q) q
        let told := (g.tellChange o q.id q change (Observation.ofQueue q)).recordLeft o q.id items
          old (Observation.ofQueue q) ended
        let later := if ended then told.scheduleClearCheck o q.id else told
        if change.currentItem then later.currentItemChanged o q else later := by
    rw [← hpreload]
    rfl
  rw [hfollow]
  split
  · next hsame =>
    have hold := (Observation.changeTo_isEmpty_iff _ _).1 hsame
    rw [← hold, endReached_self, left?_self]
    exact hg.2
  · have htold : (g.tellChange o q.id q (old.changeTo (Observation.ofQueue q))
        (Observation.ofQueue q)).schedule = g.schedule := schedule_tellChange g o q.id q _ _
    refine Schedule.Tells.of_eq (Schedule.Tells.eq_of (tells_recordLeft o q.id items old _ _) ?_)
      (streams_afterwards o ?_ q.id q _ _)
    · rw [htold, hg.2]
    · refine Schedule.Orderly.grows ?_ (grows_recordLeft _ o q.id items old _ _)
      rw [htold]
      exact hg.1

/-- A report tells the streams of the item that it records, and of no other. -/
theorem tells_onReport (hs : h.schedule.Orderly) (hnamed : h.Named) (r : PlayerReport) :
    h.schedule.Tells (h.onReport o r).schedule
      ((h.entry? r.playerId).bind fun e => e.recorded? o r) := by
  cases he : h.entry? r.playerId with
  | none =>
    rw [onReport_unknown o he]
    rfl
  | some e =>
    rw [Option.bind_some]
    unfold Entry.recorded?
    by_cases hannounce : r.announcementInProgress
    · rw [onReport_announcing o hannounce, if_pos (.inl hannounce)]
      rfl
    by_cases hheeds : Heeds r e
    · obtain ⟨hq, hqueue⟩ := queue?_reportedQueue o he (hnamed _ e he)
      have horderly : (h.modifyQueue r.playerId fun _ => reportedQueue o r e).schedule.Orderly := by
        rw [schedule_modifyQueue]
        exact hs
      have htells := tells_followReport o horderly hqueue e.items (e.remembered.getD {})
      rw [schedule_modifyQueue, hq] at htells
      rw [onReport_heeded o he hannounce hheeds, if_neg (by simp [hannounce, hheeds])]
      exact htells
    · rw [onReport_unheeded o he hannounce hheeds, if_pos (.inr hheeds)]
      exact congrArg Schedule.streams (schedule_modifyQueue h r.playerId _)

end Hub

/-! ## What is remembered -/

namespace Entry

/-- What follows from a report leaves what can be seen of the queue. -/
theorem observation_followed (e : Entry) (o : Outside) (old : Observation) (q : Queue) :
    Observation.ofQueue (e.followed o old q).queue = Observation.ofQueue q := by
  obtain ⟨claim, radioSource, remembered, heq⟩ := e.followed_eq o old q
  rw [heq]
  rfl

/-- What is remembered after a report was there before it, if that was made during an announcement,
or it is what can be seen of the queue after the report. -/
theorem remembered_reported {e : Entry} {o : Outside} {r : PlayerReport} {seen : Observation}
    (hseen : (e.reported o r).remembered = some seen) :
    (r.announcementInProgress = true ∧ e.remembered = some seen) ∨
      (r.announcementInProgress = false ∧ Observation.ofQueue (e.reported o r).queue = seen) := by
  unfold reported at hseen ⊢
  cases hannounce : r.announcementInProgress with
  | true => exact .inl ⟨rfl, by simpa [hannounce] using hseen⟩
  | false =>
    right
    refine ⟨rfl, ?_⟩
    simp only [hannounce, Bool.false_eq_true, if_false] at hseen ⊢
    by_cases hheeds : Hub.Heeds r e
    · simp only [if_pos hheeds] at hseen ⊢
      rw [observation_followed]
      unfold followed at hseen
      dsimp only at hseen
      split at hseen
      · next hsame =>
        have hold := (Observation.changeTo_isEmpty_iff _ _).1 hsame
        rw [← hold, hseen]
        rfl
      · have hremembered : (if (Hub.reportedQueue o r e).active then
            some (Observation.ofQueue (Hub.reportedQueue o r e)) else none) = some seen := by
          split at hseen <;> exact hseen
        split at hremembered
        · exact Option.some.inj hremembered
        · cases hremembered
    · simp only [if_neg hheeds] at hseen
      have hnone : e.remembered = none := by
        have hforgot : ¬ e.remembered.isSome := fun h => hheeds (.inr h)
        simpa using hforgot
      rw [hnone] at hseen
      cases hseen

/-- An item that a report records is remembered as the current one. It was left, or the queue was
playing until now and is idle. -/
theorem of_recorded? {e : Entry} {o : Outside} {r : PlayerReport}
    {found : QueueItem × StreamDetails} (hrecorded : e.recorded? o r = some found) :
    ∃ old, e.remembered = some old ∧ old.currentItemId = some found.1.id ∧
      r.announcementInProgress = false ∧
      ((e.reported o r).queue.currentItem.map (·.id) = some found.1.id →
        old.state = .playing ∧ (e.reported o r).queue.state = .idle) := by
  unfold recorded? at hrecorded
  split at hrecorded
  · cases hrecorded
  · next hfollowed =>
    rw [not_or, Decidable.not_not, Bool.not_eq_true] at hfollowed
    obtain ⟨hannounce, hheeds⟩ := hfollowed
    obtain ⟨hold, hended, -⟩ := Hub.of_left? hrecorded
    obtain ⟨old, hremembered⟩ : ∃ old, e.remembered = some old := by
      cases hremembered : e.remembered with
      | none =>
        rw [hremembered] at hold
        cases hold
      | some old => exact ⟨old, rfl⟩
    rw [hremembered, Option.getD_some] at hold hended
    have hseen : Observation.ofQueue (e.reported o r).queue =
        Observation.ofQueue (Hub.reportedQueue o r e) := by
      rw [reported, if_neg (by simp [hannounce]), if_pos hheeds, observation_followed]
    refine ⟨old, hremembered, hold, hannounce, fun hcurrent => ?_⟩
    have hend := hended ((congrArg Observation.currentItemId hseen).symm.trans hcurrent)
    simp only [Hub.endReached, Bool.and_eq_true, decide_eq_true_eq] at hend
    exact ⟨hend.1.1.1, (congrArg Observation.state hseen).trans hend.1.1.2⟩

end Entry

/-- Whether an act is none of those that concern players. -/
def Act.IsInternal : Act → Prop
  | report _ => False
  | register _ => False
  | remove _ => False
  | _ => True

theorem Act.remembered_edit {a : Act} (ha : a.IsInternal) (o : Outside) (h : Hub) (e : Entry) :
    (a.edit o h e).remembered = e.remembered := by
  cases a with
  | updateItem _ itemId change =>
    simp only [edit, Entry.updateItem]
    split <;> rfl
  | moveItem _ itemId shift =>
    simp only [edit, Entry.edit]
    split <;> rfl
  | deleteItem _ key =>
    simp only [edit, Entry.edit]
    split <;> rfl
  | startOver _ =>
    simp only [edit, Entry.startOver]
    split <;> rfl
  | setShuffle _ enabled =>
    simp only [edit, Entry.setShuffle]
    split <;> rfl
  | setDontStop _ enabled =>
    simp only [edit, Entry.setDontStop]
    repeat' split
    all_goals rfl
  | logFlow _ entry =>
    simp only [edit, Entry.logFlow]
    split <;> rfl
  | report r => exact ha.elim
  | register r => exact ha.elim
  | remove playerId => exact ha.elim
  | _ => rfl

/-- An act that concerns no player leaves what is remembered of every queue. -/
theorem Hub.remembered?_apply {a : Act} (ha : a.IsInternal) (o : Outside) (h : Hub)
    (queueId : String) : (a.apply o h).remembered? queueId = h.remembered? queueId := by
  unfold remembered?
  cases htarget : a.queueId? with
  | none =>
    rw [entry?_apply_of_none o htarget (fun r hr => by subst hr; exact ha)
      fun playerId hp => by subst hp; exact ha]
  | some target =>
    rw [touches_apply o (fun r hr => by subst hr; exact ha.elim) htarget queueId]
    by_cases hq : queueId = target
    · rw [if_pos hq]
      cases h.entry? queueId with
      | none => rfl
      | some e => exact Act.remembered_edit ha o h e
    · rw [if_neg hq]

/-- The rules of programs that leave it to players to come, report and go. -/
def Rules.internal : Rules := { act := Act.IsInternal, call := fun _ => True }

theorem Rules.work_le_internal : work ≤ internal := by
  refine ⟨fun a ha => ?_, fun _ _ => trivial⟩
  cases a <;> first | exact ha | exact trivial

theorem Request.command_internal (request : Request) : request.command.Obeys .internal := by
  by_cases hup : request = .shutdown
  · subst hup
    refine shutdown_obeys ⟨?_, fun _ _ => trivial⟩ trivial
    rintro a ⟨queueId, clock, onlyActive, rfl⟩
    exact trivial
  · exact (request.command_obeys hup).within
      (Rules.le_trans Rules.command_le_work Rules.work_le_internal)

theorem Job.command_internal (job : Job) : job.command.Obeys .internal := by
  obtain ⟨queueId, hqueue⟩ := exists_namesOnly job.queueId?
  exact (job.command_works hqueue).within (Rules.le_trans Rules.confined_le Rules.work_le_internal)

/-! ## Records along a run -/

namespace Session

/-- The report of a queue's player that a move brings, with the entry that it finds. -/
def reports? (s : Session) (o : Outside) (queueId : String) : Move → Option (Entry × PlayerReport)
  | .report r =>
    if r.playerId = queueId then (s.hub.entry? queueId).map fun e => (e, r) else none
  | .register r => if r.playerId = queueId then some (s.hub.newEntry o r, r) else none
  | _ => none

/-- The item of a queue that a move records as played. -/
def recorded? (s : Session) (o : Outside) (queueId : String) (move : Move) : Option QueueItem :=
  (s.reports? o queueId move).bind fun found => (found.1.recorded? o found.2).map (·.1)

/-- The queue that a move leaves, if the move is a report of its player that is followed. -/
def followed? (s : Session) (o : Outside) (queueId : String) (move : Move) : Option Queue :=
  (s.reports? o queueId move).bind fun found =>
    if found.2.announcementInProgress then none else (s.step o move).hub.queue? queueId

/-- Whether a move is a report that records an item of a queue as played. -/
def Records (s : Session) (o : Outside) (move : Move) (queueId itemId : String) : Prop :=
  (s.recorded? o queueId move).map (·.id) = some itemId

/-- Whether a move is a report that leaves a queue with an item as its current one. -/
def Shows (s : Session) (o : Outside) (move : Move) (queueId itemId : String) : Prop :=
  ∃ q ∈ s.followed? o queueId move, q.currentItem.map (·.id) = some itemId

/-- Whether a move is a report that leaves a queue playing an item. -/
def Plays (s : Session) (o : Outside) (move : Move) (queueId itemId : String) : Prop :=
  ∃ q ∈ s.followed? o queueId move, q.state = .playing ∧ q.currentItem.map (·.id) = some itemId

/-- Whether a move is a report that makes an item the current one of a queue that was seen with
another one, or none, before. -/
def Turns (s : Session) (o : Outside) (move : Move) (queueId itemId : String) : Prop :=
  s.Shows o move queueId itemId ∧
    (s.hub.remembered? queueId).bind (·.currentItemId) ≠ some itemId

instance (s : Session) (o : Outside) (move : Move) (queueId itemId : String) :
    Decidable (s.Records o move queueId itemId) :=
  inferInstanceAs (Decidable (_ = _))

instance (s : Session) (o : Outside) (move : Move) (queueId itemId : String) :
    Decidable (s.Plays o move queueId itemId) :=
  inferInstanceAs (Decidable (∃ q ∈ s.followed? o queueId move, _))

variable {s : Session} {o : Outside} {move : Move} {queueId itemId : String}

/-- The entry after a report is the one that it found, changed as the report says. -/
theorem entry?_of_reports (hnamed : s.hub.Named) {e : Entry} {r : PlayerReport}
    (hreports : s.reports? o queueId move = some (e, r)) :
    (s.step o move).hub.entry? queueId = some (e.reported o r) := by
  cases move with
  | report r' =>
    simp only [reports?] at hreports
    by_cases hid : r'.playerId = queueId
    · rw [if_pos hid] at hreports
      obtain ⟨e', he, heq⟩ := Option.map_eq_some_iff.1 hreports
      cases heq
      have htouches := Hub.touches_onReport o r (fun e he => hnamed _ e he) queueId
      rw [if_pos hid.symm, he] at htouches
      exact htouches
    · rw [if_neg hid] at hreports
      cases hreports
  | register r' =>
    simp only [reports?] at hreports
    by_cases hid : r'.playerId = queueId
    · rw [if_pos hid] at hreports
      cases hreports
      exact (Hub.entry?_register o r queueId).trans (if_pos hid.symm)
    · rw [if_neg hid] at hreports
      cases hreports
  | _ => cases hreports

theorem followed?_of_reports (hnamed : s.hub.Named) {e : Entry} {r : PlayerReport}
    (hreports : s.reports? o queueId move = some (e, r)) :
    s.followed? o queueId move =
      if r.announcementInProgress then none else some (e.reported o r).queue := by
  rw [followed?, hreports, Option.bind_some, Hub.queue?_eq_map, entry?_of_reports hnamed hreports]
  rfl

/-- A report finds what the hub remembers of the queue, and a new player finds nothing. -/
theorem remembered_of_reports {e : Entry} {r : PlayerReport}
    (hreports : s.reports? o queueId move = some (e, r)) {seen : Observation}
    (hseen : e.remembered = some seen) : s.hub.remembered? queueId = some seen := by
  cases move with
  | report r' =>
    simp only [reports?] at hreports
    split at hreports
    · obtain ⟨e', he, heq⟩ := Option.map_eq_some_iff.1 hreports
      cases heq
      rw [Hub.remembered?, he, Option.bind_some, hseen]
    · cases hreports
  | register r' =>
    simp only [reports?] at hreports
    split at hreports
    · cases hreports
      cases hseen
    · cases hreports
  | _ => cases hreports

/-- A move that brings no report of a queue does not make it remember more. -/
theorem remembered_of_no_report (hs : s.Follows .internal) (hnamed : s.hub.Named)
    (hreports : s.reports? o queueId move = none) :
    (s.step o move).hub.remembered? queueId = s.hub.remembered? queueId ∨
      (s.step o move).hub.remembered? queueId = none := by
  have hentry : ∀ {h : Hub}, h.entry? queueId = s.hub.entry? queueId →
      h.remembered? queueId = s.hub.remembered? queueId ∨ h.remembered? queueId = none :=
    fun heq => .inl (by rw [Hub.remembered?, heq, ← Hub.remembered?])
  have hnone : ∀ {h : Hub}, h.entry? queueId = none →
      h.remembered? queueId = s.hub.remembered? queueId ∨ h.remembered? queueId = none :=
    fun heq => .inr (by rw [Hub.remembered?, heq, Option.bind_none])
  rcases (Follows.step Request.command_internal Job.command_internal hs o move).2 with
    hsame | ⟨a, ha | rfl | hmove, heq⟩
  · rw [hsame]
    exact .inl rfl
  · rw [heq]
    exact .inl (Hub.remembered?_apply ha o s.hub queueId)
  · rw [heq]
    exact .inl rfl
  · rw [heq]
    cases move with
    | report r =>
      cases hmove
      have htouches := Hub.touches_onReport o r (fun e he => hnamed _ e he) queueId
      by_cases hid : queueId = r.playerId
      · simp only [reports?, if_pos hid.symm, Option.map_eq_none_iff] at hreports
        rw [if_pos hid, hreports] at htouches
        exact hnone htouches
      · rw [if_neg hid] at htouches
        exact hentry htouches
    | register r =>
      cases hmove
      by_cases hid : queueId = r.playerId
      · simp only [reports?, if_pos hid.symm] at hreports
        cases hreports
      · exact hentry ((Hub.entry?_register o r queueId).trans (if_neg hid))
    | remove playerId =>
      cases hmove
      by_cases hid : queueId = playerId
      · exact hnone ((Hub.entry?_remove o playerId queueId).trans (if_pos hid))
      · exact hentry ((Hub.entry?_remove o playerId queueId).trans (if_neg hid))
    | start number =>
      cases hmove
      exact .inl rfl
    | _ => cases hmove

/-- What a queue remembers after a move was remembered before it, or it was seen by the report that
the move brings. -/
theorem remembered_step (hs : s.Follows .internal) (hnamed : s.hub.Named) {seen : Observation}
    (hseen : (s.step o move).hub.remembered? queueId = some seen) :
    s.hub.remembered? queueId = some seen ∨
      ∃ q ∈ s.followed? o queueId move, Observation.ofQueue q = seen := by
  cases hreports : s.reports? o queueId move with
  | some found =>
    obtain ⟨e, r⟩ := found
    rw [Hub.remembered?, entry?_of_reports hnamed hreports, Option.bind_some] at hseen
    rcases Entry.remembered_reported hseen with ⟨-, hbefore⟩ | ⟨hannounce, hqueue⟩
    · exact .inl (remembered_of_reports hreports hbefore)
    · refine .inr ⟨(e.reported o r).queue, ?_, hqueue⟩
      rw [followed?_of_reports hnamed hreports, hannounce]
      rfl
  | none =>
    rcases remembered_of_no_report hs hnamed hreports with hsame | hnone
    · exact .inl (hsame.symm.trans hseen)
    · rw [hnone] at hseen
      cases hseen

/-- An item that a report records was the current one when the queue was last looked at. It was
left, or the queue was playing until now and is idle. -/
theorem Records.seen (hrecords : s.Records o move queueId itemId) (hnamed : s.hub.Named) :
    ∃ old q, s.hub.remembered? queueId = some old ∧ old.currentItemId = some itemId ∧
      s.followed? o queueId move = some q ∧
      (q.currentItem.map (·.id) = some itemId → old.state = .playing ∧ q.state = .idle) := by
  obtain ⟨item, hitem, rfl⟩ := Option.map_eq_some_iff.1 hrecords
  obtain ⟨⟨e, r⟩, hreports, hfound⟩ := Option.bind_eq_some_iff.1 hitem
  obtain ⟨found, (hrecorded : e.recorded? o r = some found), rfl⟩ :=
    Option.map_eq_some_iff.1 hfound
  obtain ⟨old, hremembered, hold, hannounce, hstays⟩ := Entry.of_recorded? hrecorded
  refine ⟨old, (e.reported o r).queue, remembered_of_reports hreports hremembered, hold, ?_, hstays⟩
  exact (followed?_of_reports hnamed hreports).trans (if_neg (by simp [hannounce]))

/-- A report that records an item tells the streams of it, once. -/
theorem Records.told {r : PlayerReport} (hrecords : s.Records o (.report r) queueId itemId)
    (hs : s.hub.schedule.Orderly) (hnamed : s.hub.Named) :
    ∃ stream seconds fully, (s.step o (.report r)).hub.schedule.streams =
      s.hub.schedule.streams ++ [.streamed stream seconds fully] := by
  obtain ⟨item, hitem, -⟩ := Option.map_eq_some_iff.1 hrecords
  obtain ⟨⟨e, r'⟩, hreports, hfound⟩ := Option.bind_eq_some_iff.1 hitem
  obtain ⟨⟨recorded, stream⟩, hrecorded, -⟩ := Option.map_eq_some_iff.1 hfound
  simp only [reports?] at hreports
  split at hreports
  · next hid =>
    obtain ⟨e', he, heq⟩ := Option.map_eq_some_iff.1 hreports
    cases heq
    have htells := Hub.tells_onReport o hs hnamed r
    rw [hid, he, Option.bind_some, hrecorded] at htells
    exact ⟨stream, htells⟩
  · cases hreports

/-! ## From one record to the next -/

/-- Whether the move at a place of a run does something with an item of a queue, in the state that
it finds. -/
def Occurs (s : Session) (moves : List (Outside × Move)) (n : Nat)
    (P : Session → Outside → Move → String → String → Prop) (queueId itemId : String) : Prop :=
  ∃ m ∈ moves[n]?, P (s.run (moves.take n)) m.1 m.2 queueId itemId

instance (s : Session) (moves : List (Outside × Move)) (n : Nat)
    (P : Session → Outside → Move → String → String → Prop)
    [∀ s o move queueId itemId, Decidable (P s o move queueId itemId)] (queueId itemId : String) :
    Decidable (s.Occurs moves n P queueId itemId) :=
  inferInstanceAs (Decidable (∃ m ∈ moves[n]?, _))

/-- Whether in every state of a run programs leave it to players to report, and queues are kept
under their ids. -/
def Regulated (s : Session) (moves : List (Outside × Move)) : Prop :=
  ∀ n, (s.run (moves.take n)).Follows .internal ∧ (s.run (moves.take n)).hub.Named

variable {moves : List (Outside × Move)} {m n : Nat}

/-- What a queue remembers was remembered at an earlier time, or it was seen by a report since. -/
theorem Regulated.remembered_since (hs : s.Regulated moves) (hle : m ≤ n) {seen : Observation}
    (hseen : (s.run (moves.take n)).hub.remembered? queueId = some seen) :
    (s.run (moves.take m)).hub.remembered? queueId = some seen ∨
      ∃ k, m ≤ k ∧ k < n ∧ ∃ m ∈ moves[k]?,
        ∃ q ∈ (s.run (moves.take k)).followed? m.1 queueId m.2, Observation.ofQueue q = seen := by
  induction hle with
  | refl => exact .inl hseen
  | @step n hle ih =>
    have hearlier : (s.run (moves.take n)).hub.remembered? queueId = some seen →
        (s.run (moves.take m)).hub.remembered? queueId = some seen ∨
          ∃ k, m ≤ k ∧ k < n + 1 ∧ ∃ m ∈ moves[k]?,
            ∃ q ∈ (s.run (moves.take k)).followed? m.1 queueId m.2,
              Observation.ofQueue q = seen := by
      intro hbefore
      refine (ih hbefore).imp_right ?_
      rintro ⟨k, hmk, hkn, hoccurs⟩
      exact ⟨k, hmk, by omega, hoccurs⟩
    cases hmove : moves[n]? with
    | none =>
      rw [run_take_of_none s hmove] at hseen
      exact hearlier hseen
    | some found =>
      obtain ⟨o, move⟩ := found
      rw [run_take_succ s hmove] at hseen
      rcases remembered_step (hs n).1 (hs n).2 hseen with hbefore | hleaves
      · exact hearlier hbefore
      · exact .inr ⟨n, hle, by omega, (o, move), hmove, hleaves⟩

/-- An item that is remembered as the current one, and was not at an earlier time, became it by a
report since. -/
theorem Regulated.turned_since (hs : s.Regulated moves) (hle : m ≤ n)
    (hbefore : ((s.run (moves.take m)).hub.remembered? queueId).bind (·.currentItemId) ≠
      some itemId)
    (hafter : ((s.run (moves.take n)).hub.remembered? queueId).bind (·.currentItemId) =
      some itemId) :
    ∃ k, m ≤ k ∧ k < n ∧ s.Occurs moves k Turns queueId itemId := by
  induction hle with
  | refl => exact absurd hafter hbefore
  | @step n hle ih =>
    by_cases hthen : ((s.run (moves.take n)).hub.remembered? queueId).bind (·.currentItemId) =
        some itemId
    · obtain ⟨k, hmk, hkn, hturns⟩ := ih hthen
      exact ⟨k, hmk, by omega, hturns⟩
    · obtain ⟨seen, hseen, hcurrent⟩ := Option.bind_eq_some_iff.1 hafter
      cases hmove : moves[n]? with
      | none =>
        rw [run_take_of_none s hmove] at hafter
        exact absurd hafter hthen
      | some found =>
        obtain ⟨o, move⟩ := found
        rw [run_take_succ s hmove] at hseen
        rcases remembered_step (hs n).1 (hs n).2 hseen with hsame | ⟨q, hleaves, rfl⟩
        · rw [hsame, Option.bind_some] at hthen
          exact absurd hcurrent hthen
        · exact ⟨n, hle, by omega, (o, move), hmove, ⟨q, hleaves, hcurrent⟩, hthen⟩

/-- After a record of an item the queue remembers the item as the current one only if the report
left it so, and then it is idle. -/
theorem Records.remembered_after (hrecords : s.Records o move queueId itemId)
    (hnamed : s.hub.Named) {seen : Observation}
    (hseen : (s.step o move).hub.remembered? queueId = some seen)
    (hcurrent : seen.currentItemId = some itemId) :
    s.Shows o move queueId itemId ∧ seen.state = .idle := by
  obtain ⟨item, hitem, -⟩ := Option.map_eq_some_iff.1 hrecords
  obtain ⟨⟨e, r⟩, hreports, -⟩ := Option.bind_eq_some_iff.1 hitem
  obtain ⟨old, q, -, -, hfollowed, hstays⟩ := hrecords.seen hnamed
  have hleft := followed?_of_reports hnamed hreports
  rw [hfollowed] at hleft
  rw [Hub.remembered?, entry?_of_reports hnamed hreports, Option.bind_some] at hseen
  rcases Entry.remembered_reported hseen with ⟨hannounced, -⟩ | ⟨hannounce, hqueue⟩
  · rw [if_pos hannounced] at hleft
    cases hleft
  · rw [if_neg (by simp [hannounce])] at hleft
    cases hleft
    subst hqueue
    exact ⟨⟨_, hfollowed, hcurrent⟩, (hstays hcurrent).2⟩

theorem regulated_start (config : Config) (store : Store) (draws : Draws) (nextItem : Nat)
    (moves : List (Outside × Move)) :
    (start config store draws nextItem).Regulated moves :=
  fun _ =>
    ⟨Follows.run Request.command_internal Job.command_internal
      (follows_start .internal config store draws nextItem) _,
      named_run config store draws nextItem _⟩

/-- Between two records of an item it was seen as the current one, at the first of them or later. If
the queue is remembered as playing at the second one, if that is made at the end of the queue, or if
the first one found the item left and every report that comes back to it finds it playing, then it
was played between them. -/
theorem played_between_records (config : Config) (store : Store) (draws : Draws) (nextItem : Nat)
    (moves : List (Outside × Move)) {queueId itemId : String} {i j : Nat} (hij : i < j) :
    let s := start config store draws nextItem
    s.Occurs moves i Records queueId itemId → s.Occurs moves j Records queueId itemId →
      (∃ k, i ≤ k ∧ k < j ∧ s.Occurs moves k Shows queueId itemId) ∧
      ((∃ seen, (s.run (moves.take j)).hub.remembered? queueId = some seen ∧
            seen.state = .playing) ∨
          s.Occurs moves j Shows queueId itemId ∨
          (¬ s.Occurs moves i Shows queueId itemId ∧
            ∀ k, i < k → k < j → s.Occurs moves k Turns queueId itemId →
              s.Occurs moves k Plays queueId itemId) →
        ∃ k, i < k ∧ k < j ∧ s.Occurs moves k Plays queueId itemId) := by
  intro s hfirst hsecond
  have hs : s.Regulated moves := regulated_start config store draws nextItem moves
  obtain ⟨⟨o, move⟩, hmove, hrecords⟩ := hfirst
  obtain ⟨⟨o', move'⟩, hmove', hrecords'⟩ := hsecond
  obtain ⟨old, q, hold, hcurrent, hfollowed, hstays⟩ := hrecords'.seen (hs j).2
  -- Only an idle player is seen with the item right after the first record.
  have hafter : ∀ {seen}, (s.run (moves.take (i + 1))).hub.remembered? queueId = some seen →
      seen.currentItemId = some itemId →
        (s.run (moves.take i)).Shows o move queueId itemId ∧ seen.state = .idle := by
    intro seen hseen hthis
    rw [run_take_succ s hmove] at hseen
    exact hrecords.remembered_after (hs i).2 hseen hthis
  have hsince := hs.remembered_since (show i + 1 ≤ j by omega) hold
  have hplays : old.state = .playing →
      ∃ k, i < k ∧ k < j ∧ s.Occurs moves k Plays queueId itemId := by
    intro hplaying
    rcases hsince with hbefore | ⟨k, hik, hkj, m, hm, q, hfollowed, rfl⟩
    · have hidle := (hafter hbefore hcurrent).2
      rw [hplaying] at hidle
      cases hidle
    · exact ⟨k, hik, hkj, m, hm, q, hfollowed, hplaying, hcurrent⟩
  constructor
  · rcases hsince with hbefore | ⟨k, hik, hkj, m, hm, q, hfollowed, rfl⟩
    · exact ⟨i, Nat.le_refl i, hij, (o, move), hmove, (hafter hbefore hcurrent).1⟩
    · exact ⟨k, by omega, hkj, m, hm, q, hfollowed, hcurrent⟩
  · rintro (⟨seen, hseen, hplaying⟩ | hshows | ⟨hgone, hturns⟩)
    · rw [hold] at hseen
      cases hseen
      exact hplays hplaying
    · obtain ⟨m, hthis, q', hfollowed', hcurrent'⟩ := hshows
      rw [hmove'] at hthis
      cases hthis
      rw [hfollowed] at hfollowed'
      cases hfollowed'
      exact hplays (hstays hcurrent').1
    · have hnot : ((s.run (moves.take (i + 1))).hub.remembered? queueId).bind (·.currentItemId) ≠
          some itemId := by
        intro hthen
        obtain ⟨seen, hseen, hthis⟩ := Option.bind_eq_some_iff.1 hthen
        exact hgone ⟨(o, move), hmove, (hafter hseen hthis).1⟩
      obtain ⟨k, hik, hkj, hturned⟩ := hs.turned_since (show i + 1 ≤ j by omega) hnot
        (by rw [hold]; exact hcurrent)
      exact ⟨k, hik, hkj, hturns k hik hkj hturned⟩

end Session

/-! ## An item recorded twice -/

/-- A queue plays its items in turn, and its first one twice. -/
def House.playAgain : List (Outside × Move) :=
  fill ["a", "b"] ++ request (.playIndex "den" (.index 0) 0 false false) ++
    [(world, .report (playing "qi1" 100)), (world, .report (playing "qi2" 1))] ++
    request (.playIndex "den" (.index 0) 0 false false) ++
    [(world, .report (playing "qi1" 100)), (world, .report (playing "qi2" 1))]

/-- A queue ends with its second item, and goes on with its first one. -/
def House.goBack : List (Outside × Move) :=
  fill ["a", "b"] ++ request (.playIndex "den" (.index 1) 0 false false) ++
    [(world, .report (playing "qi2" 178)), (world, .report den)] ++
    request (.playIndex "den" (.index 0) 0 false false) ++
    [(world, .report (playing "qi1" 1))]

/-- The first item is recorded whenever the queue goes on to the second one, and it was played
between. -/
theorem first_item_played_again :
    House.session.Occurs House.playAgain 44 Session.Records "den" "qi1" ∧
      House.session.Occurs House.playAgain 67 Session.Records "den" "qi1" ∧
      ∃ k, 44 < k ∧ k < 67 ∧
        House.session.Occurs House.playAgain k Session.Plays "den" "qi1" := by
  have hfirst : House.session.Occurs House.playAgain 44 Session.Records "den" "qi1" := by
    decide +kernel
  have hsecond : House.session.Occurs House.playAgain 67 Session.Records "den" "qi1" := by
    decide +kernel
  have hplaying : ((House.session.run (House.playAgain.take 67)).hub.remembered? "den").map
      (·.state) = some .playing := by
    decide +kernel
  refine ⟨hfirst, hsecond, ?_⟩
  exact (Session.played_between_records {} {} default 1 House.playAgain (by omega) hfirst
    hsecond).2 (.inl (Option.map_eq_some_iff.1 hplaying))

/-- The second item is recorded when the queue ends with it, and again when the queue goes on to the
first one, and the streams are told of it twice. It was not played between. -/
theorem second_item_recorded_twice :
    House.session.Occurs House.goBack 44 Session.Records "den" "qi2" ∧
      House.session.Occurs House.goBack 66 Session.Records "den" "qi2" ∧
      (House.session.run House.goBack).hub.schedule.streams.length = 2 ∧
      ¬ ∃ k, 44 < k ∧ k < 66 ∧
        House.session.Occurs House.goBack k Session.Plays "den" "qi2" := by
  refine ⟨by decide +kernel, by decide +kernel, by decide +kernel, ?_⟩
  rintro ⟨k, hfirst, hsecond, hplays⟩
  have hnever : ∀ k < 66, 44 < k →
      ¬ House.session.Occurs House.goBack k Session.Plays "den" "qi2" := by
    decide +kernel
  exact hnever k hsecond hfirst hplays

end Jukebox
