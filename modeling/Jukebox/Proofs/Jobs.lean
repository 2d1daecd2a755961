import Jukebox.Proofs.Invariants

/-!
# What acts do to the jobs that wait

A job waits under the key that belongs to it, one for each kind of job and each queue, and every job
has a number below the next one (`Schedule.Orderly`). Most acts only add jobs of some kinds, which
leaves those that wait under the keys of other kinds as they are (`Schedule.Grows`), and the jobs
that an act for one queue adds are for that queue (`grows_minorFor_apply`). Jobs that hand over the
next item are made to wait by reports alone, and exactly when a report claims an item
(`grows_onReport`).
-/

namespace Jukebox

namespace Job

/-! ## Keys -/

/-- The key that a job waits under, none for one that is to start at once. -/
def key? : Job → Option String
  | dispatch queueId _ => some (dispatchKey queueId)
  | preload queueId _ => some (preloadKey queueId)
  | fillRadio queueId => some (fillRadioKey queueId)
  | clearCheck queueId => some (clearCheckKey queueId)
  | _ => none

/-- The queue that a job waits for under a key. -/
def waitsFor? : Job → Option String
  | dispatch queueId _ => some queueId
  | preload queueId _ => some queueId
  | fillRadio queueId => some queueId
  | clearCheck queueId => some queueId
  | _ => none

/-- What is in front of the id of its queue in the key of a job. -/
def keyStem : Job → String
  | dispatch .. => "play_media_"
  | preload .. => "preload_next_item_"
  | fillRadio _ => "fill_radio_tracks_"
  | clearCheck _ => "clear_queue_"
  | _ => ""

theorem key?_eq_map (job : Job) : job.key? = job.waitsFor?.map (job.keyStem ++ ·) := by
  cases job <;> rfl

/-- Texts that begin with different pairs of characters differ. -/
theorem append_ne_append {a b : String} (ha : 2 ≤ a.toList.length) (hb : 2 ≤ b.toList.length)
    (hne : a.toList.take 2 ≠ b.toList.take 2) (queueId other : String) :
    a ++ queueId ≠ b ++ other := by
  intro h
  have hchars := congrArg (fun s => s.toList.take 2) h
  simp only [String.toList_append] at hchars
  rw [List.take_append_of_le_length ha, List.take_append_of_le_length hb] at hchars
  exact hne hchars

/-- Keys that are alike have the same stem, for their stems begin with different characters. -/
theorem keyStem_eq_of_append {job other : Job} {queueId target : String}
    (hjob : job.waitsFor? = some queueId) (hother : other.waitsFor? = some target)
    (heq : job.keyStem ++ queueId = other.keyStem ++ target) : job.keyStem = other.keyStem := by
  have hlong : ∀ {job : Job} {queueId : String}, job.waitsFor? = some queueId →
      2 ≤ job.keyStem.toList.length := by
    intro job queueId hjob
    cases job <;> first | (dsimp only [keyStem]; decide) | cases hjob
  refine Classical.byContradiction fun hne => ?_
  refine append_ne_append (hlong hjob) (hlong hother) ?_ queueId target heq
  cases job <;> cases other <;>
    first | cases hjob; done | cases hother; done | exact absurd rfl hne |
      (dsimp only [keyStem]; decide)

/-- Jobs under one key are of one kind, and wait for one queue. -/
theorem waitsFor?_eq_of_key? {job other : Job} {key : String} (hjob : job.key? = some key)
    (hother : other.key? = some key) :
    job.keyStem = other.keyStem ∧ job.waitsFor? = other.waitsFor? := by
  rw [key?_eq_map] at hjob hother
  obtain ⟨queueId, hqueue, rfl⟩ := Option.map_eq_some_iff.1 hjob
  obtain ⟨target, htarget, heq⟩ := Option.map_eq_some_iff.1 hother
  have hstem := keyStem_eq_of_append htarget hqueue heq
  rw [hstem] at heq
  rw [hqueue, htarget, (String.append_right_inj _).1 heq]
  exact ⟨hstem.symm, rfl⟩

/-- The queue whose next item a job hands over. -/
def preloads? : Job → Option String
  | preload queueId _ => some queueId
  | _ => none

/-- Whether a job neither sends media to a player nor hands it the next item. -/
def Minor : Job → Prop
  | dispatch .. => False
  | preload .. => False
  | _ => True

/-- Whether a job is such a one, and for no other queue than a certain one. -/
def MinorFor (queueId : String) (job : Job) : Prop := job.Minor ∧ NamesOnly queueId job.queueId?

theorem Minor.preloads? {job : Job} (hjob : job.Minor) : job.preloads? = none := by
  cases job <;> first | exact hjob.elim | rfl

/-- The jobs under the key of handing over are those that hand over. -/
theorem key?_eq_preloadKey_iff {job : Job} {queueId : String} :
    job.key? = some (preloadKey queueId) ↔ job.preloads? = some queueId := by
  constructor
  · intro hkey
    obtain ⟨hstem, hqueue⟩ :=
      waitsFor?_eq_of_key? hkey (rfl : (preload queueId "").key? = some (preloadKey queueId))
    cases job with
    | preload other itemId => exact hqueue
    | _ => exact absurd hstem (by simp [keyStem])
  · intro hqueue
    cases job with
    | preload other itemId => exact congrArg (·.map preloadKey) hqueue
    | _ => cases hqueue

/-- The jobs under the key of sending are those that send. -/
theorem key?_eq_dispatchKey_iff {job : Job} {queueId : String} :
    job.key? = some (dispatchKey queueId) ↔ ∃ media, job = .dispatch queueId media := by
  constructor
  · intro hkey
    obtain ⟨hstem, hqueue⟩ := waitsFor?_eq_of_key? hkey
      (rfl : (dispatch queueId default).key? = some (dispatchKey queueId))
    cases job with
    | dispatch other media => exact ⟨media, by rw [Option.some.inj hqueue]⟩
    | _ => exact absurd hstem (by simp [keyStem])
  · rintro ⟨media, rfl⟩
    rfl

end Job

namespace Schedule

/-! ## Jobs under a key -/

/-- The jobs that wait under a key. -/
def under (s : Schedule Job) (key : String) : List (Waiting Job) :=
  s.waiting.filter fun w => w.key = some key

variable {s s' : Schedule Job}

theorem mem_under {key : String} {w : Waiting Job} :
    w ∈ s.under key ↔ w ∈ s.waiting ∧ w.key = some key := by
  simp [under]

theorem under_later_self (key : String) (due : Nat) (job : Job) :
    (s.later key due job).under key = [⟨some key, s.nextNumber, due, job⟩] := by
  have hnone : (s.without key).under key = [] := by
    unfold under without
    rw [List.filter_filter, List.filter_eq_nil_iff]
    intro w hw hboth
    simp at hboth
  have hsplit : (s.later key due job).under key =
      (s.without key).under key ++ [⟨some key, s.nextNumber, due, job⟩] := by
    unfold under Schedule.later
    rw [List.filter_append]
    congr 1
    exact List.filter_cons_of_pos (by simp)
  rw [hsplit, hnone, List.nil_append]

theorem under_later_of_ne {key other : String} (hkey : other ≠ key) (due : Nat) (job : Job) :
    (s.later other due job).under key = s.under key := by
  unfold under Schedule.later without
  rw [List.filter_append, List.filter_filter, List.filter_cons_of_neg (by simpa using hkey),
    List.filter_nil, List.append_nil]
  refine List.filter_congr fun w _ => ?_
  by_cases hw : w.key = some key
  · simp [hw, hkey.symm]
  · simp [hw]

theorem under_spawn (key : String) (now : Nat) (job : Job) :
    (s.spawn now job).under key = s.under key := by
  unfold under Schedule.spawn
  rw [List.filter_append, List.filter_cons_of_neg (by simp), List.filter_nil, List.append_nil]

theorem under_remove (key : String) (number : Nat) :
    (s.remove number).under key = (s.under key).filter fun w => w.number ≠ number := by
  unfold under Schedule.remove
  rw [List.filter_filter, List.filter_filter]
  exact List.filter_congr fun w _ => Bool.and_comm _ _

/-! ## Orderly schedules -/

structure Orderly (s : Schedule Job) : Prop where
  number_lt : ∀ w ∈ s.waiting, w.number < s.nextNumber
  nodup : s.waiting.Pairwise fun v w => v.number ≠ w.number
  keyed : ∀ w ∈ s.waiting, w.key = w.job.key?

/-- The waiting jobs that hand over the next item of a queue. -/
def preloads (s : Schedule Job) (queueId : String) : List (Waiting Job) :=
  s.waiting.filter fun w => w.job.preloads? = some queueId

/-- A schedule to which only jobs of some kinds were added, each under its key. -/
inductive Grows (P : Job → Prop) (s : Schedule Job) : Schedule Job → Prop
  | refl : Grows P s s
  | later {s' : Schedule Job} {key : String} {job : Job} (hs : Grows P s s') (due : Nat)
      (hkey : job.key? = some key) (hjob : P job) : Grows P s (s'.later key due job)
  | spawn {s' : Schedule Job} {job : Job} (hs : Grows P s s') (now : Nat)
      (hkey : job.key? = none) (hjob : P job) : Grows P s (s'.spawn now job)

theorem Orderly.filter (hs : s.Orderly) (p : Waiting Job → Bool) :
    Orderly { s with waiting := s.waiting.filter p } where
  number_lt w hw := hs.number_lt w (List.mem_filter.1 hw).1
  nodup := hs.nodup.filter p
  keyed w hw := hs.keyed w (List.mem_filter.1 hw).1

/-- A job that waits with the next number. -/
theorem Orderly.add (hs : s.Orderly) {key : Option String} {job : Job} (due : Nat)
    (hkey : job.key? = key) :
    Orderly
      { waiting := s.waiting ++ [⟨key, s.nextNumber, due, job⟩]
        nextNumber := s.nextNumber + 1 } where
  number_lt w hw := by
    rcases List.mem_append.1 hw with hw | hw
    · exact Nat.lt_succ_of_lt (hs.number_lt w hw)
    · rw [List.mem_singleton.1 hw]
      exact Nat.lt_succ_self _
  nodup := by
    refine List.pairwise_append.2 ⟨hs.nodup, List.pairwise_singleton _ _, ?_⟩
    intro v hv w hw
    rw [List.mem_singleton.1 hw]
    exact Nat.ne_of_lt (hs.number_lt v hv)
  keyed w hw := by
    rcases List.mem_append.1 hw with hw | hw
    · exact hs.keyed w hw
    · rw [List.mem_singleton.1 hw]
      exact hkey.symm

theorem Orderly.later (hs : s.Orderly) {key : String} {job : Job} (due : Nat)
    (hkey : job.key? = some key) : (s.later key due job).Orderly :=
  (hs.filter fun w => w.key ≠ some key).add due hkey

theorem Orderly.spawn (hs : s.Orderly) {job : Job} (now : Nat) (hkey : job.key? = none) :
    (s.spawn now job).Orderly :=
  hs.add now hkey

section Growth

variable {P : Job → Prop}

theorem Orderly.grows (hs : s.Orderly) (hg : s.Grows P s') : s'.Orderly := by
  induction hg with
  | refl => exact hs
  | later _ due hkey _ ih => exact ih.later due hkey
  | spawn _ now hkey _ ih => exact ih.spawn now hkey

theorem Grows.trans {s'' : Schedule Job} (hs : Grows P s s') (hs' : Grows P s' s'') :
    Grows P s s'' := by
  induction hs' with
  | refl => exact hs
  | later _ due hkey hjob ih => exact ih.later due hkey hjob
  | spawn _ now hkey hjob ih => exact ih.spawn now hkey hjob

theorem Grows.mono {Q : Job → Prop} (hs : Grows P s s') (h : ∀ job, P job → Q job) :
    Grows Q s s' := by
  induction hs with
  | refl => exact .refl
  | later _ due hkey hjob ih => exact ih.later due hkey (h _ hjob)
  | spawn _ now hkey hjob ih => exact ih.spawn now hkey (h _ hjob)

theorem grows_of_eq (heq : s' = s) : Grows P s s' := by
  rw [heq]
  exact .refl

/-- Jobs of other kinds leave those under a key as they are. -/
theorem Grows.under {key : String} (hg : Grows P s s')
    (hother : ∀ job, P job → job.key? ≠ some key) : s'.under key = s.under key := by
  induction hg with
  | refl => rfl
  | @later s' other job _ due hkey hjob ih =>
    have hne : other ≠ key := fun h => hother job hjob (h ▸ hkey)
    rw [under_later_of_ne hne, ih]
  | spawn _ now _ _ ih => rw [under_spawn, ih]

end Growth

/-! ## Jobs that hand over an item -/

theorem mem_preloads {queueId : String} {w : Waiting Job} :
    w ∈ s.preloads queueId ↔ w ∈ s.waiting ∧ w.job.preloads? = some queueId := by
  simp [preloads]

theorem preloads_eq_under (hs : s.Orderly) (queueId : String) :
    s.preloads queueId = s.under (Job.preloadKey queueId) := by
  refine List.filter_congr fun w hw => decide_eq_decide.2 ?_
  rw [hs.keyed w hw, Job.key?_eq_preloadKey_iff]

theorem preloads_later (hs : s.Orderly) {key queueId : String} {job : Job} (due : Nat)
    (hkey : job.key? = some key) (hjob : key ≠ Job.preloadKey queueId) :
    (s.later key due job).preloads queueId = s.preloads queueId := by
  rw [preloads_eq_under hs, preloads_eq_under (hs.later due hkey), under_later_of_ne hjob]

theorem preloads_grows {P : Job → Prop} (hs : s.Orderly)
    (hplain : ∀ job, P job → job.preloads? = none) (hg : s.Grows P s') (queueId : String) :
    s'.preloads queueId = s.preloads queueId := by
  rw [preloads_eq_under hs, preloads_eq_under (hs.grows hg)]
  refine hg.under fun job hjob hkey => ?_
  rw [Job.key?_eq_preloadKey_iff, hplain job hjob] at hkey
  cases hkey

/-- A job that hands over an item takes the place of the one for the same queue. -/
theorem preloads_later_preload (hs : s.Orderly) (queueId itemId : String) (due : Nat) :
    (s.later (Job.preloadKey queueId) due (.preload queueId itemId)).preloads queueId =
      [⟨some (Job.preloadKey queueId), s.nextNumber, due, .preload queueId itemId⟩] := by
  rw [preloads_eq_under (hs.later due rfl), under_later_self]

end Schedule

/-- The current item and the next one, when a report claims the next one. -/
def Entry.claim? (e : Entry) (o : Outside) (r : PlayerReport) : Option (QueueItem × QueueItem) :=
  if r.announcementInProgress ∨ ¬ Hub.Heeds r e ∨
      ¬ (e.remembered.getD {}).LetsPreload (Hub.reportedQueue o r e) then none
  else (Hub.reportedQueue o r e).claim? o.clock

namespace Hub

variable (h : Hub) (o : Outside) (queueId : String)

/-! ## Commands -/

theorem schedule_load (batch : List QueueItem) (options : LoadOptions) :
    (h.load o queueId batch options).2.schedule = h.schedule := by
  unfold load
  cases h.entry? queueId with
  | none => rfl
  | some e => exact schedule_commit _ o queueId _ _

theorem schedule_edit
    (f : Queue → List QueueItem → Except Failure (Option (List QueueItem))) :
    (h.edit o queueId f).2.schedule = h.schedule := by
  unfold edit
  cases h.entry? queueId with
  | none => rfl
  | some e =>
    dsimp only
    split
    · exact schedule_putItems h queueId _ _
    · exact schedule_putItems h queueId _ _
    · exact schedule_commit h o queueId _ _

theorem schedule_updateItem (itemId : String) (f : QueueItem → QueueItem) :
    (h.updateItem queueId itemId f).2.schedule = h.schedule := by
  unfold updateItem
  cases h.entry? queueId with
  | none => rfl
  | some e =>
    dsimp only
    split
    · exact schedule_putItems h queueId _ _
    · exact schedule_putItems h queueId _ _

theorem schedule_startOver : (h.startOver queueId).schedule = h.schedule := by
  unfold startOver
  cases h.entry? queueId with
  | none => rfl
  | some e =>
    dsimp only
    split
    · exact schedule_putItems h queueId _ _
    · rfl

theorem schedule_setShuffle (enabled : Bool) :
    (h.setShuffle o queueId enabled).2.schedule = h.schedule := by
  unfold setShuffle
  cases h.entry? queueId with
  | none => rfl
  | some e =>
    dsimp only
    split
    · exact schedule_putItems h queueId _ _
    · exact schedule_commit _ o queueId _ _

theorem schedule_setRepeat (mode : RepeatMode) :
    (h.setRepeat o queueId mode).2.schedule = h.schedule := by
  unfold setRepeat
  cases h.queue? queueId with
  | none => rfl
  | some q =>
    dsimp only
    split
    · rfl
    · exact (schedule_signal _ o queueId false).trans (schedule_modifyQueue h queueId _)

theorem schedule_trackLoaded (itemId : String) :
    (h.trackLoaded o queueId itemId).2.schedule = h.schedule := by
  unfold trackLoaded
  cases h.entry? queueId with
  | none => rfl
  | some e => exact (schedule_signal _ o queueId false).trans (schedule_modifyQueue h queueId _)

theorem schedule_logFlow (entry : FlowEntry Float) :
    (h.logFlow queueId entry).2.schedule = h.schedule := by
  unfold logFlow
  cases h.queue? queueId with
  | none => rfl
  | some q => exact schedule_modifyQueue h queueId _

theorem grows_clear :
    h.schedule.Grows (Job.MinorFor queueId) (h.clear o queueId).2.schedule := by
  have hitems : (h.clearItems o queueId).2.schedule = h.schedule := by
    unfold clearItems
    cases h.entry? queueId with
    | none => rfl
    | some e => exact (schedule_signal _ o queueId true).trans (schedule_putItems h queueId _ _)
  unfold clear
  rcases hclear : h.clearItems o queueId with ⟨failure | state, h'⟩
  · rw [hclear] at hitems
    exact Schedule.grows_of_eq hitems
  · rw [hclear] at hitems
    cases state with
    | idle => exact Schedule.grows_of_eq hitems
    | _ => exact (Schedule.grows_of_eq hitems).spawn o.now rfl ⟨trivial, rfl⟩

theorem grows_scheduleRadio {s : Schedule Job}
    (hs : s.Grows (Job.MinorFor queueId) h.schedule) :
    s.Grows (Job.MinorFor queueId) (h.scheduleRadio o queueId).schedule :=
  hs.later _ rfl ⟨trivial, rfl⟩

theorem grows_setDontStop (enabled : Bool) :
    h.schedule.Grows (Job.MinorFor queueId) (h.setDontStop o queueId enabled).2.schedule := by
  unfold setDontStop
  split
  · exact .refl
  · cases h.queue? queueId with
    | none => exact .refl
    | some q =>
      have hset : ((h.modifyQueue queueId fun q => { q with dontStop := enabled }).signal o queueId
          false).schedule = h.schedule := by
        rw [schedule_signal, schedule_modifyQueue]
      dsimp only
      split
      · refine grows_scheduleRadio _ o queueId (Schedule.grows_of_eq ?_)
        exact (schedule_modifyQueue _ queueId _).trans hset
      · exact Schedule.grows_of_eq hset

/-! ## Reports -/

theorem grows_recordPlayed (item : QueueItem) (stream : StreamDetails) (elapsed : Int) :
    h.schedule.Grows (Job.MinorFor queueId)
      (h.recordPlayed o queueId item stream elapsed).schedule := by
  have hstreamed : ∀ seconds fully,
      h.schedule.Grows (Job.MinorFor queueId)
        (h.spawn o (.streamed stream seconds fully)).schedule :=
    fun seconds fully => Schedule.Grows.refl.spawn o.now rfl ⟨trivial, trivial⟩
  unfold recordPlayed
  cases item.media with
  | none => exact hstreamed _ _
  | some media =>
    dsimp only
    split
    · exact hstreamed _ _
    · exact (hstreamed _ _).spawn o.now rfl ⟨trivial, trivial⟩

theorem grows_recordLeft (items : List QueueItem) (old new : Observation) (ended : Bool) :
    h.schedule.Grows (Job.MinorFor queueId)
      (h.recordLeft o queueId items old new ended).schedule := by
  unfold recordLeft
  split
  · exact .refl
  · split
    · exact .refl
    · split
      · exact .refl
      · split
        · exact .refl
        · exact grows_recordPlayed h o queueId _ _ _

theorem schedule_tellChange (q : Queue) (change : Change) (new : Observation) :
    (h.tellChange o queueId q change new).schedule = h.schedule := by
  unfold tellChange
  rw [schedule_modifyEntry]
  split
  · rfl
  · exact schedule_signal h o queueId _

theorem grows_currentItemChanged (q : Queue) :
    h.schedule.Grows (Job.MinorFor q.id) (h.currentItemChanged o q).schedule := by
  have hadopt : ∀ (p : Prop) [Decidable p],
      h.schedule.Grows (Job.MinorFor q.id) (if p then h.adoptRequests q.id else h).schedule := by
    intro p _
    split
    · exact Schedule.grows_of_eq (schedule_modifyQueue h q.id _)
    · exact .refl
  unfold currentItemChanged
  split
  · exact .refl
  · dsimp only
    split
    · exact grows_scheduleRadio _ o q.id (hadopt _)
    · exact hadopt _

/-- The schedule with a job for a claimed item, if there is one. -/
def withPreload (s : Schedule Job) (now : Nat) (queueId : String) :
    Option (QueueItem × QueueItem) → Schedule Job
  | some (current, _) => s.later (Job.preloadKey queueId) now (.preload queueId current.id)
  | none => s

theorem schedule_schedulePreload {h : Hub} {q : Queue} (hq : h.queue? q.id = some q) :
    (h.schedulePreload o q).schedule = withPreload h.schedule o.now q.id (q.claim? o.clock) := by
  rw [schedulePreload_eq o hq]
  cases q.claim? o.clock with
  | none => rfl
  | some claim => rw [schedule_later, schedule_modifyQueue]; rfl

theorem grows_followReport {h : Hub} {q : Queue} (hq : h.queue? q.id = some q)
    (items : List QueueItem) (old : Observation) :
    (withPreload h.schedule o.now q.id
      (if old.LetsPreload q then q.claim? o.clock else none)).Grows (Job.MinorFor q.id)
      (h.followReport o q.id items old q).schedule := by
  have hpreload : (if old.LetsPreload q then h.schedulePreload o q else h).schedule =
      withPreload h.schedule o.now q.id
        (if old.LetsPreload q then q.claim? o.clock else none) := by
    by_cases hlets : old.LetsPreload q
    · rw [if_pos hlets, if_pos hlets, schedule_schedulePreload o hq]
    · rw [if_neg hlets, if_neg hlets]
      rfl
  have hended : ∀ (g : Hub) (b : Bool),
      g.schedule.Grows (Job.MinorFor q.id)
        (if b then g.scheduleClearCheck o q.id else g).schedule := by
    intro g b
    cases b with
    | false => exact .refl
    | true =>
      exact Schedule.Grows.refl.later _ rfl ⟨trivial, rfl⟩
  have hlast : ∀ (g : Hub) (b : Bool),
      g.schedule.Grows (Job.MinorFor q.id)
        (if b then g.currentItemChanged o q else g).schedule := by
    intro g b
    cases b with
    | false => exact .refl
    | true => exact grows_currentItemChanged g o q
  rw [← hpreload]
  by_cases hsame : (old.changeTo (Observation.ofQueue q)).isEmpty
  · simp only [followReport, hsame, if_true]
    exact .refl
  · simp only [followReport, hsame]
    exact (((Schedule.grows_of_eq (schedule_tellChange _ o q.id q _ _)).trans
      (grows_recordLeft _ o q.id items old _ _)).trans (hended _ _)).trans (hlast _ _)

/-- A report makes a job wait when it claims an item, and adds only other work besides. -/
theorem grows_onReport {h : Hub} {r : PlayerReport} {e : Entry}
    (he : h.entry? r.playerId = some e) (hid : e.queue.id = r.playerId) :
    (withPreload h.schedule o.now r.playerId (e.claim? o r)).Grows (Job.MinorFor r.playerId)
      (h.onReport o r).schedule := by
  unfold Entry.claim?
  by_cases hannounce : r.announcementInProgress
  · rw [onReport_announcing o hannounce, if_pos (.inl hannounce)]
    exact .refl
  by_cases hheeds : Heeds r e
  · obtain ⟨hq, hqueue⟩ := queue?_reportedQueue o he hid
    have hgrows := grows_followReport o hqueue e.items (e.remembered.getD {})
    rw [schedule_modifyQueue, hq] at hgrows
    rw [onReport_heeded o he hannounce hheeds]
    by_cases hlets : (e.remembered.getD {}).LetsPreload (reportedQueue o r e)
    · simpa [hannounce, hheeds, hlets] using hgrows
    · simpa [hannounce, hheeds, hlets] using hgrows
  · rw [onReport_unheeded o he hannounce hheeds, if_pos (.inr (.inl hheeds))]
    exact Schedule.grows_of_eq (schedule_modifyQueue h r.playerId _)

end Hub

/-- What a report claims is claimed in the queue. -/
theorem Entry.preloading_reported (e : Entry) (o : Outside) (r : PlayerReport) :
    (e.reported o r).queue.preloading =
      match e.claim? o r with
      | some (_, next) => some next.id
      | none => e.queue.preloading := by
  have hkept : (Hub.reportedQueue o r e).preloading = e.queue.preloading :=
    (Hub.reportedQueue_eq o r e).2.2.1
  have hfollowed : ∀ old q, (e.followed o old q).queue.preloading =
      (if old.LetsPreload q then q.claimed o.clock else q).preloading := by
    intro old q
    unfold Entry.followed
    dsimp only
    split
    · rfl
    · split <;> rfl
  unfold Entry.reported Entry.claim?
  by_cases hannounce : r.announcementInProgress
  · simp [hannounce]
  by_cases hheeds : Hub.Heeds r e
  · by_cases hlets : (e.remembered.getD {}).LetsPreload (Hub.reportedQueue o r e)
    · simp only [hannounce, hheeds, hlets, if_true, hfollowed, Bool.false_eq_true,
        not_true_eq_false, or_self, if_false, Queue.claimed]
      split <;> simp_all
    · simp [hannounce, hheeds, hlets, hfollowed, hkept]
  · simp [hannounce, hheeds, Hub.described]

/-! ## All acts -/

/-- Whether an act is not one of those that start or cancel jobs, or concern players. -/
def Act.AddsWork : Act → Prop
  | cancelAll => False
  | begin _ => False
  | report _ => False
  | register _ => False
  | remove _ => False
  | _ => True

/-- Whether an act adds work and sends no media. -/
def Act.AddsMinor : Act → Prop
  | dispatch .. => False
  | a => a.AddsWork

namespace Hub

variable {h : Hub} (o : Outside)

/-- The work that an act adds is for the queue that the act is for. -/
theorem grows_minorFor_apply {a : Act} (ha : a.AddsMinor) {queueId : String}
    (hfor : NamesOnly queueId a.target?) :
    h.schedule.Grows (Job.MinorFor queueId) (a.apply o h).schedule := by
  cases a with
  | modify => exact Schedule.grows_of_eq (schedule_modifyQueue h _ _)
  | updateItem => exact Schedule.grows_of_eq (schedule_updateItem h _ _ _)
  | load => exact Schedule.grows_of_eq (schedule_load h o _ _ _)
  | moveItem => exact Schedule.grows_of_eq (schedule_edit h o _ _)
  | deleteItem => exact Schedule.grows_of_eq (schedule_edit h o _ _)
  | clear => cases hfor; exact grows_clear h o _
  | startOver => exact Schedule.grows_of_eq (schedule_startOver h _)
  | setShuffle => exact Schedule.grows_of_eq (schedule_setShuffle h o _ _)
  | setRepeat => exact Schedule.grows_of_eq (schedule_setRepeat h o _ _)
  | setDontStop => cases hfor; exact grows_setDontStop h o _ _
  | trackLoaded => exact Schedule.grows_of_eq (schedule_trackLoaded h o _ _)
  | logFlow => exact Schedule.grows_of_eq (schedule_logFlow h _ _)
  | signal => exact Schedule.grows_of_eq (schedule_signal h o _ _)
  | recordContainer => exact Schedule.Grows.refl.spawn _ rfl ⟨trivial, trivial⟩
  | redraw => exact .refl
  | count => exact .refl
  | takeTurn => exact .refl
  | _ => exact ha.elim

theorem grows_minor_apply {a : Act} (ha : a.AddsMinor) :
    h.schedule.Grows Job.Minor (a.apply o h).schedule := by
  obtain ⟨queueId, hfor⟩ := exists_namesOnly a.target?
  exact (grows_minorFor_apply o ha hfor).mono fun _ hjob => hjob.1

theorem grows_apply {a : Act} (ha : a.AddsWork) :
    h.schedule.Grows (fun job => job.preloads? = none) (a.apply o h).schedule := by
  have hminor : ∀ {a : Act}, a.AddsMinor →
      h.schedule.Grows (fun job => job.preloads? = none) (a.apply o h).schedule :=
    fun ha => (grows_minor_apply o ha).mono fun _ => Job.Minor.preloads?
  cases a with
  | dispatch queueId delay media => exact Schedule.Grows.refl.later _ rfl rfl
  | _ => exact hminor ha

theorem orderly_withPreload {s : Schedule Job} (hs : s.Orderly) (now : Nat) (queueId : String)
    (claim : Option (QueueItem × QueueItem)) : (withPreload s now queueId claim).Orderly := by
  cases claim with
  | none => exact hs
  | some claim => exact hs.later now rfl

theorem orderly_onReport (hs : h.schedule.Orderly) (hnamed : h.Named) (r : PlayerReport) :
    (h.onReport o r).schedule.Orderly := by
  cases he : h.entry? r.playerId with
  | none =>
    rw [onReport_unknown o he]
    exact hs
  | some e =>
    exact (orderly_withPreload hs o.now r.playerId _).grows
      (grows_onReport o he (hnamed _ e he))

/-- Every act keeps the schedule orderly. -/
theorem orderly_apply (hs : h.schedule.Orderly) (hnamed : h.Named) (a : Act) :
    (a.apply o h).schedule.Orderly := by
  cases a with
  | cancelAll => exact hs.filter _
  | begin number => exact hs.filter _
  | report r => exact orderly_onReport o hs hnamed r
  | register r =>
    refine orderly_onReport (h := h.putEntry r.playerId (h.newEntry o r)) o hs ?_ r
    exact hnamed.putEntry (id_newEntry o r)
  | remove playerId => exact hs.filter _
  | _ => exact hs.grows (grows_apply o trivial)

end Hub

end Jukebox
