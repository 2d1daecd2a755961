import Jukebox.Proofs.Conduct

/-!
# What the parts of commands do

The rules that the parts of commands obey. Looking up a stream changes nothing but the item that it
belongs to; finding out what requested media stands for changes no queue at all. None of the parts
sends an item to a player to play it (`Rules.ordinary`). All parts of a command that names one queue
do acts and make calls for that queue only (`Rules.confined`).
-/

namespace Jukebox

/-- Whether a call hands a player an item to go on with. -/
def Call.HandsOver : Call → Prop
  | enqueueNext .. => True
  | _ => False

/-- Whether a call has a player play media. -/
def Call.PlaysMedia : Call → Prop
  | playMedia .. => True
  | _ => False

def QueueChange.ByCommand : QueueChange → Prop
  | handOver _ => False
  | release => False
  | _ => True

/-- Whether a command other than shutting down may do an act. -/
def Act.ByCommand : Act → Prop
  | modify _ change => change.ByCommand
  | load queueId batch _ => ∀ i ∈ batch, i.queueId = queueId
  | cancelAll => False
  | begin _ => False
  | report _ => False
  | register _ => False
  | remove _ => False
  | _ => True

/-- Whether requests, other than shutting down, and jobs may do an act. -/
def Act.IsWork : Act → Prop
  | load queueId batch _ => ∀ i ∈ batch, i.queueId = queueId
  | cancelAll => False
  | begin _ => False
  | report _ => False
  | register _ => False
  | remove _ => False
  | _ => True

/-- Whether a command may do an act besides sending an item to a player. -/
def Act.Ordinary : Act → Prop
  | dispatch .. => False
  | a => a.ByCommand

/-- Whether an act leaves the state of every queue alone. -/
def Act.KeepsState : Act → Prop
  | modify _ (.buffer ..) => False
  | modify _ (.settle _) => False
  | modify _ (.arrive ..) => False
  | report _ => False
  | register _ => False
  | remove _ => False
  | _ => True

/-- Whether an act brings items into a list, or numbers new ones, or hands a queue the settings of
another one. -/
def Act.BringsIn : Act → Prop
  | load .. => True
  | count _ => True
  | modify _ (.takeOver ..) => True
  | _ => False

/-- Whether a call only asks for something, of the catalog or of the streams. -/
def Call.Asks : Call → Prop
  | markPlayed _ => False
  | streamed .. => False
  | playMedia .. => False
  | enqueueNext .. => False
  | play _ => False
  | pause _ => False
  | stop _ => False
  | power .. => False
  | _ => True

/-- Whether a call tells a player to do something other than to play media. -/
def Call.Handles : Call → Prop
  | play _ => True
  | pause _ => True
  | stop _ => True
  | power .. => True
  | _ => False

/-- Rules that allow acts and calls for one queue and its player only. -/
def Rules.confined (R : Rules) (queueId : String) : Rules :=
  { act := fun a => R.act a ∧ NamesOnly queueId a.target?
    call := fun c => R.call c ∧ NamesOnly queueId c.player? }

/-- The rules of commands. -/
def Rules.command : Rules := { act := Act.ByCommand, call := fun c => ¬ c.HandsOver }

/-- The rules of commands and jobs. -/
def Rules.work : Rules := { act := Act.IsWork, call := fun _ => True }

/-- The rules of commands where they do not send an item to a player. -/
def Rules.ordinary : Rules :=
  { act := Act.Ordinary, call := fun c => ¬ c.HandsOver ∧ ¬ c.PlaysMedia }

/-- The rules of commands where they neither send an item to a player nor bring in any. -/
def Rules.plain : Rules :=
  { act := fun a => a.Ordinary ∧ ¬ a.BringsIn, call := fun c => ¬ c.HandsOver ∧ ¬ c.PlaysMedia }

/-- The rules of programs that leave the state of every queue alone. -/
def Rules.keepingState : Rules := { act := Act.KeepsState, call := fun _ => True }

/-- The rules of commands besides playing an item. -/
def Rules.beside : Rules :=
  { act := fun a => a.Ordinary ∧ a.KeepsState, call := fun c => ¬ c.HandsOver ∧ ¬ c.PlaysMedia }

/-- The rules of commands besides playing an item, where they bring in none. -/
def Rules.besidePlain : Rules :=
  { act := fun a => (a.Ordinary ∧ a.KeepsState) ∧ ¬ a.BringsIn
    call := fun c => ¬ c.HandsOver ∧ ¬ c.PlaysMedia }

/-- The rules of looking up the stream of an item. -/
def Rules.lookup : Rules :=
  { act := fun a => ∃ queueId itemId change, a = .updateItem queueId itemId change
    call := fun c => ¬ c.HandsOver }

/-- The rules of loading an item: those of looking it up, where players are left alone. -/
def Rules.loading : Rules := { act := Rules.lookup.act, call := Call.Asks }

/-- The rules of telling a player what to do. -/
def Rules.handling : Rules :=
  { act := fun a => ∃ queueId clock onlyActive, a = .modify queueId (.keepPosition clock onlyActive)
    call := Call.Handles }

/-- The rules of finding out what requested media stands for. -/
def Rules.expanding : Rules :=
  { act := fun a => (∃ draws, a = .redraw draws) ∨ ∃ media, a = .recordContainer media
    call := Call.Asks }

theorem Call.Asks.ordinary {c : Call} (hc : c.Asks) : ¬ c.HandsOver ∧ ¬ c.PlaysMedia := by
  cases c <;> first | exact hc.elim | exact ⟨id, id⟩

theorem Call.Handles.ordinary {c : Call} (hc : c.Handles) : ¬ c.HandsOver ∧ ¬ c.PlaysMedia := by
  cases c <;> first | exact hc.elim | exact ⟨id, id⟩

theorem Act.Ordinary.byCommand {a : Act} (ha : a.Ordinary) : a.ByCommand := by
  cases a <;> first | exact ha | exact trivial

theorem Act.ByCommand.isWork {a : Act} (ha : a.ByCommand) : a.IsWork := by
  cases a <;> first | exact ha | exact trivial

theorem Call.Asks.names {c : Call} (hc : c.Asks) (queueId : String) :
    NamesOnly queueId c.player? := by
  cases c <;> first | exact hc.elim | exact trivial

namespace Rules

variable {R S : Rules} {queueId : String}

theorem confined_le : R.confined queueId ≤ R := ⟨fun _ ha => ha.1, fun _ hc => hc.1⟩

theorem confined_mono (h : R ≤ S) : R.confined queueId ≤ S.confined queueId :=
  ⟨fun a ha => ⟨h.1 a ha.1, ha.2⟩, fun c hc => ⟨h.2 c hc.1, hc.2⟩⟩

/-- Finding out what media stands for concerns no queue. -/
theorem expanding_le_confined : expanding ≤ expanding.confined queueId := by
  refine ⟨?_, fun c hc => ⟨hc, hc.names queueId⟩⟩
  rintro a (⟨draws, rfl⟩ | ⟨media, rfl⟩)
  · exact ⟨.inl ⟨draws, rfl⟩, trivial⟩
  · exact ⟨.inr ⟨media, rfl⟩, trivial⟩

theorem loading_le_lookup : loading ≤ lookup := ⟨fun _ ha => ha, fun _ hc => hc.ordinary.1⟩

theorem plain_le_ordinary : plain ≤ ordinary := ⟨fun _ ha => ha.1, fun _ hc => hc⟩

theorem besidePlain_le_beside : besidePlain ≤ beside := ⟨fun _ ha => ha.1, fun _ hc => hc⟩

theorem besidePlain_le_plain : besidePlain ≤ plain := ⟨fun _ ha => ⟨ha.1.1, ha.2⟩, fun _ hc => hc⟩

theorem beside_le_ordinary : beside ≤ ordinary := ⟨fun _ ha => ha.1, fun _ hc => hc⟩

theorem beside_le_keepingState : beside ≤ keepingState := ⟨fun _ ha => ha.2, fun _ _ => trivial⟩

theorem loading_le_besidePlain : loading ≤ besidePlain := by
  refine ⟨?_, fun _ hc => hc.ordinary⟩
  rintro a ⟨queueId, itemId, change, rfl⟩
  exact ⟨⟨trivial, trivial⟩, id⟩

theorem handling_le_besidePlain : handling ≤ besidePlain := by
  refine ⟨?_, fun _ hc => hc.ordinary⟩
  rintro a ⟨queueId, clock, onlyActive, rfl⟩
  exact ⟨⟨trivial, trivial⟩, id⟩

theorem expanding_le_besidePlain : expanding ≤ besidePlain := by
  refine ⟨?_, fun _ hc => hc.ordinary⟩
  rintro a (⟨draws, rfl⟩ | ⟨media, rfl⟩) <;> exact ⟨⟨trivial, trivial⟩, id⟩

theorem loading_le_plain : loading ≤ plain := le_trans loading_le_besidePlain besidePlain_le_plain

theorem handling_le_plain : handling ≤ plain :=
  le_trans handling_le_besidePlain besidePlain_le_plain

theorem expanding_le_plain : expanding ≤ plain :=
  le_trans expanding_le_besidePlain besidePlain_le_plain

theorem handling_le_beside : handling ≤ beside :=
  le_trans handling_le_besidePlain besidePlain_le_beside

theorem expanding_le_beside : expanding ≤ beside :=
  le_trans expanding_le_besidePlain besidePlain_le_beside

theorem loading_le_keepingState : loading ≤ keepingState :=
  le_trans (le_trans loading_le_besidePlain besidePlain_le_beside) beside_le_keepingState

theorem handling_le_keepingState : handling ≤ keepingState :=
  le_trans handling_le_beside beside_le_keepingState

theorem expanding_le_keepingState : expanding ≤ keepingState :=
  le_trans expanding_le_beside beside_le_keepingState

theorem ordinary_le_command : ordinary ≤ command :=
  ⟨fun _ ha => ha.byCommand, fun _ hc => hc.1⟩

theorem command_le_work : command ≤ work := ⟨fun _ ha => ha.isWork, fun _ _ => trivial⟩

theorem beside_le_work : beside ≤ work :=
  le_trans beside_le_ordinary (le_trans ordinary_le_command command_le_work)

theorem loading_le_work : loading ≤ work :=
  le_trans (le_trans loading_le_besidePlain besidePlain_le_beside) beside_le_work

theorem handling_le_work : handling ≤ work := le_trans handling_le_beside beside_le_work

theorem expanding_le_work : expanding ≤ work := le_trans expanding_le_beside beside_le_work

end Rules

namespace Command

variable {α : Type} {R : Rules}

/-! ## Queues and items -/

theorem entry_obeys (queueId : String) : (entry queueId).Obeys R := by
  refine (obeys_look _).bind fun e => ?_
  cases e with
  | none => exact obeys_throw _
  | some e => exact obeys_pure e

theorem queue_obeys (queueId : String) : (queue queueId).Obeys R :=
  (entry_obeys queueId).bind fun e => obeys_pure e.queue

theorem items_obeys (queueId : String) : (items queueId).Obeys R := obeys_look _

theorem report?_obeys (playerId : String) : (report? playerId).Obeys R := obeys_look _

theorem find_obeys (e : Entry) (key : ItemKey) : (find e key).Obeys R := by
  have hitem : ∀ index : Nat, (find e (.index index)).Obeys R := by
    intro index
    simp only [find, pure_bind]
    cases e.items[index]? with
    | none => exact obeys_throw _
    | some item => exact obeys_pure _
  cases key with
  | index index => exact hitem index
  | id id =>
    simp only [find]
    cases indexOf? e.items id with
    | none => exact (obeys_throw _).bind hitem
    | some index => exact hitem index

theorem modifyQueue_obeys (queueId : String) (change : QueueChange) {f : Queue → Queue}
    (hchange : R.act (.modify queueId change)) (hf : f = change.apply) :
    (modifyQueue queueId f).Obeys R := by
  refine obeys_step hchange fun _ h => ?_
  subst hf
  cases hq : h.queue? queueId with
  | none => simp [Act.apply, Hub.modifyQueue, Hub.modifyEntry, Option.map_eq_none_iff.1 hq]
  | some q => rfl

theorem updateItem_obeys (queueId itemId : String) (change : ItemChange)
    {f : QueueItem → QueueItem} (hchange : R.act (.updateItem queueId itemId change))
    (hf : f = change.apply) : (updateItem queueId itemId f).Obeys R := by
  subst hf
  exact obeys_step hchange fun _ _ => rfl

/-! ## Loading an item -/

theorem ask_obeys (queueId : String) {c : Call} (hc : c.Asks) :
    (call c).Obeys (Rules.loading.confined queueId) :=
  obeys_call ⟨hc, hc.names queueId⟩

theorem freshMedia_obeys (queueId : String) (item : QueueItem) :
    (freshMedia item).Obeys (Rules.loading.confined queueId) := by
  unfold freshMedia
  cases item.media with
  | none => exact obeys_pure none
  | some media =>
    refine Obeys.bind (ask_obeys queueId trivial) fun known => ?_
    cases known with
    | some known => exact obeys_pure (some known)
    | none =>
      refine obeys_ite _ ?_ (obeys_pure (some media))
      refine Obeys.bind (Obeys.outcome (ask_obeys queueId trivial)) fun result => ?_
      cases result with
      | ok full => exact obeys_pure (some full)
      | error failure => exact obeys_pure (some media)

theorem loadItem_obeys (queueId : String) (item : QueueItem) (following : Option Nat)
    (isStart : Bool) (seek : UInt32) (fadeIn : Bool) :
    (loadItem queueId item following isStart seek fadeIn).Obeys
      (Rules.loading.confined queueId) := by
  refine (items_obeys queueId).bind fun list => ?_
  refine (freshMedia_obeys queueId item).bind fun media => ?_
  refine Obeys.bind (ask_obeys queueId trivial) fun details => ?_
  refine (obeys_look _).bind fun crossfade => ?_
  refine Obeys.bind ?_ fun _ => obeys_pure _
  exact updateItem_obeys queueId item.id (.loaded _ _) ⟨⟨_, _, _, rfl⟩, rfl⟩ rfl

/-! ## Stopping -/

theorem stop_obeys (queueId : String) :
    (stop queueId).Obeys (Rules.handling.confined queueId) := by
  refine (obeys_look _).bind fun clock => ?_
  refine Obeys.bind ?_ fun _ => obeys_call ⟨trivial, rfl⟩
  refine modifyQueue_obeys queueId (.keepPosition clock true) ⟨⟨_, _, _, rfl⟩, rfl⟩
    (funext fun q => ?_)
  cases hactive : q.active <;> simp [QueueChange.apply, hactive]

theorem pause_obeys (queueId : String) :
    (pause queueId).Obeys (Rules.handling.confined queueId) := by
  refine (obeys_look _).bind fun clock => ?_
  refine Obeys.bind ?_ fun _ => obeys_call ⟨trivial, rfl⟩
  exact modifyQueue_obeys queueId (.keepPosition clock false) ⟨⟨_, _, _, rfl⟩, rfl⟩ rfl

theorem leaveGroup_obeys (playerId : String) : (leaveGroup playerId).Obeys .handling := by
  refine (report?_obeys playerId).bind fun r => ?_
  cases r.bind fun r => r.activeGroup.orElse fun _ => r.syncedTo with
  | none => exact obeys_pure ()
  | some group =>
    refine (obeys_call trivial).bind fun _ => ?_
    exact (obeys_look _).bind fun ms => obeys_sleep ms

theorem load_obeys (queueId : String) {batch : List QueueItem} (options : LoadOptions)
    (hload : R.act (.load queueId batch options)) : (load queueId batch options).Obeys R :=
  obeys_step hload fun _ _ => rfl

theorem clear_obeys (queueId : String) (hclear : R.act (.clear queueId)) :
    (step fun o h => h.clear o queueId).Obeys R :=
  obeys_step hclear fun _ _ => rfl

theorem stopAll_obeys (queues : List Queue) : (stopAll queues).Obeys .handling := by
  induction queues with
  | nil => exact obeys_pure ()
  | cons q more ih =>
    have hstop := ((stop_obeys q.id).within Rules.confined_le).outcome
    exact obeys_ite _ (hstop.bind fun _ => ih) ih

/-! ## Looking up the next item -/

theorem loadFrom_obeys (queueId : String) (tries position : Nat) :
    (loadFrom queueId tries position).Obeys (Rules.loading.confined queueId) := by
  induction tries generalizing position with
  | zero => exact obeys_throw _
  | succ tries ih =>
    refine (entry_obeys queueId).bind fun e => ?_
    rcases hnext : nextIndex e.items.length e.queue.repeatMode (some position) false true
      with _ | index
    · simp only [hnext]
      exact obeys_throw _
    · rcases hitem : e.items[index]? with _ | item
      · simp only [hnext, hitem]
        exact obeys_throw _
      · simp only [hnext, hitem]
        refine (loadItem_obeys _ _ _ _ _ _).outcome.bind fun result => ?_
        cases result with
        | ok loaded => exact obeys_pure loaded
        | error failure =>
          refine obeys_ite _ ?_ (obeys_throw failure)
          refine Obeys.bind ?_ fun _ => ih (position + 1)
          exact updateItem_obeys queueId item.id .unavailable ⟨⟨_, _, _, rfl⟩, rfl⟩ rfl

theorem loadNextItem_obeys (queueId currentItemId : String) :
    (loadNextItem queueId currentItemId).Obeys (Rules.loading.confined queueId) := by
  refine (entry_obeys queueId).bind fun e => ?_
  cases indexOf? e.items currentItemId with
  | none => exact obeys_throw _
  | some index => exact loadFrom_obeys queueId e.items.length index

theorem enqueueNext_obeys (queueId currentItemId : String)
    (hload : Rules.loading.confined queueId ≤ R)
    (hhand : ∀ itemId, R.act (.modify queueId (.handOver itemId)))
    (hcall : ∀ media, R.call (.enqueueNext queueId media)) :
    (enqueueNext queueId currentItemId).Obeys R := by
  refine ((loadNextItem_obeys queueId currentItemId).within hload).bind fun item => ?_
  refine (queue_obeys queueId).bind fun q => ?_
  have hmark : Obeys R (do
      let _ ← modifyQueue queueId fun q => { q with enqueuedNext := some item.id }) :=
    (modifyQueue_obeys queueId (.handOver item.id) (hhand item.id) rfl).bind
      fun _ => obeys_pure ()
  refine obeys_ite _ (obeys_pure ()) (obeys_ite _ ?_ hmark)
  refine (obeys_look _).bind fun url => ?_
  exact (obeys_call (hcall _)).bind fun _ => hmark

/-- Handing over the next item looks it up, marks it as handed over and ends the claim on it. -/
theorem preload_obeys (queueId currentItemId : String)
    (hload : Rules.loading.confined queueId ≤ R)
    (hhand : ∀ itemId, R.act (.modify queueId (.handOver itemId)))
    (hrelease : R.act (.modify queueId .release))
    (hcall : ∀ media, R.call (.enqueueNext queueId media)) :
    (preload queueId currentItemId).Obeys R := by
  refine (enqueueNext_obeys queueId currentItemId hload hhand hcall).outcome.bind
    fun result => ?_
  refine (obeys_change hrelease fun _ _ => rfl).bind fun _ => ?_
  cases result with
  | ok _ => exact obeys_pure ()
  | error failure => exact obeys_throw failure

/-! ## Expanding requested media -/

theorem shuffled_obeys (xs : List α) : (shuffled xs).Obeys .expanding :=
  fun _ h => ⟨⟨.redraw (h.draws.shuffle xs).2, .inl ⟨_, rfl⟩, rfl⟩, fun _ _ => trivial⟩

theorem itemByUri_obeys (pace : Pace) (uri : String) : (itemByUri pace uri).Obeys .expanding :=
  (obeys_awaitTurn pace).bind fun _ => obeys_call trivial

theorem recordContainer_obeys (m : MediaItem) : (recordContainer m).Obeys .expanding :=
  obeys_change (a := .recordContainer m) (.inr ⟨m, rfl⟩) fun _ _ => rfl

theorem albumsTracks_obeys (pace : Pace) (known albums : List MediaItem) :
    (albumsTracks pace known albums).Obeys .expanding := by
  induction albums generalizing known with
  | nil => exact obeys_pure known
  | cons album more ih =>
    refine (obeys_awaitTurn pace).bind fun _ => ?_
    exact (obeys_call trivial).bind fun tracks => ih (addUnseen known tracks)

theorem artistTracks_obeys (pace : Pace) (artist : MediaItem) :
    (artistTracks pace artist).Obeys .expanding := by
  refine (obeys_look _).bind fun select => ?_
  refine (obeys_awaitTurn pace).bind fun _ => ?_
  refine obeys_ite _ ?_ ?_
  · refine (obeys_call trivial).bind fun albums => ?_
    exact (albumsTracks_obeys pace [] albums).bind fun tracks => shuffled_obeys tracks
  · exact (obeys_call trivial).bind fun tracks => shuffled_obeys tracks

theorem episodes_obeys (pace : Pace) (podcast : ItemRef) (start : Option String) :
    (episodes pace podcast start).Obeys .expanding := by
  refine (obeys_awaitTurn pace).bind fun _ => ?_
  refine (obeys_call trivial).bind fun (list : List MediaItem) => ?_
  cases episodeIndex? start list with
  | none => exact obeys_throw _
  | some index => exact obeys_pure _

theorem bookStart_obeys (pace : Pace) (book : MediaItem) (chapters : List Chapter)
    (chapter : Option String) : (bookStart pace book chapters chapter).Obeys .expanding := by
  cases chapter with
  | some chapter =>
    simp only [bookStart]
    cases chapterStart? chapters chapter with
    | none => exact obeys_throw _
    | some ms => exact obeys_pure ms
  | none =>
    refine (obeys_awaitTurn pace).bind fun _ => ?_
    exact (obeys_call trivial).bind fun info => obeys_pure _

theorem expand_obeys (pace : Pace) (m : MediaItem) (start : Option String) :
    (expand pace m start).Obeys .expanding := by
  unfold expand
  split
  · refine (recordContainer_obeys m).bind fun _ => ?_
    refine (obeys_awaitTurn pace).bind fun _ => ?_
    exact (obeys_call trivial).bind fun tracks => obeys_pure _
  · exact (recordContainer_obeys m).bind fun _ => artistTracks_obeys pace m
  · refine (recordContainer_obeys m).bind fun _ => ?_
    refine (obeys_look _).bind fun select => ?_
    refine (obeys_awaitTurn pace).bind fun _ => ?_
    exact (obeys_call trivial).bind fun tracks => obeys_pure _
  · exact (bookStart_obeys pace m _ start).bind fun ms => obeys_pure _
  · exact (recordContainer_obeys m).bind fun _ => episodes_obeys pace _ start
  · exact episodes_obeys pace _ _
  · exact obeys_throw _
  · exact obeys_pure [m]

/-! ## Radio -/

theorem ifSupported_obeys {c : Command α} (hc : c.Obeys R) : (ifSupported c).Obeys R := by
  refine hc.outcome.bind fun result => ?_
  split
  · exact obeys_pure _
  · exact obeys_pure none
  · exact obeys_throw _

theorem baseTracks_obeys (pace : Pace) (known sources : List MediaItem) :
    (baseTracks pace known sources).Obeys .expanding := by
  induction sources generalizing known with
  | nil => exact obeys_pure known
  | cons source more ih =>
    refine (obeys_awaitTurn pace).bind fun _ => ?_
    exact (ifSupported_obeys (obeys_call trivial)).bind fun tracks => ih _

theorem similarPass_obeys (pace : Pace) (allowLookup : Bool) (bases pool rest : List MediaItem) :
    (similarPass pace allowLookup bases pool rest).Obeys .expanding := by
  induction rest generalizing pool with
  | nil => exact obeys_pure pool
  | cons base more ih =>
    refine (obeys_awaitTurn pace).bind fun _ => ?_
    refine (ifSupported_obeys (obeys_call trivial)).bind fun tracks => ?_
    cases tracks with
    | none => exact ih pool
    | some tracks => exact obeys_ite _ (obeys_pure _) (ih _)

theorem similarTracks_obeys (pace : Pace) (bases : List MediaItem) :
    (similarTracks pace bases).Obeys .expanding := by
  refine (similarPass_obeys pace false bases [] bases).bind fun pool => ?_
  exact obeys_ite _ (similarPass_obeys pace true bases [] bases) (obeys_pure pool)

theorem radioBatch_obeys (pace : Pace) (sources : List MediaItem) (initial : Bool) :
    (radioBatch pace sources initial).Obeys .expanding := by
  refine obeys_ite _ (obeys_pure []) ?_
  refine (shuffled_obeys sources).bind fun sources => ?_
  refine (baseTracks_obeys pace [] sources).bind fun known => ?_
  refine obeys_when _ (obeys_throw _) ?_
  refine (shuffled_obeys known).bind fun mixed => ?_
  refine (similarTracks_obeys pace _).bind fun pool => ?_
  exact fun _ h => ⟨⟨.redraw _, .inl ⟨_, rfl⟩, rfl⟩, fun _ _ => trivial⟩

/-! ## Enqueueing -/

/-- New items belong to the queue that they are made for. -/
theorem newItems_yields (queueId : String) (media : List MediaItem)
    (hcount : ∀ nextItem, R.act (.count nextItem)) :
    (newItems queueId media).Yields R fun batch => ∀ i ∈ batch, i.queueId = queueId := by
  intro o h
  refine ⟨⟨.count _, hcount _, rfl⟩, ?_⟩
  intro batch hbatch i hi
  cases hbatch
  obtain ⟨n, hn, rfl⟩ := List.mem_mapIdx.1 hi
  rfl

theorem resolve_obeys (ref : MediaRef) : (resolve ref).Obeys .expanding := by
  cases ref with
  | item m => exact obeys_pure (some m)
  | uri uri =>
    refine (itemByUri_obeys .interactive uri).outcome.bind fun result => ?_
    cases result with
    | ok m => exact obeys_pure (some m)
    | error failure => exact obeys_pure none

theorem chooseOption_yields (queueId : String) (m : MediaItem) {option : Option EnqueueOption}
    (hclear : option = none → R.act (.clear queueId)) :
    (chooseOption queueId m option).Yields R fun chosen => ∀ known, option = some known →
      chosen = known := by
  cases option with
  | some known => exact Yields.pure fun _ h => Option.some.inj h
  | none =>
    refine Yields.weaken (Obeys.bind (obeys_look _) fun chosen => ?_)
      fun _ _ _ hknown => nomatch hknown
    exact obeys_ite _ ((clear_obeys queueId (hclear rfl)).bind fun _ => obeys_pure chosen)
      (obeys_pure chosen)

section Gathering

variable (queueId : String) (radio : Bool) (start : Option String) {g : Gathered}
  (hexpand : Rules.expanding ≤ R) (hremember : ∀ m, R.act (.modify queueId (.remember m)))
  (hclear : g.option = none → R.act (.clear queueId))

include hexpand hremember hclear

/-- One item of a request settles how the request is enqueued. -/
theorem gatherItem_yields (m : MediaItem) :
    (gatherItem queueId radio start g m).Yields R fun g' => ∃ chosen, g'.option = some chosen ∧
      ∀ known, g.option = some known → chosen = known := by
  have hseeds : ∀ (b : Bool) {c : Command Gathered} {P : Gathered → Prop}, c.Yields R P →
      (if b then modifyQueue queueId (·.remember m) >>= fun _ => c else c).Yields R P := by
    intro b c P hc
    cases b with
    | true =>
      have hchange := modifyQueue_obeys queueId (.remember m) (hremember m) rfl
      exact Yields.bind hchange fun _ _ => hc
    | false => exact hc
  refine hseeds m.seedsRadio ?_
  refine (chooseOption_yields queueId m hclear).bind fun option hoption => ?_
  cases radio with
  | true => exact Yields.pure ⟨option, rfl, hoption⟩
  | false =>
    refine Yields.bind ((expand_obeys .interactive m start).within hexpand).outcome
      fun result _ => ?_
    cases result with
    | ok expanded => exact Yields.pure ⟨option, rfl, hoption⟩
    | error failure => exact Yields.pure ⟨option, rfl, hoption⟩

/-- What a request stands for is gathered as the request says; only a request that does not say how
it is enqueued can clear the queue. -/
theorem gather_yields (media : List MediaRef) :
    (gather queueId radio start g media).Yields R fun g' => ∀ known, g.option = some known →
      g'.option = some known := by
  induction media generalizing g with
  | nil => exact Yields.pure fun _ h => h
  | cons ref more ih =>
    refine Yields.bind ((resolve_obeys ref).within hexpand) fun m _ => ?_
    cases m with
    | none => exact ih hclear
    | some m =>
      refine (gatherItem_yields queueId radio start hexpand hremember hclear m).bind
        fun g' ⟨chosen, hchosen, hsame⟩ => ?_
      have hmore := ih (g := g') fun hnone => nomatch hchosen.symm.trans hnone
      refine hmore.weaken fun _ hkept known hknown => hkept known ?_
      rw [hchosen, hsame known hknown]

end Gathering

theorem startOver_obeys (queueId : String) (hstart : R.act (.startOver queueId)) :
    (startOver queueId).Obeys R :=
  obeys_change hstart fun _ _ => rfl

theorem markFirst_obeys (queueId : String)
    (hmark : ∀ first, R.act (.modify queueId (.markFirst first)))
    (hsignal : R.act (.signal queueId false)) : (markFirst queueId).Obeys R := by
  refine (items_obeys queueId).bind fun list => ?_
  refine (modifyQueue_obeys queueId (.markFirst list[0]?) (hmark _) rfl).bind fun _ => ?_
  exact obeys_change hsignal fun _ _ => rfl

theorem fillRadio_obeys (queueId : String) (hexpand : Rules.expanding ≤ R)
    (hcount : ∀ nextItem, R.act (.count nextItem))
    (hload : ∀ batch options, (∀ i ∈ batch, i.queueId = queueId) →
      R.act (.load queueId batch options)) : (fillRadio queueId).Obeys R := by
  refine (queue_obeys queueId).bind fun q => ?_
  refine ((radioBatch_obeys .background q.radioSource false).within hexpand).bind fun tracks => ?_
  refine obeys_ite _ (obeys_pure ()) ?_
  refine (newItems_yields queueId tracks hcount).bind fun batch howner => ?_
  exact (items_obeys queueId).bind fun list => load_obeys queueId _ (hload batch _ howner)

theorem clearCheck_obeys (queueId : String) (checks : Nat) (hclear : R.act (.clear queueId)) :
    (clearCheck queueId checks).Obeys R := by
  induction checks with
  | zero => exact clear_obeys queueId hclear
  | succ checks ih =>
    refine (obeys_look _).bind fun ms => ?_
    refine (obeys_sleep ms).bind fun _ => ?_
    refine (obeys_look _).bind fun e => ?_
    cases e with
    | none => exact obeys_pure ()
    | some e => exact obeys_ite _ ih (obeys_pure ())

end Command

end Jukebox
