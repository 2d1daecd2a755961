import Jukebox.Proofs.Obedience

/-!
# What commands and jobs do

Playing an item looks it up first (`Command.loadAt`), and only when that went well it is sent to the
player, all at once (`Command.send`). Everything else that commands do besides leaves the states of
queues alone, so a property of commands that playing an item has, and that is kept as commands are
put together, holds of every request (`Command.Composes`). One such property is to send items at
most and to do ordinary acts besides (`Program.Plays`). So every command and every job but the
handing over of the next item obeys the rules of commands: it does no act that belongs to handing
over, to the start of a job or to a player that comes, reports or goes, and it loads only items of
the queue that it loads them into. A request or a job that names one queue does no act and makes no
call for another one (`Request.command_works`, `Job.command_works`).
-/

namespace Jukebox

namespace Command

/-! ## The two parts of playing an item -/

/-- An item is looked up to be played; with it comes whether its stream is a continuous one. -/
def loadAt (queueId : String) (key : ItemKey) (seek : UInt32) (fadeIn : Bool) :
    Command (QueueItem × Bool) := do
  let e ← entry queueId
  let (index, item) ← find e key
  let flow ← look fun _ h => h.config.flowMode queueId
  let _ ← modifyQueue queueId (·.buffering index item flow)
  let seek :=
    if seek = 0 then ((item.media.bind (·.resumePositionMs)).map resumeSecond).getD 0 else seek
  let following := nextIndex e.items.length e.queue.repeatMode (some index) false false
  match ← outcome (loadItem queueId item following true seek fadeIn) with
  | .error failure =>
    let _ ← modifyQueue queueId (·.settle e.queue.state)
    if failure.isNotFound then
      let _ ← updateItem queueId item.id QueueItem.markUnavailable
    throw failure
  | .ok loaded =>
    let _ ← modifyQueue queueId fun q =>
      { q.settle e.queue.state with currentItem := some loaded }
    return (loaded, flow)

/-- A loaded item is sent to the player. -/
def send (queueId : String) (item : QueueItem) (flow debounce : Bool) : Command Unit := do
  dispatch queueId item flow debounce
  signal queueId false

variable (queueId : String)

theorem playIndex_eq (key : ItemKey) (seek : UInt32) (fadeIn debounce : Bool) :
    playIndex queueId key seek fadeIn debounce =
      loadAt queueId key seek fadeIn >>= fun found => send queueId found.1 found.2 debounce := by
  simp only [playIndex, loadAt, bind_assoc]
  refine bind_congr fun e => bind_congr fun found => bind_congr fun flow => bind_congr fun _ => ?_
  refine bind_congr fun result => ?_
  cases result with
  | error failure =>
    simp only [bind_assoc]
    refine bind_congr fun _ => ?_
    split
    · rw [bind_assoc]
      rfl
    · rfl
  | ok loaded =>
    simp only [bind_assoc, pure_bind]
    rfl

/-- An item that is looked up to be played is loaded, and meanwhile the queue buffers. -/
theorem loadAt_obeys {R : Rules} (hload : Rules.loading.confined queueId ≤ R)
    (hbuffer : ∀ index item flow, R.act (.modify queueId (.buffer index item flow)))
    (hsettle : ∀ prior, R.act (.modify queueId (.settle prior)))
    (harrive : ∀ prior loaded, R.act (.modify queueId (.arrive prior loaded))) (key : ItemKey)
    (seek : UInt32) (fadeIn : Bool) : (loadAt queueId key seek fadeIn).Obeys R := by
  refine (entry_obeys queueId).bind fun e => ?_
  refine (find_obeys e key).bind fun found => ?_
  refine (obeys_look _).bind fun flow => ?_
  refine (modifyQueue_obeys queueId _ (hbuffer found.1 found.2 flow) rfl).bind fun _ => ?_
  refine Obeys.bind ((loadItem_obeys _ _ _ _ _ _).within hload).outcome fun result => ?_
  cases result with
  | error failure =>
    refine (modifyQueue_obeys queueId _ (hsettle e.queue.state) rfl).bind fun _ => ?_
    refine obeys_ite _ ?_ (obeys_throw failure)
    exact (updateItem_obeys queueId _ .unavailable (hload.1 _ ⟨⟨_, _, _, rfl⟩, rfl⟩) rfl).bind
      fun _ => obeys_throw failure
  | ok loaded =>
    exact (modifyQueue_obeys queueId _ (harrive e.queue.state loaded) rfl).bind
      fun _ => obeys_pure _

/-- An item that is looked up is neither sent nor brought in. -/
theorem loadAt_plain (key : ItemKey) (seek : UInt32) (fadeIn : Bool) :
    (loadAt queueId key seek fadeIn).Obeys .plain :=
  loadAt_obeys queueId (Rules.le_trans Rules.confined_le Rules.loading_le_plain)
    (fun _ _ _ => ⟨trivial, id⟩) (fun _ => ⟨trivial, id⟩) (fun _ _ => ⟨trivial, id⟩) key seek fadeIn

theorem send_obeys {R : Rules} (hdispatch : ∀ delay media, R.act (.dispatch queueId delay media))
    (hsignal : R.act (.signal queueId false)) (item : QueueItem) (flow debounce : Bool) :
    (send queueId item flow debounce).Obeys R :=
  fun _ _ => ⟨⟨_, hdispatch _ _, rfl⟩, fun _ _ => ⟨⟨_, hsignal, rfl⟩, fun _ _ => trivial⟩⟩

end Command

/-! ## Programs that send items -/

namespace Program

variable {α β : Type} {R : Rules}

/-- Whether a program sends items to players at most, and obeys the rules in all else that it
does. -/
inductive Plays (R : Rules) {α : Type} : Program α → Prop
  | done (value : α) : Plays R (.done value)
  | part {β : Type} {P : β → Prop} {p : Program β} {f : β → Program α} (hp : p.Yields R P none)
      (hf : ∀ value, P value → (f value).Plays R) : Plays R (p.bind f)
  | send (queueId : String) (item : QueueItem) (flow debounce : Bool)
      {f : Except Failure Unit → Program α} (hf : ∀ result, (f result).Plays R) :
      Plays R ((Command.send queueId item flow debounce).run.bind f)

variable {p : Program α} {f : α → Program β}

theorem Plays.bind (hp : p.Plays R) (hf : ∀ value, (f value).Plays R) : (p.bind f).Plays R := by
  induction hp with
  | done value => exact hf value
  | part hp _ ih =>
    rw [bind_assoc]
    exact .part hp ih
  | send queueId item flow debounce _ ih =>
    rw [bind_assoc]
    exact .send queueId item flow debounce ih

theorem Plays.within {S : Rules} (hp : p.Plays R) (h : R ≤ S) : p.Plays S := by
  induction hp with
  | done value => exact .done value
  | part hp _ ih => exact .part (hp.mono h.1 h.2 fun _ => id) ih
  | send queueId item flow debounce _ ih => exact .send queueId item flow debounce ih

/-- Where items may be sent, a program that does so is obedient. -/
theorem Plays.yields (hp : p.Plays R)
    (hdispatch : ∀ queueId delay media, R.act (.dispatch queueId delay media))
    (hsignal : ∀ queueId, R.act (.signal queueId false)) : p.Yields R (fun _ => True) none := by
  induction hp with
  | done value => exact trivial
  | part hp _ ih => exact hp.bind ih
  | send queueId item flow debounce _ ih =>
    exact fun o h => ⟨⟨_, hdispatch _ _ _, rfl⟩, fun _ _ => ⟨⟨_, hsignal _, rfl⟩, ih _⟩⟩

end Program

namespace Command

variable {α β : Type} {R : Rules} {c : Command α}

/-- Whether a command sends items to players at most, and obeys the rules in all else that it
does. -/
def Plays (R : Rules) (c : Command α) : Prop := c.run.Plays R

/-- A part of a command goes on with the values that it yields. -/
theorem Yields.plays_bind {P : α → Prop} {f : α → Command β} (hc : c.Yields R P)
    (hf : ∀ value, P value → (f value).Plays R) : (c >>= f).Plays R := by
  refine Program.Plays.part hc fun result hresult => ?_
  cases result with
  | ok value => exact hf value (hresult value rfl)
  | error failure => exact .done _

theorem Obeys.plays (hc : c.Obeys R) : c.Plays R := by
  have hrun := Program.Plays.part hc.yields_run fun result _ => .done result
  rwa [Program.bind_done] at hrun

theorem Plays.bind {f : α → Command β} (hc : c.Plays R) (hf : ∀ value, (f value).Plays R) :
    (c >>= f).Plays R := by
  refine Program.Plays.bind hc fun result => ?_
  cases result with
  | ok value => exact hf value
  | error failure => exact .done _

theorem Plays.outcome (hc : c.Plays R) : (outcome c).Plays R :=
  Program.Plays.bind hc fun _ => .done _

theorem send_plays (queueId : String) (item : QueueItem) (flow debounce : Bool) :
    (send queueId item flow debounce).Plays R := by
  have hrun : ((send queueId item flow debounce).run.bind .done).Plays R :=
    .send queueId item flow debounce .done
  rwa [Program.bind_done] at hrun

theorem playIndex_plays (queueId : String) (key : ItemKey) (seek : UInt32)
    (fadeIn debounce : Bool) : (playIndex queueId key seek fadeIn debounce).Plays .plain := by
  rw [playIndex_eq]
  exact (loadAt_plain queueId key seek fadeIn).plays.bind fun found => send_plays _ _ _ _

/-! ## Commands that play items -/

/-- Whether a property of commands is kept as they are put together: it holds of playing an item of
a queue and of what obeys the rules, and it is kept by sequences and by outcomes. -/
structure Composes (queueId : String) (R : Rules) (C : {α : Type} → Command α → Prop) : Prop where
  obeys {α : Type} {c : Command α} (hc : c.Obeys R) : C c
  part {α β : Type} {P : α → Prop} {c : Command α} {f : α → Command β} (hc : c.Yields R P)
    (hf : ∀ v, P v → C (f v)) : C (c >>= f)
  bind {α β : Type} {c : Command α} {f : α → Command β} (hc : C c) (hf : ∀ v, C (f v)) :
    C (c >>= f)
  outcome {α : Type} {c : Command α} (hc : C c) : C (outcome c)
  playIndex (key : ItemKey) (seek : UInt32) (fadeIn debounce : Bool) :
    C (playIndex queueId key seek fadeIn debounce)

theorem plays_composes (h : Rules.plain ≤ R) (queueId : String) :
    Composes queueId R (Plays R) where
  obeys hc := hc.plays
  part hc hf := hc.plays_bind hf
  bind hc hf := hc.bind hf
  outcome hc := hc.outcome
  playIndex key seek fadeIn debounce := (playIndex_plays queueId key seek fadeIn debounce).within h

/-- Obeying the rules of commands and jobs, on one queue only, is kept as commands are put
together. -/
theorem obeys_composes (queueId : String) :
    Composes queueId (Rules.work.confined queueId) (Obeys (Rules.work.confined queueId)) where
  obeys := id
  part hc hf := Yields.bind hc hf
  bind hc hf := hc.bind hf
  outcome hc := hc.outcome
  playIndex key seek fadeIn debounce := by
    rw [playIndex_eq]
    refine Obeys.bind ?_ fun found => ?_
    · exact loadAt_obeys queueId (Rules.confined_mono Rules.loading_le_work)
        (fun _ _ _ => ⟨trivial, rfl⟩) (fun _ => ⟨trivial, rfl⟩) (fun _ _ => ⟨trivial, rfl⟩) key seek
        fadeIn
    · exact send_obeys (R := Rules.work.confined queueId) queueId (fun _ _ => ⟨trivial, rfl⟩)
        ⟨trivial, rfl⟩ _ _ _

namespace Composes

variable {C : {α : Type} → Command α → Prop} {queueId : String}

theorem ite (_ : Composes queueId R C) (p : Prop) [Decidable p] {c d : Command α} (hc : C c)
    (hd : C d) : C (if p then c else d) := by
  split
  · exact hc
  · exact hd

variable (hC : Composes queueId R C)

include hC

theorem within {S : Rules} (h : S ≤ R) : Composes queueId S C where
  obeys hc := hC.obeys (hc.within h)
  part hc hf := hC.part (hc.mono h.1 h.2 fun _ => id) hf
  bind := hC.bind
  outcome := hC.outcome
  playIndex := hC.playIndex

theorem part_of_obeys {f : α → Command β} (hc : c.Obeys R) (hf : ∀ v, C (f v)) : C (c >>= f) :=
  hC.part hc fun v _ => hf v

/-- An obedient part that is left out under a condition. -/
theorem when (p : Prop) [Decidable p] {d : Command β} (hc : c.Obeys R) (hd : C d) :
    C (if p then c >>= fun _ => d else d) :=
  hC.ite p (hC.part_of_obeys hc fun _ => hd) hd

theorem tryNext (length : Nat) (mode : RepeatMode) (tries : Nat) (cursor : Option Nat) :
    C (tryNext queueId length mode tries cursor) := by
  induction tries generalizing cursor with
  | zero => exact hC.obeys (obeys_pure ())
  | succ tries ih =>
    unfold Command.tryNext
    cases nextIndex length mode cursor true true with
    | none => exact hC.obeys (obeys_pure ())
    | some index =>
      refine hC.bind (hC.outcome (hC.playIndex (.index index) 0 false true)) fun result => ?_
      cases result with
      | ok _ => exact hC.obeys (obeys_pure ())
      | error failure => exact hC.ite _ (ih (some index)) (hC.obeys (obeys_throw failure))

theorem next : C (next queueId) := by
  refine hC.part_of_obeys (obeys_look _) fun q => ?_
  cases q with
  | none => exact hC.obeys (obeys_pure ())
  | some q => exact hC.part_of_obeys (items_obeys queueId) fun _ => hC.tryNext _ _ _ _

theorem previous : C (previous queueId) := by
  refine hC.part_of_obeys (obeys_look _) fun q => ?_
  cases q.bind (·.currentIndex) with
  | none => exact hC.obeys (obeys_pure ())
  | some index => exact hC.playIndex _ _ _ _

theorem seek (position : Int) : C (seek queueId position) := by
  refine hC.part_of_obeys (obeys_look _) fun q => ?_
  rcases q with _ | q
  · exact hC.obeys (obeys_pure ())
  · rcases hitem : q.currentItem with _ | item
    · simp only [hitem]
      exact hC.obeys (obeys_throw _)
    · simp only [hitem]
      refine hC.ite _ (hC.obeys (obeys_throw _)) ?_
      exact hC.ite _ (hC.obeys (obeys_throw _)) (hC.playIndex _ _ _ _)

theorem skip (seconds : Int) : C (skip queueId seconds) := by
  refine hC.part_of_obeys (obeys_look _) fun q => ?_
  cases q with
  | none => exact hC.obeys (obeys_pure ())
  | some q => exact hC.seek _

theorem resume (fadeIn : Option Bool) : C (resume queueId fadeIn) := by
  refine hC.part_of_obeys (entry_obeys queueId) fun e => ?_
  refine hC.part_of_obeys (obeys_look _) fun clock => ?_
  cases resumePoint e clock with
  | none => exact hC.obeys (obeys_throw _)
  | some point =>
    exact hC.part_of_obeys (report?_obeys queueId) fun _ => hC.playIndex _ _ _ _

theorem play (hhandle : Rules.handling.confined queueId ≤ R) : C (play queueId) := by
  refine hC.part_of_obeys (report?_obeys queueId) fun r => ?_
  cases r with
  | none => exact hC.obeys (obeys_throw _)
  | some r =>
    refine hC.part_of_obeys (queue_obeys queueId) fun q => ?_
    exact hC.ite _ (hC.obeys (obeys_call (hhandle.2 _ ⟨trivial, rfl⟩))) (hC.resume none)

theorem playPause (hhandle : Rules.handling.confined queueId ≤ R) : C (playPause queueId) := by
  refine hC.part_of_obeys (queue_obeys queueId) fun q => ?_
  exact hC.ite _ (hC.obeys ((pause_obeys queueId).within hhandle)) (hC.play hhandle)

end Composes

namespace Composes

variable {C : {α : Type} → Command α → Prop}

theorem transfer {targetId : String} (hC : Composes targetId .beside C) (sourceId : String)
    (autoPlay : Option Bool) : C (transfer sourceId targetId autoPlay) := by
  refine hC.part_of_obeys (queue_obeys sourceId) fun source => ?_
  refine hC.part_of_obeys (queue_obeys targetId) fun _ => ?_
  refine hC.part_of_obeys ((leaveGroup_obeys targetId).within Rules.handling_le_beside) fun _ => ?_
  refine hC.part_of_obeys (items_obeys sourceId) fun list => ?_
  refine hC.part_of_obeys
    (modifyQueue_obeys targetId (.takeOver source targetId) ⟨trivial, trivial⟩ rfl) fun _ => ?_
  refine hC.part_of_obeys (clear_obeys sourceId ⟨trivial, trivial⟩) fun _ => ?_
  have howner : ∀ i ∈ list.map (·.inQueue targetId), i.queueId = targetId := by
    intro i hi
    obtain ⟨i, -, rfl⟩ := List.mem_map.1 hi
    rfl
  refine hC.part_of_obeys (load_obeys targetId .replacing ⟨howner, trivial⟩) fun _ => ?_
  exact hC.ite _ (hC.resume none) (hC.obeys (obeys_pure ()))

variable {queueId : String} (hC : Composes queueId (Rules.beside.confined queueId) C)

include hC

theorem place (option : EnqueueOption) {batch : List QueueItem} (radio : Bool)
    (howner : ∀ i ∈ batch, i.queueId = queueId) : C (place queueId option batch radio) := by
  have hload : ∀ options, (load queueId batch options).Obeys (Rules.beside.confined queueId) :=
    fun options => load_obeys queueId options ⟨⟨howner, trivial⟩, rfl⟩
  refine hC.part_of_obeys (entry_obeys queueId) fun e => ?_
  cases option with
  | replace => exact hC.part_of_obeys (hload _) fun _ => hC.playIndex _ _ _ _
  | next => exact hC.obeys (hload _)
  | replaceNext => exact hC.obeys (hload _)
  | play =>
    refine hC.part_of_obeys (hload _) fun _ => ?_
    exact hC.part_of_obeys (items_obeys queueId) fun list => hC.playIndex _ _ _ _
  | add =>
    refine hC.part_of_obeys (hload _) fun _ => hC.ite _ (hC.obeys ?_) (hC.obeys (obeys_pure ()))
    exact markFirst_obeys queueId (fun _ => ⟨⟨trivial, trivial⟩, rfl⟩) ⟨⟨trivial, trivial⟩, rfl⟩

theorem playMedia (media : List MediaRef) (option : Option EnqueueOption) (radio : Bool)
    (start : Option String) : C (playMedia queueId media option radio start) := by
  have hexpand : Rules.expanding ≤ Rules.beside.confined queueId :=
    Rules.le_trans Rules.expanding_le_confined (Rules.confined_mono Rules.expanding_le_beside)
  have hplace : ∀ option media, C (do
      let batch ← newItems queueId media
      if batch.isEmpty then throw .nothingPlayable
      Command.place queueId option batch radio) := by
    intro option media
    refine hC.part (newItems_yields queueId media fun _ => ⟨⟨trivial, trivial⟩, trivial⟩)
      fun batch howner => ?_
    exact hC.ite _ (hC.obeys (obeys_throw _)) (hC.place option radio howner)
  refine hC.part_of_obeys (queue_obeys queueId) fun _ => ?_
  refine hC.part_of_obeys (report?_obeys queueId) fun r => ?_
  cases r with
  | none => exact hC.obeys (obeys_throw _)
  | some r =>
    refine hC.ite _ (hC.obeys (obeys_pure ())) ?_
    refine hC.part_of_obeys (startOver_obeys queueId ⟨⟨trivial, trivial⟩, rfl⟩) fun _ => ?_
    refine hC.when _ (clear_obeys queueId ⟨⟨trivial, trivial⟩, rfl⟩) ?_
    refine hC.when _ (modifyQueue_obeys queueId .forget ⟨⟨trivial, trivial⟩, rfl⟩ rfl) ?_
    refine hC.part_of_obeys (gather_yields queueId radio start hexpand
      (fun _ => ⟨⟨trivial, trivial⟩, rfl⟩) (fun _ => ⟨⟨trivial, trivial⟩, rfl⟩) media).obeys
      fun g => ?_
    refine hC.part_of_obeys (modifyQueue_obeys queueId (.seed (g.option.getD .play) g.seeds)
      ⟨⟨trivial, trivial⟩, rfl⟩ rfl) fun q => ?_
    refine hC.ite _ ?_ ?_
    · exact hC.part_of_obeys ((radioBatch_obeys _ _ _).within hexpand) fun media => hplace _ media
    · exact hC.part_of_obeys (obeys_pure g.media) fun media => hplace _ media

end Composes

end Command

/-! ## Requests and jobs -/

/-- The act of a request that takes effect at once. -/
def Request.act? : Request → Option Act
  | setShuffle queueId enabled => some (.setShuffle queueId enabled)
  | setRepeat queueId mode => some (.setRepeat queueId mode)
  | setDontStop queueId enabled => some (.setDontStop queueId enabled)
  | moveItem queueId itemId shift => some (.moveItem queueId itemId shift)
  | deleteItem queueId key => some (.deleteItem queueId key)
  | clear queueId => some (.clear queueId)
  | trackLoaded queueId itemId => some (.trackLoaded queueId itemId)
  | logFlow queueId entry => some (.logFlow queueId entry)
  | _ => none

theorem Request.obeys_of_act {R : Rules} {request : Request} {a : Act}
    (hact : request.act? = some a) (ha : R.act a) : request.command.Obeys R := by
  cases request <;> cases hact <;> exact Command.obeys_step ha fun _ _ => rfl

/-- Whether a request brings items into a list. -/
def Request.BringsIn : Request → Prop
  | playMedia .. => True
  | transfer .. => True
  | fillRadio _ => True
  | _ => False

/-- The queue that a request is addressed to. Moving a queue concerns two of them, and shutting down
all. -/
def Request.queueId? : Request → Option String
  | setShuffle queueId _ => some queueId
  | setRepeat queueId _ => some queueId
  | setDontStop queueId _ => some queueId
  | playMedia queueId .. => some queueId
  | moveItem queueId _ _ => some queueId
  | deleteItem queueId _ => some queueId
  | clear queueId => some queueId
  | stop queueId => some queueId
  | play queueId => some queueId
  | pause queueId => some queueId
  | playPause queueId => some queueId
  | next queueId => some queueId
  | previous queueId => some queueId
  | skip queueId _ => some queueId
  | seek queueId _ => some queueId
  | resume queueId _ => some queueId
  | playIndex queueId .. => some queueId
  | transfer .. => none
  | loadNextItem queueId _ => some queueId
  | trackLoaded queueId _ => some queueId
  | logFlow queueId _ => some queueId
  | fillRadio queueId => some queueId
  | shutdown => none

namespace Command.Composes

variable {C : {α : Type} → Command α → Prop} {queueId : String}

/-- What holds of commands that are put together holds of every request that brings in no items. -/
theorem requestPlain (hC : Composes queueId (Rules.besidePlain.confined queueId) C)
    (request : Request) (hqueue : request.queueId? = some queueId) (hin : ¬ request.BringsIn) :
    C request.command := by
  have hhandle : Rules.handling.confined queueId ≤ Rules.besidePlain.confined queueId :=
    Rules.confined_mono Rules.handling_le_besidePlain
  have hinstant : ∀ {a}, request.act? = some a →
      ((a.Ordinary ∧ a.KeepsState) ∧ ¬ a.BringsIn) ∧ NamesOnly queueId a.target? →
      C request.command := fun hact ha => hC.obeys (Request.obeys_of_act hact ha)
  cases request with
  | stop => cases hqueue; exact hC.obeys ((stop_obeys queueId).within hhandle)
  | play => cases hqueue; exact hC.play hhandle
  | pause => cases hqueue; exact hC.obeys ((pause_obeys queueId).within hhandle)
  | playPause => cases hqueue; exact hC.playPause hhandle
  | next => cases hqueue; exact hC.next
  | previous => cases hqueue; exact hC.previous
  | skip _ seconds => cases hqueue; exact hC.skip seconds
  | seek _ position => cases hqueue; exact hC.seek position
  | resume _ fadeIn => cases hqueue; exact hC.resume fadeIn
  | playIndex _ key position fadeIn debounce =>
    cases hqueue
    exact hC.playIndex key position fadeIn debounce
  | loadNextItem _ currentItemId =>
    cases hqueue
    have hload := (loadNextItem_obeys queueId currentItemId).within
      (Rules.confined_mono Rules.loading_le_besidePlain)
    exact hC.obeys (Obeys.bind hload fun _ => obeys_pure ())
  | playMedia => exact absurd trivial hin
  | fillRadio => exact absurd trivial hin
  | transfer => cases hqueue
  | shutdown => cases hqueue
  | _ => cases hqueue; exact hinstant rfl ⟨⟨⟨trivial, trivial⟩, id⟩, rfl⟩

/-- What holds of commands that are put together holds of every request of the queue. -/
theorem request (hC : Composes queueId (Rules.beside.confined queueId) C) (request : Request)
    (hqueue : request.queueId? = some queueId) : C request.command := by
  cases request with
  | playMedia _ media option radio start =>
    cases hqueue
    exact hC.playMedia media option radio start
  | fillRadio =>
    cases hqueue
    have hexpand : Rules.expanding ≤ Rules.beside.confined queueId :=
      Rules.le_trans Rules.expanding_le_confined (Rules.confined_mono Rules.expanding_le_beside)
    exact hC.obeys (fillRadio_obeys queueId hexpand (fun _ => ⟨⟨trivial, trivial⟩, trivial⟩)
      fun _ _ howner => ⟨⟨howner, trivial⟩, rfl⟩)
  | transfer => cases hqueue
  | _ =>
    exact (hC.within (Rules.confined_mono Rules.besidePlain_le_beside)).requestPlain _ hqueue id

/-- What holds of commands that are put together, on whatever queue, holds of every request. -/
theorem requestAny (hC : ∀ queueId, Composes queueId .beside C) (request : Request)
    (hup : request ≠ .shutdown) : C request.command := by
  cases hqueue : request.queueId? with
  | some queueId => exact ((hC queueId).within Rules.confined_le).request request hqueue
  | none =>
    cases request with
    | transfer sourceId targetId autoPlay => exact (hC targetId).transfer sourceId autoPlay
    | shutdown => exact absurd rfl hup
    | _ => cases hqueue

end Command.Composes

/-- A request that brings in no items sends items at most, and is plain else. -/
theorem Request.command_plain (request : Request) (hup : request ≠ .shutdown)
    (hin : ¬ request.BringsIn) : request.command.Plays .plain := by
  have hcomposes := Command.plays_composes (R := .plain) ⟨fun _ => id, fun _ => id⟩
  cases hqueue : request.queueId? with
  | some queueId =>
    exact ((hcomposes queueId).within (Rules.le_trans Rules.confined_le
      Rules.besidePlain_le_plain)).requestPlain request hqueue hin
  | none =>
    cases request with
    | transfer => exact absurd trivial hin
    | shutdown => exact absurd rfl hup
    | _ => cases hqueue

/-- Every request but shutting down sends items at most, and is ordinary else. -/
theorem Request.command_plays (request : Request) (hup : request ≠ .shutdown) :
    request.command.Plays .ordinary :=
  Command.Composes.requestAny (fun queueId => (Command.plays_composes Rules.plain_le_ordinary
    queueId).within Rules.beside_le_ordinary) request hup

/-- Every request but shutting down obeys the rules of commands. -/
theorem Request.command_obeys (request : Request) (hup : request ≠ .shutdown) :
    request.command.Obeys .command :=
  Program.Yields.mono (fun _ => id) (fun _ => id) (fun _ _ _ _ => trivial) <|
    ((request.command_plays hup).within Rules.ordinary_le_command).yields (fun _ _ _ => trivial)
      fun _ => trivial

/-- Every request of a queue obeys the rules, on that queue only. -/
theorem Request.command_works (request : Request) {queueId : String}
    (hqueue : request.queueId? = some queueId) :
    request.command.Obeys (Rules.work.confined queueId) :=
  ((Command.obeys_composes queueId).within
    (Rules.confined_mono Rules.beside_le_work)).request request hqueue

open Command in
/-- Shutting down cancels the waiting jobs and stops the players. -/
theorem shutdown_obeys {R : Rules} (hhandle : Rules.handling ≤ R) (hcancel : R.act .cancelAll) :
    Command.shutdown.Obeys R := by
  refine (obeys_change hcancel fun _ _ => rfl).bind fun _ => ?_
  exact (obeys_look _).bind fun queues => (stopAll_obeys queues).within hhandle

open Command in
/-- No job but sending an item and handing over the next one does what playing an item does. -/
theorem Job.command_beside (job : Job)
    (hsends : ∀ queueId media, job ≠ .dispatch queueId media)
    (hother : ∀ queueId itemId, job ≠ .preload queueId itemId) :
    job.command.Obeys .beside := by
  cases job with
  | dispatch queueId media => exact absurd rfl (hsends queueId media)
  | preload queueId itemId => exact absurd rfl (hother queueId itemId)
  | fillRadio queueId =>
    exact fillRadio_obeys queueId Rules.expanding_le_beside (fun _ => ⟨trivial, trivial⟩)
      fun _ _ howner => ⟨howner, trivial⟩
  | clearCheck queueId =>
    exact (obeys_look _).bind fun checks => clearCheck_obeys queueId checks ⟨trivial, trivial⟩
  | stop queueId =>
    exact (stop_obeys queueId).within (Rules.le_trans Rules.confined_le Rules.handling_le_beside)
  | markPlayed report => exact obeys_call ⟨id, id⟩
  | streamed details seconds fully => exact obeys_call ⟨id, id⟩

/-- Every job but sending an item and handing over the next one is ordinary. -/
theorem Job.command_ordinary (job : Job)
    (hsends : ∀ queueId media, job ≠ .dispatch queueId media)
    (hother : ∀ queueId itemId, job ≠ .preload queueId itemId) :
    job.command.Obeys .ordinary :=
  (job.command_beside hsends hother).within Rules.beside_le_ordinary

/-- Every job but handing over the next item obeys the rules of commands. -/
theorem Job.command_obeys (job : Job) (hother : ∀ queueId itemId, job ≠ .preload queueId itemId) :
    job.command.Obeys .command := by
  by_cases hsends : ∃ queueId media, job = .dispatch queueId media
  · obtain ⟨queueId, media, rfl⟩ := hsends
    exact Command.obeys_call id
  · refine (job.command_ordinary (fun queueId media h => ?_) hother).within
      Rules.ordinary_le_command
    exact hsends ⟨queueId, media, h⟩

open Command in
/-- Every job obeys the rules, on its queue only if it has one. -/
theorem Job.command_works (job : Job) {queueId : String} (hqueue : NamesOnly queueId job.queueId?) :
    job.command.Obeys (Rules.work.confined queueId) := by
  cases job with
  | dispatch => cases hqueue; exact obeys_call ⟨trivial, rfl⟩
  | preload _ itemId =>
    cases hqueue
    exact preload_obeys queueId itemId (Rules.confined_mono Rules.loading_le_work)
      (fun _ => ⟨trivial, rfl⟩) ⟨trivial, rfl⟩ fun _ => ⟨trivial, rfl⟩
  | fillRadio =>
    cases hqueue
    exact fillRadio_obeys queueId (Rules.le_trans Rules.expanding_le_confined
      (Rules.confined_mono Rules.expanding_le_work)) (fun _ => ⟨trivial, trivial⟩)
      fun _ _ howner => ⟨howner, rfl⟩
  | clearCheck =>
    cases hqueue
    exact (obeys_look _).bind fun checks => clearCheck_obeys queueId checks ⟨trivial, rfl⟩
  | stop =>
    cases hqueue
    exact (stop_obeys queueId).within (Rules.confined_mono Rules.handling_le_work)
  | markPlayed report => exact obeys_call ⟨trivial, trivial⟩
  | streamed details seconds fully => exact obeys_call ⟨trivial, trivial⟩

end Jukebox
