import Jukebox.Proofs.Playing
import Jukebox.Proofs.Soundness

/-!
# Items that programs bring in

A program brings items into a list in two ways. It numbers new ones and loads them, once; or it
looks at a queue and puts copies of its items in place of another list, with its settings. What a
program holds meanwhile (`Held`) is told from what it has done, stop by stop (`Program.Brings`), and
it depends on no state of the hub that may change before the items are loaded.
-/

namespace Jukebox

/-- The id of the item of a number. -/
def newId (n : Nat) : String := "qi" ++ toString n

/-- The ids of so many items, numbered from `first` on. -/
def newIds (first count : Nat) : List String := (List.range count).map fun n => newId (first + n)

/-- What a program holds that it may bring into a list. -/
inductive Held where
  | nothing
  /-- New items of these ids. -/
  | batch (ids : List String)
  /-- A queue and a list that it looked at. -/
  | seen (q : Queue) (items : List QueueItem)

namespace Held

/-- What a program may hold after it looked at a hub. -/
inductive Looks (h : Hub) : Held → Held → Prop
  | away (held : Held) : Looks h held held
  | queue {queueId : String} {e : Entry} (he : h.entry? queueId = some e) :
      Looks h .nothing (.seen e.queue e.items)
  | items (queueId : String) (q : Queue) (items : List QueueItem) :
      Looks h (.seen q items) (.seen q (h.items queueId))

/-- What a program may do that holds something, and what it holds then. -/
inductive Does (h : Hub) : Held → Act → Held → Prop
  | other (held : Held) {a : Act} (ha : ¬ a.BringsIn) : Does h held a held
  | number (count : Nat) :
      Does h .nothing (.count (h.nextItem + count)) (.batch (newIds h.nextItem count))
  | load (queueId : String) (batch : List QueueItem) (options : LoadOptions) :
      Does h (.batch (ids batch)) (.load queueId batch options) .nothing
  | takeOver (queueId targetId : String) (q : Queue) (items : List QueueItem) :
      Does h (.seen q items) (.modify queueId (.takeOver q targetId)) (.seen q items)
  | replace (queueId : String) (q : Queue) {items batch : List QueueItem}
      (hids : ids batch = ids items) :
      Does h (.seen q items) (.load queueId batch .replacing) .nothing

end Held

/-! ## Programs -/

namespace Program

variable {α β : Type} {R : Rules}

/-- Whether a program that holds something brings in nothing else, whatever it sees and whatever it
is answered. `seen` is the hub that it may change at this instant. -/
def Brings : Held → Option (Outside × Hub) → Program α → Prop
  | _, _, done _ => True
  | held, _, read next =>
    ∀ o h, ∃ held', held.Looks h held' ∧ (next o h).Brings held' (some (o, h))
  | held, some (o, h), write h' next =>
    ∃ a held', held.Does h a held' ∧ h' = a.apply o h ∧ next.Brings held' none
  | _, none, write _ _ => False
  | held, _, call _ next => ∀ reply, (next reply).Brings held none
  | held, _, sleep _ next => next.Brings held none
  | held, _, turn next => next.Brings held none

theorem Brings.after {held : Held} {p : Program α} (hp : p.Brings held none)
    (seen : Option (Outside × Hub)) : p.Brings held seen := by
  cases seen with
  | none => exact hp
  | some at_ =>
    cases p with
    | write h next => exact hp.elim
    | _ => exact hp

/-- What brings in nothing may come first. -/
theorem Yields.brings_bind {P : α → Prop} {p : Program α} {f : α → Program β} {held : Held}
    {seen : Option (Outside × Hub)} (hp : p.Yields R P seen) (hR : ∀ a, R.act a → ¬ a.BringsIn)
    (hf : ∀ value, P value → (f value).Brings held none) : (p.bind f).Brings held seen := by
  induction p generalizing seen with
  | done value => exact (hf value hp).after seen
  | read next ih => exact fun o h => ⟨held, .away held, ih o h (hp o h)⟩
  | write h' next ih =>
    cases seen with
    | none => exact hp.elim
    | some at_ =>
      obtain ⟨⟨a, ha, heq⟩, hnext⟩ := hp
      exact ⟨a, held, .other held (hR a ha), heq, ih hnext⟩
  | call c next ih => exact fun reply => ih reply (hp.2 reply)
  | sleep ms next ih => exact @ih none hp
  | turn next ih => exact @ih none hp

/-- By one stop a program looks at the hub and does one act at most, and goes on with what it holds
then. -/
theorem Brings.advance {held : Held} {p : Program α} (hp : p.Brings held none) (o : Outside)
    (answers : Answers) (h : Hub) :
    ∃ held₁ held₂, held.Looks h held₁ ∧ (p.advance o answers h).1.Brings held₂ none ∧
      ((held₂ = held₁ ∧ (p.advance o answers h).2 = h) ∨
        ∃ a, held₁.Does h a held₂ ∧ (p.advance o answers h).2 = a.apply o h) := by
  cases p with
  | done value => exact ⟨held, held, .away held, trivial, .inl ⟨rfl, rfl⟩⟩
  | read next =>
    obtain ⟨held₁, hlooks, hnext⟩ := hp o h
    cases hcase : next o h with
    | write h' rest =>
      rw [hcase] at hnext
      obtain ⟨a, held₂, hdoes, heq, hrest⟩ := hnext
      simp only [Program.advance, hcase]
      exact ⟨held₁, held₂, hlooks, hrest, .inr ⟨a, hdoes, heq⟩⟩
    | _ =>
      rw [hcase] at hnext
      simp only [Program.advance, hcase]
      exact ⟨held₁, held₁, hlooks, hnext, .inl ⟨rfl, trivial⟩⟩
  | write h' next => exact hp.elim
  | call c next => exact ⟨held, held, .away held, hp (answers c), .inl ⟨rfl, rfl⟩⟩
  | sleep ms next => exact ⟨held, held, .away held, hp, .inl ⟨rfl, rfl⟩⟩
  | turn next => exact ⟨held, held, .away held, hp, .inr ⟨.takeTurn, .other held id, rfl⟩⟩

end Program

/-! ## Commands -/

/-- The rules of programs that bring in nothing. -/
def Rules.settled : Rules := { act := fun a => ¬ a.BringsIn, call := fun _ => True }

theorem Rules.plain_le_settled : plain ≤ settled := ⟨fun _ ha => ha.2, fun _ _ => trivial⟩

theorem Rules.handling_le_settled : handling ≤ settled :=
  le_trans handling_le_plain plain_le_settled

theorem Rules.expanding_le_settled : expanding ≤ settled :=
  le_trans expanding_le_plain plain_le_settled

namespace Command

variable {α β : Type} {held : Held} {R : Rules}

def Brings (held : Held) (c : Command α) : Prop := c.run.Brings held none

theorem Yields.brings_bind {P : α → Prop} {c : Command α} {f : α → Command β}
    (hc : c.Yields .settled P) (hf : ∀ value, P value → (f value).Brings held) :
    (c >>= f).Brings held := by
  refine Program.Yields.brings_bind hc (fun _ ha => ha) fun result hresult => ?_
  cases result with
  | ok value => exact hf value (hresult value rfl)
  | error failure => exact trivial

theorem Obeys.brings_bind {c : Command α} {f : α → Command β} (hc : c.Obeys .settled)
    (hf : ∀ value, (f value).Brings held) : (c >>= f).Brings held :=
  Yields.brings_bind hc fun value _ => hf value

theorem Obeys.brings {c : Command α} (hc : c.Obeys .settled) : c.Brings held := by
  have hrun : (c.run.bind .done).Brings held none :=
    Program.Yields.brings_bind hc (fun _ ha => ha) fun _ _ => trivial
  rwa [Program.bind_done] at hrun

/-- What sends items and is plain else brings in nothing. -/
theorem Plays.settled {c : Command α} (hc : c.Plays .plain) : c.Obeys .settled :=
  Program.Yields.mono (fun _ => id) (fun _ => id) (fun _ _ _ _ => trivial) <|
    (Program.Plays.within hc Rules.plain_le_settled).yields (fun _ _ _ => id) fun _ => id

theorem brings_ite (p : Prop) [Decidable p] {c d : Command α} (hc : c.Brings held)
    (hd : d.Brings held) : (if p then c else d).Brings held := by
  split
  · exact hc
  · exact hd

theorem brings_when (p : Prop) [Decidable p] {c : Command β} {d : Command α}
    (hc : c.Obeys .settled) (hd : d.Brings held) :
    (if p then c >>= fun _ => d else d).Brings held :=
  brings_ite p (hc.brings_bind fun _ => hd) hd

theorem brings_throw (failure : Failure) : (throw failure : Command α).Brings held := trivial

/-! ## What is held -/

/-- A step may do what can be done with what is held. -/
theorem step_brings {g : Outside → Hub → Hub.Outcome α} {f : α → Command β}
    (hg : ∀ o h, ∃ a held', held.Does h a held' ∧ (g o h).2 = a.apply o h ∧
      ∀ value, (g o h).1 = .ok value → (f value).Brings held') : (step g >>= f).Brings held := by
  intro o h
  obtain ⟨a, held', hdoes, heq, hnext⟩ := hg o h
  refine ⟨held, .away held, a, held', hdoes, heq, ?_⟩
  cases hvalue : (g o h).1 with
  | ok value => exact hnext value hvalue
  | error failure => exact trivial

theorem newItems_brings (queueId : String) (media : List MediaItem)
    {f : List QueueItem → Command α} (hf : ∀ batch, (f batch).Brings (.batch (ids batch))) :
    (newItems queueId media >>= f).Brings .nothing := by
  refine step_brings fun o h => ⟨.count _, _, .number _, rfl, ?_⟩
  rintro batch hbatch
  cases hbatch
  have hids : newIds h.nextItem (media.filter (·.available)).length =
      ids ((media.filter (·.available)).mapIdx fun n m =>
        QueueItem.ofMedia ("qi" ++ toString (h.nextItem + n)) queueId m) := by
    refine List.ext_getElem (by simp [newIds, ids]) fun n hn _ => ?_
    simp [newIds, ids, newId, QueueItem.ofMedia]
  rw [hids]
  exact hf _

theorem load_brings (queueId : String) {batch : List QueueItem} (options : LoadOptions)
    {f : Unit → Command α} (hf : (f ()).Brings .nothing) :
    (load queueId batch options >>= f).Brings (.batch (ids batch)) :=
  step_brings fun _ _ => ⟨_, _, .load queueId batch options, rfl, fun _ _ => hf⟩

theorem load_brings_alone (queueId : String) (batch : List QueueItem) (options : LoadOptions) :
    (load queueId batch options).Brings (.batch (ids batch)) := by
  have hload : (load queueId batch options >>= pure).Brings (.batch (ids batch)) :=
    load_brings queueId options (obeys_pure ()).brings
  rwa [bind_pure] at hload

theorem look_brings {g : Outside → Hub → α} {f : α → Command β}
    (hg : ∀ o h, ∃ held', held.Looks h held' ∧ (f (g o h)).Brings held') :
    (look g >>= f).Brings held := by
  intro o h
  obtain ⟨held', hlooks, hnext⟩ := hg o h
  exact ⟨held', hlooks, hnext.after _⟩

theorem entry_brings (queueId : String) {f : Entry → Command α}
    (hf : ∀ e, (f e).Brings (.seen e.queue e.items)) : (entry queueId >>= f).Brings .nothing := by
  unfold entry
  rw [bind_assoc]
  refine look_brings fun o h => ?_
  cases he : h.entry? queueId with
  | none => exact ⟨_, .away _, brings_throw _⟩
  | some e => exact ⟨_, .queue he, hf e⟩

theorem items_brings (queueId : String) {q : Queue} {list : List QueueItem}
    {f : List QueueItem → Command α} (hf : ∀ list, (f list).Brings (.seen q list)) :
    (items queueId >>= f).Brings (.seen q list) :=
  look_brings fun _ h => ⟨_, .items queueId q list, hf (h.items queueId)⟩

/-! ## Commands that bring in items -/

theorem place_brings (queueId : String) (option : EnqueueOption) (batch : List QueueItem)
    (radio : Bool) : (place queueId option batch radio).Brings (.batch (ids batch)) := by
  have hplay : ∀ index, (playIndex queueId (.index index) 0 false false).Obeys .settled :=
    fun index => (playIndex_plays queueId _ _ _ _).settled
  refine (entry_obeys queueId).brings_bind fun e => ?_
  cases option with
  | replace => exact load_brings queueId _ (hplay 0).brings
  | next => exact load_brings_alone queueId batch _
  | replaceNext => exact load_brings_alone queueId batch _
  | play =>
    exact load_brings queueId _ ((items_obeys queueId).brings_bind fun list => (hplay _).brings)
  | add =>
    refine load_brings queueId _ (brings_ite _ ?_ (obeys_pure ()).brings)
    exact (markFirst_obeys queueId (fun _ => id) id).brings

theorem playMedia_brings (queueId : String) (media : List MediaRef) (option : Option EnqueueOption)
    (radio : Bool) (start : Option String) :
    (playMedia queueId media option radio start).Brings .nothing := by
  have hplace : ∀ option media, Brings .nothing (do
      let batch ← newItems queueId media
      if batch.isEmpty then throw .nothingPlayable
      place queueId option batch radio) := by
    intro option media
    refine newItems_brings queueId media fun batch => ?_
    exact brings_ite _ (brings_throw _) (place_brings queueId option batch radio)
  refine (queue_obeys queueId).brings_bind fun _ => ?_
  refine (report?_obeys queueId).brings_bind fun r => ?_
  cases r with
  | none => exact brings_throw _
  | some r =>
    refine brings_ite _ (obeys_pure ()).brings ?_
    refine (startOver_obeys queueId id).brings_bind fun _ => ?_
    refine brings_when _ (clear_obeys queueId id) ?_
    refine brings_when _ (modifyQueue_obeys queueId .forget id rfl) ?_
    refine Yields.brings_bind (gather_yields queueId radio start Rules.expanding_le_settled
      (fun _ => id) (fun _ => id) media) fun g _ => ?_
    refine (modifyQueue_obeys queueId (.seed (g.option.getD .play) g.seeds) id rfl).brings_bind
      fun q => ?_
    refine brings_ite _ ?_ (hplace _ _)
    exact ((radioBatch_obeys _ _ _).within Rules.expanding_le_settled).brings_bind
      fun media => hplace _ media

theorem fillRadio_brings (queueId : String) : (fillRadio queueId).Brings .nothing := by
  refine (queue_obeys queueId).brings_bind fun q => ?_
  refine ((radioBatch_obeys .background q.radioSource false).within
    Rules.expanding_le_settled).brings_bind fun tracks => ?_
  refine brings_ite _ (obeys_pure ()).brings ?_
  refine newItems_brings queueId tracks fun batch => ?_
  exact (items_obeys queueId).brings_bind fun list => load_brings_alone queueId batch _

theorem transfer_brings (sourceId targetId : String) (autoPlay : Option Bool) :
    (transfer sourceId targetId autoPlay).Brings .nothing := by
  unfold transfer queue
  simp only [bind_assoc, pure_bind]
  refine entry_brings sourceId fun source => ?_
  refine (entry_obeys targetId).brings_bind fun _ => ?_
  refine ((leaveGroup_obeys targetId).within Rules.handling_le_settled).brings_bind fun _ => ?_
  refine items_brings sourceId fun list => ?_
  refine step_brings fun o h =>
    ⟨.modify targetId (.takeOver source.queue targetId), _, .takeOver _ _ _ _, ?_, fun _ _ => ?_⟩
  · cases hq : h.queue? targetId with
    | none => simp [Act.apply, Hub.modifyQueue, Hub.modifyEntry, Option.map_eq_none_iff.1 hq]
    | some q => rfl
  refine (clear_obeys sourceId id).brings_bind fun _ => ?_
  have hids : ids (list.map (·.inQueue targetId)) = ids list := by
    simp [ids, QueueItem.inQueue]
  refine step_brings fun o h =>
    ⟨.load targetId _ .replacing, _, .replace targetId source.queue hids, rfl, fun _ _ => ?_⟩
  have hresume := (plays_composes ⟨fun _ => id, fun _ => id⟩ targetId).resume none
  exact brings_ite _ hresume.settled.brings (obeys_pure ()).brings

end Command

/-! ## Requests and jobs -/

theorem Request.command_brings (request : Request) : request.command.Brings .nothing := by
  by_cases hin : request.BringsIn
  · cases request with
    | playMedia queueId media option radio start =>
      exact Command.playMedia_brings queueId media option radio start
    | transfer sourceId targetId autoPlay =>
      exact Command.transfer_brings sourceId targetId autoPlay
    | fillRadio queueId => exact Command.fillRadio_brings queueId
    | _ => exact hin.elim
  · by_cases hup : request = .shutdown
    · subst hup
      exact (shutdown_obeys Rules.handling_le_settled id).brings
    · exact (request.command_plain hup hin).settled.brings

open Command in
theorem Job.command_brings (job : Job) : job.command.Brings .nothing := by
  cases job with
  | dispatch queueId media => exact (obeys_call trivial).brings
  | preload queueId itemId =>
    refine Obeys.brings (preload_obeys queueId itemId ?_ (fun _ => id) id fun _ => trivial)
    exact Rules.le_trans Rules.confined_le
      (Rules.le_trans Rules.loading_le_plain Rules.plain_le_settled)
  | fillRadio queueId => exact fillRadio_brings queueId
  | clearCheck queueId =>
    exact Obeys.brings ((obeys_look _).bind fun checks => clearCheck_obeys queueId checks id)
  | stop queueId =>
    exact ((stop_obeys queueId).within
      (Rules.le_trans Rules.confined_le Rules.handling_le_settled)).brings
  | markPlayed report => exact (obeys_call trivial).brings
  | streamed details seconds fully => exact (obeys_call trivial).brings

end Jukebox
