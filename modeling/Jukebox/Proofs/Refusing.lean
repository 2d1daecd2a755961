import Jukebox.Proofs.Reserving
import Jukebox.Proofs.Telling

/-!
# Requests that fail

A request first finds out what its media stands for and makes items of it (`Command.prepare`). All
that changes of its queue by then is what it was asked for and what its radio starts from, unless
the list is replaced or the queue came to its end. Only then the items are put into the list, and
that can not fail unless they are to be played. So a request to enqueue that fails leaves the list
alone (`failed_request_keeps_list`).
-/

namespace Jukebox

/-! ## Lists that are kept -/

namespace Hub

/-- Whether a queue is as before but for what it was asked for and what its radio starts from, what
is stored of it is as before, and nothing was published about it. -/
structure KeepsList (queueId : String) (h h' : Hub) : Prop where
  entry : ∃ radioSource requested, h'.entry? queueId = (h.entry? queueId).map fun e =>
    { e with queue := { e.queue with radioSource, requested } }
  stored : ∀ key, h'.store.get? (Store.queueBase queueId) key =
    h.store.get? (Store.queueBase queueId) key
  events : ∃ told, h'.events = h.events ++ told ∧ ∀ e ∈ told, e.queueId ≠ queueId

/-- Whether a queue did not come to its end. -/
def GoesOn (queueId : String) (h : Hub) : Prop :=
  ∀ e, h.entry? queueId = some e → e.queue.isFinished e.items.length = false

variable {h h' h'' : Hub} {queueId : String} {o : Outside} {a : Act}

/-- A change of a queue that concerns nothing else keeps its list. -/
theorem keepsList_of_silent (radioSource requested : List MediaItem) (hsilent : h.Silent h')
    (hentry : h'.entry? queueId = (h.entry? queueId).map fun e =>
      { e with queue := { e.queue with radioSource, requested } }) : KeepsList queueId h h' :=
  ⟨⟨radioSource, requested, hentry⟩, fun _ => by rw [hsilent.store],
    ⟨[], hsilent.events, fun _ he => nomatch he⟩⟩

theorem LeavesAlone.keepsList (halone : LeavesAlone queueId h h') : KeepsList queueId h h' := by
  refine ⟨?_, halone.stored, halone.events⟩
  rw [halone.entry]
  cases h.entry? queueId with
  | none => exact ⟨[], [], rfl⟩
  | some e => exact ⟨e.queue.radioSource, e.queue.requested, rfl⟩

theorem KeepsList.trans (hfirst : KeepsList queueId h h') (hthen : KeepsList queueId h' h'') :
    KeepsList queueId h h'' := by
  obtain ⟨_, _, hentry⟩ := hfirst.entry
  obtain ⟨radioSource, requested, hentry'⟩ := hthen.entry
  obtain ⟨told, hevents, htold⟩ := hfirst.events
  obtain ⟨more, hevents', hmore⟩ := hthen.events
  refine ⟨⟨radioSource, requested, ?_⟩, fun key => (hthen.stored key).trans (hfirst.stored key),
    told ++ more, ?_, fun e he => ?_⟩
  · rw [hentry', hentry, Option.map_map]
    rfl
  · rw [hevents', hevents, List.append_assoc]
  · exact (List.mem_append.1 he).elim (htold e) (hmore e)

theorem GoesOn.keepsList (hgoes : GoesOn queueId h) (hkeeps : KeepsList queueId h h') :
    GoesOn queueId h' := by
  intro e he
  obtain ⟨_, _, hentry⟩ := hkeeps.entry
  obtain ⟨e', he', rfl⟩ := Option.map_eq_some_iff.1 (hentry.symm.trans he)
  exact hgoes e' he'

end Hub

/-! ## What a request does first -/

/-- Whether a change of a queue concerns only what it was asked for and what its radio starts
from. -/
def QueueChange.Recalls : QueueChange → Prop
  | remember _ => True
  | forget => True
  | seed _ _ => True
  | _ => False

/-- Whether a request may do an act before anything is put into the list. -/
def Act.Prepares (queueId : String) : Act → Prop
  | modify id change => id = queueId ∧ change.Recalls
  | startOver id => id = queueId
  | recordContainer _ => True
  | redraw _ => True
  | count _ => True
  | takeTurn => True
  | _ => False

/-- The rules of a request before anything is put into the list. -/
def Rules.preparing (queueId : String) : Rules := { act := Act.Prepares queueId, call := Call.Asks }

theorem Rules.expanding_le_preparing (queueId : String) : expanding ≤ preparing queueId := by
  refine ⟨?_, fun _ hc => hc⟩
  rintro a (⟨draws, rfl⟩ | ⟨media, rfl⟩) <;> exact trivial

theorem QueueChange.Recalls.apply_eq {change : QueueChange} (hrecalls : change.Recalls) :
    ∃ f : Queue → List MediaItem × List MediaItem, ∀ q, change.apply q =
      { q with radioSource := (f q).1, requested := (f q).2 } := by
  cases change with
  | remember m => exact ⟨fun q => (q.radioSource, (q.remember m).requested), fun _ => rfl⟩
  | forget => exact ⟨fun q => (q.radioSource, []), fun _ => rfl⟩
  | seed option seeds =>
    exact ⟨fun q => ((Command.withSeeds q option seeds).radioSource, q.requested), fun _ => rfl⟩
  | _ => exact hrecalls.elim

section Prepares

variable {h : Hub} {queueId : String} {o : Outside} {a : Act}

/-- Nothing is published or stored before something is put into the list. -/
theorem Act.Prepares.silent (ha : a.Prepares queueId) : h.Silent (a.apply o h) := by
  cases a with
  | modify _ change => exact Hub.silent_modifyEntry _
  | startOver id =>
    show h.Silent (h.startOver id)
    unfold Hub.startOver
    split
    · exact .refl h
    · split
      · exact Hub.silent_modifyEntry _
      · exact .refl h
  | recordContainer | redraw | count | takeTurn => exact Hub.silent_of_eq rfl rfl
  | _ => exact ha.elim

/-- A queue that did not come to its end keeps its list. -/
theorem Act.Prepares.keepsList (ha : a.Prepares queueId) (hgoes : h.GoesOn queueId) :
    h.KeepsList queueId (a.apply o h) := by
  have hsame : Hub.entry? (a.apply o h) queueId = h.entry? queueId →
      h.KeepsList queueId (a.apply o h) := by
    intro hentry
    refine Hub.LeavesAlone.keepsList ⟨hentry, fun _ => by rw [ha.silent.store], ?_⟩
    exact ⟨[], ha.silent.events, fun _ he => nomatch he⟩
  cases a with
  | modify id change =>
    obtain ⟨rfl, hrecalls⟩ := ha
    obtain ⟨f, hf⟩ := hrecalls.apply_eq
    have hentry := h.entry?_modifyQueue id id change.apply
    rw [if_pos rfl] at hentry
    cases he : h.entry? id with
    | none =>
      refine hsame ?_
      rw [he] at hentry ⊢
      exact hentry
    | some e =>
      refine Hub.keepsList_of_silent (f e.queue).1 (f e.queue).2 (Hub.silent_modifyEntry _) ?_
      rw [he] at hentry ⊢
      rw [Act.apply, hentry, Option.map_some, Option.map_some, hf]
  | startOver id =>
    cases ha
    refine hsame ?_
    show Hub.entry? (h.startOver queueId) queueId = h.entry? queueId
    unfold Hub.startOver
    cases he : h.entry? queueId with
    | none => exact he
    | some e =>
      dsimp only
      rw [if_neg (by rw [hgoes e he]; exact Bool.false_ne_true), he]
  | recordContainer | redraw | count | takeTurn => exact hsame rfl
  | _ => exact ha.elim

end Prepares

namespace Command

/-- What a request makes of what was gathered: the seeds are kept with the queue, and the media, or
what radio finds, becomes items. -/
def itemsOf (queueId : String) (radio : Bool) (g : Gathered) :
    Command (EnqueueOption × List QueueItem) := do
  let option := g.option.getD .play
  let q ← modifyQueue queueId fun q => withSeeds q option g.seeds
  let media ←
    if radio then radioBatch .interactive (withSeeds q option g.seeds).radioSource true
    else pure g.media
  let batch ← newItems queueId media
  if batch.isEmpty then throw .nothingPlayable
  return (option, batch)

/-- What a request does before anything is put into the list: it finds out what its media stands for
and makes items of it. During an announcement it does neither. -/
def prepare (queueId : String) (refs : List MediaRef) (option : Option EnqueueOption)
    (radio : Bool) (start : Option String) : Command (Option (EnqueueOption × List QueueItem)) := do
  let _ ← queue queueId
  match ← report? queueId with
  | none => throw (.noQueue queueId)
  | some r =>
    if r.announcementInProgress then return none
    startOver queueId
    if option = some .replace then step fun o h => h.clear o queueId
    if !(option.any (·.appends)) then
      let _ ← modifyQueue queueId fun q => { q with requested := [] }
    let g ← gather queueId radio start { option } refs
    return some (← itemsOf queueId radio g)

theorem ite_bind {α β : Type} (p : Prop) [Decidable p] (c d : Command α) (f : α → Command β) :
    (if p then c else d) >>= f = if p then c >>= f else d >>= f := by
  split <;> rfl

/-- Then the items are put into the list. -/
theorem playMedia_eq (queueId : String) (refs : List MediaRef) (option : Option EnqueueOption)
    (radio : Bool) (start : Option String) :
    playMedia queueId refs option radio start =
      prepare queueId refs option radio start >>= fun
        | none => pure ()
        | some (chosen, batch) => place queueId chosen batch radio := by
  simp only [playMedia, prepare, bind_assoc, pure_bind]
  refine bind_congr fun _ => bind_congr fun r => ?_
  cases r with
  | none => rfl
  | some r => simp only [itemsOf, bind_assoc, ite_bind, pure_bind]

theorem itemsOf_yields (queueId : String) (radio : Bool) (g : Gathered) :
    (itemsOf queueId radio g).Yields (.preparing queueId)
      fun made => made.1 = g.option.getD .play := by
  have hitems : ∀ media, Yields (.preparing queueId)
      (fun made : EnqueueOption × List QueueItem => made.1 = g.option.getD .play) (do
        let batch ← newItems queueId media
        if batch.isEmpty then throw .nothingPlayable
        return (g.option.getD .play, batch)) := by
    intro media
    refine (newItems_yields queueId media fun _ => trivial).bind fun batch _ => ?_
    split
    · exact fun _ hv => nomatch hv
    · exact Yields.pure rfl
  refine Yields.bind (modifyQueue_obeys queueId (.seed (g.option.getD .play) g.seeds)
    ⟨rfl, trivial⟩ rfl) fun q _ => ?_
  dsimp only
  split
  · exact Yields.bind ((radioBatch_obeys _ _ _).within (Rules.expanding_le_preparing queueId))
      fun media _ => hitems media
  · exact hitems g.media

/-- A request that does not replace the list is enqueued as it says. -/
theorem prepare_yields (queueId : String) (refs : List MediaRef) {option : EnqueueOption}
    (hkeeps : option ≠ .replace) (radio : Bool) (start : Option String) :
    (prepare queueId refs (some option) radio start).Yields (.preparing queueId)
      fun prepared => ∀ chosen batch, prepared = some (chosen, batch) → chosen = option := by
  have hgathers : Yields (.preparing queueId)
      (fun prepared => ∀ chosen batch, prepared = some (chosen, batch) → chosen = option) (do
        let g ← gather queueId radio start { option := some option } refs
        return some (← itemsOf queueId radio g)) := by
    have hgather := gather_yields queueId radio start (Rules.expanding_le_preparing queueId)
      (g := { option := some option }) (fun _ => ⟨rfl, trivial⟩) (fun hnone => nomatch hnone) refs
    refine hgather.bind fun g hoption => ?_
    refine (itemsOf_yields queueId radio g).bind fun made hmade => Yields.pure ?_
    rintro chosen batch ⟨⟩
    rw [hoption option rfl] at hmade
    exact hmade
  refine Yields.bind (queue_obeys queueId) fun _ _ => ?_
  refine Yields.bind (report?_obeys queueId) fun r _ => ?_
  cases r with
  | none => exact fun _ hv => nomatch hv
  | some r =>
    dsimp only
    split
    · exact Yields.pure fun _ _ hnone => nomatch hnone
    · rw [if_neg fun heq => hkeeps (Option.some.inj heq)]
      refine Yields.bind (startOver_obeys queueId rfl) fun _ _ => ?_
      split
      · exact Yields.bind (modifyQueue_obeys queueId .forget ⟨rfl, trivial⟩ rfl)
          fun _ _ => hgathers
      · exact hgathers

variable {α : Type} {S : Setting} {h h₁ : Hub} {history : List Happening}

/-- What a command does that only prepares something. -/
theorem Unfolds.of_preparing {queueId : String} (hS : S.Reserves queueId)
    (hgoes : h.GoesOn queueId) {P : α → Prop} {c : Command α}
    (hc : c.Yields (.preparing queueId) P) {result : Except Failure α}
    (hunfolds : c.Unfolds S h history result h₁) :
    h.KeepsList queueId h₁ ∧ (∀ v, result = .ok v → P v) ∧
      ∀ before after, Happening.changed before after ∈ history → before.Silent after := by
  have hends : c.Ends S.sees S.meanwhile h result h₁ := Program.Unfolds.ends hunfolds
  have hprepares : ∀ {a : Act}, (Rules.preparing queueId).act a ∨ a = .takeTurn →
      a.Prepares queueId := by
    rintro a (ha | rfl)
    · exact ha
    · exact trivial
  -- That the queue goes on is kept with its list, so every act along the way finds it so.
  have hkept := Program.Ends.kept (h.KeepsList queueId)
    (fun a o h' ha hkeeps => hkeeps.trans ((hprepares ha).keepsList (hgoes.keepsList hkeeps)))
    (fun h' h'' hothers hkeeps => hkeeps.trans (hS h' h'' hothers).keepsList)
    hc (fun _ _ hnone => nomatch hnone) hends (Hub.LeavesAlone.refl h queueId).keepsList
  refine ⟨hkept.1, hkept.2, fun before after hchanged => ?_⟩
  obtain ⟨o, a, ha, rfl⟩ :=
    Program.Unfolds.acts hunfolds hc (fun _ _ hnone => nomatch hnone) hchanged
  exact (hprepares ha).silent

/-- Items that are not to be played can be put into every list. -/
theorem unfolds_place_error {queueId : String} (hS : S.Spares queueId) {option : EnqueueOption}
    (hoption : option = .add ∨ option = .next ∨ option = .replaceNext) {batch : List QueueItem}
    {radio : Bool} {failure : Failure}
    (hunfolds : (place queueId option batch radio).Unfolds S h history (.error failure) h₁) :
    history = [] := by
  cases he : h.entry? queueId with
  | none => exact (Unfolds.of_unknown hS he hunfolds).1
  | some e =>
    obtain ⟨h', he', hplaces⟩ := Unfolds.of_entry hS he hunfolds
    rcases hoption with rfl | rfl | rfl
    · obtain ⟨_, e', h'', _, -, he'', hmarks⟩ := Unfolds.of_load hS he' hplaces
      split at hmarks
      · cases (unfolds_markFirst hS he'' hmarks).1
      · cases hmarks.of_pure.2.1
    · obtain ⟨_, _, -, -, hok⟩ := Unfolds.of_last_load hS he' hplaces
      cases hok
    · obtain ⟨_, _, -, -, hok⟩ := Unfolds.of_last_load hS he' hplaces
      cases hok

end Command

/-- A request to enqueue that fails, with radio or without, leaves the list of a queue alone that
did not come to its end, if nobody else does anything to the queue meanwhile: the queue is as before
but for what it was asked for and what its radio starts from, its snapshot is as before, and nothing
was published. -/
theorem failed_request_keeps_list {S : Setting} {queueId : String} (hreserved : S.Reserves queueId)
    {h : Hub} (hgoes : h.GoesOn queueId) {option : EnqueueOption}
    (hoption : option = .add ∨ option = .next ∨ option = .replaceNext) (refs : List MediaRef)
    (radio : Bool) (start : Option String) {history : List Happening} {failure : Failure}
    {h₁ : Hub}
    (hfails : (Command.playMedia queueId refs (some option) radio start).Unfolds S h history
      (.error failure) h₁) :
    h.KeepsList queueId h₁ ∧
      ∀ before after, Happening.changed before after ∈ history → before.Silent after := by
  have hkeeps : option ≠ .replace := by
    rcases hoption with rfl | rfl | rfl <;> decide
  have hprepares := Command.prepare_yields queueId refs hkeeps radio start
  rw [Command.playMedia_eq] at hfails
  rcases hfails.of_bind with ⟨prepared, h₂, first, rest, hfirst, hrest, rfl⟩ | ⟨_, hfirst, -⟩
  · obtain ⟨hkept, hchosen, hsilent⟩ :=
      Command.Unfolds.of_preparing hreserved hgoes hprepares hfirst
    rcases prepared with _ | ⟨chosen, batch⟩
    · cases hrest.of_pure.2.1
    · cases hchosen _ rfl chosen batch rfl
      obtain rfl := Command.unfolds_place_error hreserved.spares hoption hrest
      have hothers := Program.Unfolds.others hrest fun _ _ hmem => nomatch hmem
      refine ⟨hkept.trans (hreserved.leavesAlone hothers).keepsList, ?_⟩
      rw [List.append_nil]
      exact hsilent
  · obtain ⟨hkept, -, hsilent⟩ := Command.Unfolds.of_preparing hreserved hgoes hprepares hfirst
    exact ⟨hkept, hsilent⟩

/-- Radio is to go on from another track behind the first of three, but its source fails. -/
theorem failing_radio_keeps_tracks :
    let h := (House.session.run (House.fill ["a", "b", "c"])).hub
    let S := House.alone House.answers
    let request := Command.playMedia "den" [.item (House.track "d")] (some .next) true none
    h.GoesOn "den" ∧ ids (h.items "den") = ["qi1", "qi2", "qi3"] ∧
      ∃ history h₁, request.Unfolds S h history (.error .noTracksLeft) h₁ ∧
        ((h₁.queue? "den").any fun q => q.radioSource.map (·.name) = ["d"]) = true ∧
        h.KeepsList "den" h₁ ∧
        ∀ before after, Happening.changed before after ∈ history → before.Silent after := by
  intro h S request
  have hgoes : h.GoesOn "den" := by
    have hall : (h.entry? "den").all (fun e => e.queue.isFinished e.items.length = false) := by
      decide +kernel
    exact fun e he => of_decide_eq_true (Option.all_eq_true _ _ |>.1 hall e he)
  obtain ⟨history, h₁, hunfolds, hseeds⟩ := House.exists_unfolds request h (.error .noTracksLeft)
    (fun h₁ => (h₁.queue? "den").any fun q => q.radioSource.map (·.name) = ["d"])
    (by decide +kernel)
  refine ⟨hgoes, by decide +kernel, history, h₁, hunfolds, hseeds, ?_⟩
  exact failed_request_keeps_list (House.reserves_alone House.answers "den") hgoes
    (.inr (.inl rfl)) [.item (House.track "d")] true none hunfolds

end Jukebox
