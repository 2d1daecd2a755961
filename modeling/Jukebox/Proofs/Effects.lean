import Jukebox.Proofs.Act

/-!
# What acts do to entries

An act changes the entry of one queue at most, and how it does so is a function of that entry
(`Hub.Touches`). Only players that come and go make and drop entries.
-/

namespace Jukebox

/-! ## Changes of one entry -/

namespace Entry

/-- The entry with another queue and list, counted. -/
def withItems (e : Entry) (q : Queue) (items : List QueueItem) : Entry :=
  { e with queue := { q with itemCount := items.length }, items }

/-- The entry with another queue and list, of which the player was handed nothing. -/
def commit (e : Entry) (q : Queue) (items : List QueueItem) : Entry :=
  e.withItems { q with enqueuedNext := none } items

def edit (e : Entry) (f : Queue → List QueueItem → Except Failure (Option (List QueueItem))) :
    Entry :=
  match f e.queue e.items with
  | .ok (some items) => e.commit e.queue items
  | _ => e.withItems e.queue e.items

def updateItem (e : Entry) (itemId : String) (f : QueueItem → QueueItem) : Entry :=
  match indexOf? e.items itemId, e.items.find? (fun i => i.id = itemId) with
  | some index, some item =>
    let current := e.queue.currentItem.map fun c => if c.id = itemId then f item else c
    e.withItems { e.queue with currentItem := current } (e.items.set index (f item))
  | _, _ => e.withItems e.queue e.items

def startOver (e : Entry) : Entry :=
  if e.queue.isFinished e.items.length then
    e.withItems { e.queue with currentIndex := none, currentItem := none } []
  else e

def setShuffle (e : Entry) (d : Draws) (enabled : Bool) : Entry :=
  if e.queue.shuffle = enabled then e.withItems e.queue e.items
  else e.commit { e.queue with shuffle := enabled } (Edit.reorder d e.queue e.items enabled).1

def setDontStop (e : Entry) (o : Outside) (enabled : Bool) : Entry :=
  if enabled ∧ !o.similarSupported then e
  else
    let q := { e.queue with dontStop := enabled }
    if enabled ∧ !e.queue.requested.isEmpty ∧ e.queue.remaining?.any (· ≤ 1) then
      { e with queue := { q with radioSource := q.requested } }
    else { e with queue := q }

def logFlow (e : Entry) (entry : FlowEntry Float) : Entry :=
  if e.queue.flowMode then
    { e with queue := { e.queue with flowLog := e.queue.flowLog ++ [entry] } }
  else e

end Entry

/-! ## One entry touched -/

/-- One entry is changed by a function, and all the others are as before. -/
def Hub.Touches (queueId : String) (f : Entry → Entry) (h h' : Hub) : Prop :=
  ∀ other, h'.entry? other = if other = queueId then (h.entry? other).map f else h.entry? other

namespace Hub

variable {h h' h'' : Hub} {queueId : String} {f g : Entry → Entry} (o : Outside)

theorem Touches.rfl : Touches queueId id h h := by
  intro other
  simp

theorem touches_of_eq (heq : ∀ other, h'.entry? other = h.entry? other) :
    Touches queueId id h h' := by
  intro other
  simp [heq]

theorem Touches.trans (hf : Touches queueId f h h') (hg : Touches queueId g h' h'') :
    Touches queueId (g ∘ f) h h'' := by
  intro other
  rw [hg other, hf other]
  by_cases ho : other = queueId <;> simp [ho]

/-- What is done to the entry that is there decides. -/
theorem Touches.congr {e : Entry} (hf : Touches queueId f h h') (he : h.entry? queueId = some e)
    (heq : f e = g e) : Touches queueId g h h' := by
  intro other
  rw [hf other]
  by_cases ho : other = queueId
  · subst ho
    simp [he, heq]
  · simp [ho]

theorem Touches.of_entries (hf : Touches queueId f h' h'')
    (heq : ∀ other, h'.entry? other = h.entry? other) : Touches queueId f h h'' := by
  intro other
  rw [hf other, heq other]

theorem touches_unknown (he : h.entry? queueId = none) : Touches queueId f h h := by
  intro other
  by_cases ho : other = queueId
  · subst ho
    simp [he]
  · simp [ho]

theorem touches_modifyQueue (change : Queue → Queue) :
    Touches queueId (fun e => { e with queue := change e.queue }) h
      (h.modifyQueue queueId change) :=
  fun other => h.entry?_modifyQueue queueId other change

theorem touches_putItems (q : Queue) (items : List QueueItem) :
    Touches queueId (fun e => e.withItems q items) h (h.putItems queueId q items) :=
  fun other => h.entry?_putItems queueId other q items

theorem touches_commit (q : Queue) (items : List QueueItem) :
    Touches queueId (fun e => e.commit q items) h (h.commit o queueId q items) :=
  fun other => h.entry?_commit o queueId other q items

theorem touches_signal (itemsChanged : Bool) :
    Touches queueId id h (h.signal o queueId itemsChanged) :=
  touches_of_eq fun other => h.entry?_signal o queueId other itemsChanged

theorem touches_load (batch : List QueueItem) (options : LoadOptions) :
    Touches queueId (fun e => e.commit e.queue (Edit.splice h.draws e.items batch options).1) h
      (h.load o queueId batch options).2 := by
  unfold load
  cases he : h.entry? queueId with
  | none => exact touches_unknown he
  | some e =>
    exact ((touches_commit o _ _).of_entries (h.entry?_draws · _)).congr he rfl

theorem touches_edit (change : Queue → List QueueItem → Except Failure (Option (List QueueItem))) :
    Touches queueId (fun e => e.edit change) h (h.edit o queueId change).2 := by
  unfold Hub.edit
  cases he : h.entry? queueId with
  | none => exact touches_unknown he
  | some e =>
    dsimp only
    rcases hedit : change e.queue e.items with failure | (_ | items)
    · refine (touches_putItems _ _).congr he ?_
      simp only [Entry.edit, hedit]
    · refine (touches_putItems _ _).congr he ?_
      simp only [Entry.edit, hedit]
    · refine (touches_commit o _ _).congr he ?_
      simp only [Entry.edit, hedit]

theorem touches_updateItem (itemId : String) (change : QueueItem → QueueItem) :
    Touches queueId (fun e => e.updateItem itemId change) h
      (h.updateItem queueId itemId change).2 := by
  unfold updateItem
  cases he : h.entry? queueId with
  | none => exact touches_unknown he
  | some e =>
    dsimp only
    rcases hindex : indexOf? e.items itemId with _ | index
    · refine (touches_putItems _ _).congr he ?_
      simp only [Entry.updateItem, hindex]
    · rcases hitem : e.items.find? (fun i => i.id = itemId) with _ | item
      · simp only [hitem]
        refine (touches_putItems _ _).congr he ?_
        simp only [Entry.updateItem, hindex, hitem]
      · simp only [hitem]
        refine (touches_putItems _ _).congr he ?_
        simp only [Entry.updateItem, hindex, hitem]

theorem touches_clear :
    Touches queueId (fun e => e.withItems (cleared e.queue) []) h (h.clear o queueId).2 := by
  have hitems : Touches queueId (fun e => e.withItems (cleared e.queue) []) h
      (h.clearItems o queueId).2 := by
    unfold clearItems
    cases he : h.entry? queueId with
    | none => exact touches_unknown he
    | some e =>
      exact ((touches_putItems (cleared e.queue) []).trans (touches_signal o true)).congr he rfl
  unfold clear
  rcases hclear : h.clearItems o queueId with ⟨failure | state, h'⟩
  · rw [hclear] at hitems
    exact hitems
  · rw [hclear] at hitems
    cases state with
    | idle => exact hitems
    | _ => exact hitems.trans (touches_of_eq fun other => entry?_spawn h' o other _)

theorem touches_startOver : Touches queueId Entry.startOver h (h.startOver queueId) := by
  unfold startOver
  cases he : h.entry? queueId with
  | none => exact touches_unknown he
  | some e =>
    by_cases hfinished : e.queue.isFinished e.items.length
    · simp only [hfinished, if_true]
      exact (touches_putItems _ _).congr he (by simp [Entry.startOver, hfinished])
    · simp only [hfinished]
      exact Touches.rfl.congr he (by simp [Entry.startOver, hfinished])

theorem touches_setShuffle (enabled : Bool) :
    Touches queueId (fun e => e.setShuffle h.draws enabled) h
      (h.setShuffle o queueId enabled).2 := by
  unfold setShuffle
  cases he : h.entry? queueId with
  | none => exact touches_unknown he
  | some e =>
    by_cases hsame : e.queue.shuffle = enabled
    · simp only [hsame, if_true]
      exact (touches_putItems _ _).congr he (by simp [Entry.setShuffle, hsame])
    · simp only [hsame, if_false]
      refine ((touches_commit o _ _).of_entries (h.entry?_draws · _)).congr he ?_
      simp only [Entry.setShuffle, hsame, if_false]

theorem touches_setRepeat (mode : RepeatMode) :
    Touches queueId (fun e => { e with queue := { e.queue with repeatMode := mode } }) h
      (h.setRepeat o queueId mode).2 := by
  unfold setRepeat
  rw [queue?_eq_map]
  cases he : h.entry? queueId with
  | none => exact touches_unknown he
  | some e =>
    by_cases hsame : e.queue.repeatMode = mode
    · simp only [Option.map_some, hsame, if_true]
      refine Touches.rfl.congr he ?_
      subst hsame
      rfl
    · simp only [Option.map_some, hsame, if_false]
      exact (touches_modifyQueue _).trans (touches_signal o false)

theorem touches_setDontStop (enabled : Bool) :
    Touches queueId (fun e => e.setDontStop o enabled) h (h.setDontStop o queueId enabled).2 := by
  unfold setDontStop
  by_cases hunsupported : enabled ∧ !o.similarSupported
  · simp only [if_pos hunsupported]
    intro other
    by_cases ho : other = queueId <;> simp [ho, Entry.setDontStop, hunsupported]
  · simp only [if_neg hunsupported]
    rw [queue?_eq_map]
    cases he : h.entry? queueId with
    | none => exact touches_unknown he
    | some e =>
      have hset := (@touches_modifyQueue h queueId fun q => { q with dontStop := enabled }).trans
        (touches_signal o false)
      simp only [Option.map_some]
      by_cases hends : enabled ∧ !e.queue.requested.isEmpty ∧ e.queue.remaining?.any (· ≤ 1)
      · rw [if_pos hends]
        refine (hset.trans
          (touches_modifyQueue fun q => { q with radioSource := q.requested })).congr he ?_
        simp only [Entry.setDontStop, if_neg hunsupported, if_pos hends]
        rfl
      · rw [if_neg hends]
        refine hset.congr he ?_
        simp only [Entry.setDontStop, if_neg hunsupported, if_neg hends]
        rfl

theorem touches_trackLoaded (itemId : String) :
    Touches queueId
      (fun e => { e with queue := { e.queue with bufferedIndex := indexOf? e.items itemId } }) h
      (h.trackLoaded o queueId itemId).2 := by
  unfold trackLoaded
  cases he : h.entry? queueId with
  | none => exact touches_unknown he
  | some e => exact ((touches_modifyQueue _).trans (touches_signal o false)).congr he rfl

theorem touches_logFlow (entry : FlowEntry Float) :
    Touches queueId (fun e => e.logFlow entry) h (h.logFlow queueId entry).2 := by
  unfold logFlow
  rw [queue?_eq_map]
  cases he : h.entry? queueId with
  | none => exact touches_unknown he
  | some e =>
    refine (touches_modifyQueue _).congr he ?_
    unfold Entry.logFlow
    by_cases hflow : e.queue.flowMode <;> simp [hflow]

end Hub

end Jukebox
