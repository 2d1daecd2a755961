import Jukebox.Proofs.Departure
import Jukebox.Proofs.Restart
import Jukebox.Proofs.Snapshots

/-!
# What is stored of a list

The list of a queue is stored whenever a change of it is published, and not otherwise
(`Hub.Saves`). Acts keep to this while the store works (`Hub.saves_apply`): one that changes the
list publishes that, except for emptying a list that is started over.
-/

namespace Jukebox

/-- Whether an event says that the list of a queue changed. -/
def Event.tellsItems (queueId : String) : Event → Bool
  | itemsUpdated id _ => id = queueId
  | _ => false

theorem Event.not_tellsItems {queueId : String} {e : Event}
    (he : ∀ count, e ≠ .itemsUpdated queueId count) : e.tellsItems queueId = false := by
  cases e with
  | itemsUpdated id count =>
    exact decide_eq_false fun hid => he count (congrArg (itemsUpdated · count) hid)
  | _ => rfl

namespace Hub

/-- The stored state of a queue. -/
def stateText? (h : Hub) (queueId : String) : Option String :=
  h.store.get? (Store.queueBase queueId) Store.stateKey

/-- The stored list of a queue. -/
def itemsText? (h : Hub) (queueId : String) : Option String :=
  h.store.get? (Store.queueBase queueId) Store.itemsKey

/-! ## Acts -/

/-- Whether a queue that was there before still is, and its list is stored as it is if a change of
it was published since; if none was, the list has the ids that it had or was emptied. What is
stored of its state is what was stored, or its own. -/
structure Saves (queueId : String) (h₀ h : Hub) : Prop where
  named : ∀ e, h.entry? queueId = some e → e.queue.id = queueId
  known : h.contains queueId = h₀.contains queueId
  state : ∀ text, h.stateText? queueId = some text →
    h₀.stateText? queueId = some text ∨ ∃ q : Queue, q.id = queueId ∧ text = (encode q).toText
  list : ∃ told, h.events = h₀.events ++ told ∧
    if told.any (·.tellsItems queueId) then
      h.itemsText? queueId = some (encode (h.items queueId)).toText
    else
      h.itemsText? queueId = h₀.itemsText? queueId ∧
        (ids (h.items queueId) = ids (h₀.items queueId) ∨ h.items queueId = [])

variable {h₀ h h' : Hub} {queueId : String} {o : Outside}

theorem Saves.refl (hnamed : ∀ e, h.entry? queueId = some e → e.queue.id = queueId) :
    Saves queueId h h :=
  ⟨hnamed, rfl, fun _ => .inl, [], (List.append_nil _).symm, rfl, .inl rfl⟩

theorem LeavesAlone.saves (halone : LeavesAlone queueId h h') (hnamed : h.Named) :
    Saves queueId h h' := by
  obtain ⟨told, hevents, hothers⟩ := halone.events
  have hitems : h'.items queueId = h.items queueId := by rw [items, halone.entry]; rfl
  refine ⟨fun e he => hnamed queueId e (halone.entry.symm.trans he), ?_, fun text htext => ?_, told,
    hevents, ?_⟩
  · rw [contains, halone.entry]
    rfl
  · exact .inl ((halone.stored _).symm.trans htext)
  · have hnone : told.any (·.tellsItems queueId) = false := by
      refine List.any_eq_false.2 fun e he => ?_
      have hquiet : e.tellsItems queueId = false := by
        refine Event.not_tellsItems fun count heq => hothers e he ?_
        rw [heq]
        rfl
      rw [hquiet]
      exact Bool.false_ne_true
    rw [hnone, if_neg Bool.false_ne_true, hitems]
    exact ⟨halone.stored _, .inl rfl⟩

theorem events_persist (h : Hub) (o : Outside) (queueId : String) (itemsChanged : Bool) :
    (h.persist o queueId itemsChanged).events = h.events := by
  unfold persist
  cases h.entry? queueId <;> rfl

/-- What is published and stored when a change of a queue is signalled. -/
theorem signal_of_entry {e : Entry} (he : h.entry? queueId = some e) (hid : e.queue.id = queueId)
    (hwrites : ∀ key, o.faults.writing (Store.queueBase queueId) key = false)
    (itemsChanged : Bool) :
    (h.signal o queueId itemsChanged).events = h.events ++
        ((if itemsChanged then [.itemsUpdated queueId e.queue.itemCount] else []) ++
          [.queueUpdated e.queue]) ∧
      (h.signal o queueId itemsChanged).stateText? queueId = some (encode e.queue).toText ∧
      (h.signal o queueId itemsChanged).itemsText? queueId =
        if itemsChanged then some (encode e.items).toText else h.itemsText? queueId := by
  have hq : h.queue? queueId = some e.queue := by rw [queue?_eq_map, he]; rfl
  cases itemsChanged with
  | true =>
    have hsignal : h.signal o queueId true =
        ((h.publish (.itemsUpdated e.queue.id e.queue.itemCount)).publish
          (.queueUpdated e.queue)).persist o queueId true := by
      simp only [Hub.signal, hq, if_true]
    rw [hsignal, hid]
    obtain ⟨hitems, hstate⟩ := get?_persist (h := (h.publish (.itemsUpdated queueId
      e.queue.itemCount)).publish (.queueUpdated e.queue)) he hid hwrites
    refine ⟨?_, hstate, hitems⟩
    rw [events_persist]
    exact List.append_assoc _ _ _
  | false =>
    have hsignal : h.signal o queueId false =
        (h.publish (.queueUpdated e.queue)).persist o queueId false := by
      simp only [Hub.signal, hq, Bool.false_eq_true, if_false]
    have hstore : ((h.publish (.queueUpdated e.queue)).persist o queueId false).store =
        h.store.set (Store.queueBase queueId) Store.stateKey (encode e.queue).toText := by
      simp [persist, he, writeSnapshot, hid, hwrites]
      rfl
    rw [hsignal]
    refine ⟨events_persist _ _ _ _, ?_, ?_⟩
    · rw [stateText?, hstore, Store.get?_set, if_pos ⟨rfl, rfl⟩]
    · rw [itemsText?, hstore, Store.get?_set, if_neg fun hkey => absurd hkey.2 (by decide)]
      rfl

theorem exists_putItems {e : Entry} (he : h.entry? queueId = some e) (q : Queue)
    (items : List QueueItem) : ∃ e' : Entry, h.putItems queueId q items = h.putEntry queueId e' ∧
      e'.queue.id = q.id ∧ e'.items = items := by
  refine ⟨{ e with queue := { q with itemCount := items.length }, items }, ?_, rfl, rfl⟩
  rw [putItems, modifyEntry, he]

/-- A list that was changed is published and stored as it is then. -/
theorem saves_signal_true {told : List Event} {e : Entry} (hknown : h₀.contains queueId)
    (hevents : h.events = h₀.events ++ told) (he : h.entry? queueId = some e)
    (hid : e.queue.id = queueId)
    (hwrites : ∀ key, o.faults.writing (Store.queueBase queueId) key = false) :
    Saves queueId h₀ (h.signal o queueId true) := by
  obtain ⟨htold, hstate, hitems⟩ := signal_of_entry he hid hwrites true
  rw [hevents, List.append_assoc] at htold
  have hentry : entry? (h.signal o queueId true) queueId = some e := by rw [entry?_signal, he]
  refine ⟨fun e' he' => ?_, ?_, fun text htext => ?_, _, htold, ?_⟩
  · rw [hentry] at he'
    cases he'
    exact hid
  · rw [hknown]
    exact contains_of_entry hentry
  · rw [hstate] at htext
    cases htext
    exact .inr ⟨e.queue, hid, rfl⟩
  · rw [if_pos, hitems, items_eq_of_entry _ _ hentry]
    · rfl
    · simp [Event.tellsItems]

namespace Saves

theorem congr (hs : Saves queueId h₀ h) (hentry : h'.entry? queueId = h.entry? queueId)
    (hevents : h'.events = h.events) (hstore : h'.store = h.store) : Saves queueId h₀ h' := by
  have hitems : h'.items queueId = h.items queueId := by rw [items, hentry]; rfl
  have hcontains : h'.contains queueId = h.contains queueId := by rw [contains, hentry]; rfl
  refine ⟨fun e he => hs.named e (hentry.symm.trans he), hcontains.trans hs.known, ?_, ?_⟩
  · rw [stateText?, hstore]
    exact hs.state
  · rw [itemsText?, hevents, hstore, hitems]
    exact hs.list

theorem publish (hs : Saves queueId h₀ h) {e : Event}
    (he : ∀ count, e ≠ .itemsUpdated queueId count) : Saves queueId h₀ (h.publish e) := by
  obtain ⟨told, hevents, hlist⟩ := hs.list
  refine ⟨hs.named, hs.known, hs.state, told ++ [e], ?_, ?_⟩
  · show h.events ++ [e] = h₀.events ++ (told ++ [e])
    rw [hevents, List.append_assoc]
  · rw [List.any_append, List.any_cons, Event.not_tellsItems he, List.any_nil, Bool.or_false,
      Bool.or_false]
    exact hlist

theorem modifyEntry (hs : Saves queueId h₀ h) {f : Entry → Entry}
    (hf : ∀ e, h.entry? queueId = some e → (f e).queue.id = queueId ∧ (f e).items = e.items) :
    Saves queueId h₀ (h.modifyEntry queueId f) := by
  unfold Hub.modifyEntry
  cases he : h.entry? queueId with
  | none => exact hs
  | some e =>
    have hentry : entry? (h.putEntry queueId (f e)) queueId = some (f e) := by
      rw [entry?_putEntry, if_pos rfl]
    have hitems : (h.putEntry queueId (f e)).items queueId = h.items queueId := by
      rw [items_eq_of_entry _ _ hentry, items_eq_of_entry _ _ he, (hf e he).2]
    refine ⟨fun e' he' => ?_, ?_, hs.state, ?_⟩
    · rw [hentry] at he'
      cases he'
      exact (hf e he).1
    · rw [← hs.known, contains, contains, hentry, he]
      rfl
    · rw [hitems]
      exact hs.list

theorem signal (hs : Saves queueId h₀ h)
    (hwrites : ∀ key, o.faults.writing (Store.queueBase queueId) key = false)
    (itemsChanged : Bool) : Saves queueId h₀ (h.signal o queueId itemsChanged) := by
  cases he : h.entry? queueId with
  | none =>
    rw [Hub.signal, queue?_eq_map, he]
    exact hs
  | some e =>
    obtain ⟨told, hevents, hlist⟩ := hs.list
    cases itemsChanged with
    | true =>
      have hknown : h₀.contains queueId := hs.known ▸ contains_of_entry he
      exact saves_signal_true hknown hevents he (hs.named e he) hwrites
    | false =>
      obtain ⟨htold, hstate, hitems⟩ := signal_of_entry he (hs.named e he) hwrites false
      rw [hevents, List.append_assoc] at htold
      have hsame : (h.signal o queueId false).items queueId = h.items queueId := by
        rw [items, entry?_signal]
        rfl
      refine ⟨fun e' he' => ?_, ?_, fun text htext => ?_, _, htold, ?_⟩
      · exact hs.named e' ((entry?_signal h o queueId queueId false).symm.trans he')
      · rw [← hs.known, contains, contains, entry?_signal]
      · rw [hstate] at htext
        cases htext
        exact .inr ⟨e.queue, hs.named e he, rfl⟩
      · rw [hitems, hsame]
        simpa [Event.tellsItems] using hlist

theorem replace (hs : Saves queueId h₀ h)
    (hwrites : ∀ key, o.faults.writing (Store.queueBase queueId) key = false) {q : Queue}
    (items : List QueueItem) (hq : q.id = queueId) :
    Saves queueId h₀ (Hub.signal (h.putItems queueId q items) o queueId true) := by
  cases he : h.entry? queueId with
  | none =>
    have hnone : h.putItems queueId q items = h := by rw [Hub.putItems, Hub.modifyEntry, he]
    rw [hnone]
    exact hs.signal hwrites true
  | some e =>
    obtain ⟨told, hevents, -⟩ := hs.list
    have hknown : h₀.contains queueId := hs.known ▸ contains_of_entry he
    obtain ⟨e', hput, hid, -⟩ := exists_putItems he q items
    have hentry : entry? (h.putEntry queueId e') queueId = some e' := by
      rw [entry?_putEntry, if_pos rfl]
    rw [hput]
    exact saves_signal_true hknown hevents hentry (hid.trans hq) hwrites

/-- The list of a queue is changed without a word. -/
theorem putItems {e : Entry} (he : h.entry? queueId = some e) {q : Queue} (hq : q.id = queueId)
    {items : List QueueItem} (hitems : ids items = ids e.items ∨ items = []) :
    Saves queueId h (h.putItems queueId q items) := by
  obtain ⟨e', hput, hid, hlist⟩ := exists_putItems he q items
  have hentry : entry? (h.putEntry queueId e') queueId = some e' := by
    rw [entry?_putEntry, if_pos rfl]
  rw [hput]
  refine ⟨fun e'' he'' => ?_, ?_, fun text => .inl, [], (List.append_nil _).symm, ?_⟩
  · rw [hentry] at he''
    cases he''
    exact hid.trans hq
  · rw [contains_of_entry hentry, contains_of_entry he]
  · rw [List.any_nil, if_neg Bool.false_ne_true, items_eq_of_entry _ _ hentry,
      items_eq_of_entry _ _ he, hlist]
    exact ⟨rfl, hitems⟩

theorem kept (hwrites : ∀ key, o.faults.writing (Store.queueBase queueId) key = false) :
    Kept o queueId (Saves queueId h₀) where
  named hs he := hs.named _ he
  congr hs hentry hevents hstore _ := hs.congr hentry hevents hstore
  modifyEntry hs hf := hs.modifyEntry hf
  replace items hs hq := hs.replace hwrites items hq
  publish hs _ he := hs.publish he
  signal itemsChanged hs := hs.signal hwrites itemsChanged

end Saves

/-- An act that changes the list of a queue publishes that and stores the list, unless it is to
empty a list that is started over. -/
theorem saves_apply (hnamed : h.Named)
    (hwrites : ∀ key, o.faults.writing (Store.queueBase queueId) key = false) {a : Act}
    (hcomes : ∀ r, a = .register r → r.playerId ≠ queueId)
    (hgoes : ∀ playerId, a = .remove playerId → playerId ≠ queueId) :
    Saves queueId h (a.apply o h) := by
  by_cases htarget : a.target? = some queueId
  · have hsaves : Saves queueId h h := .refl (hnamed queueId)
    cases a with
    | updateItem _ itemId change =>
      cases htarget
      show Saves queueId h (h.updateItem queueId itemId change.apply).2
      unfold updateItem
      cases he : h.entry? queueId with
      | none => exact hsaves
      | some e =>
        have hid := hnamed _ e he
        have hsame := e.ids_updateItem itemId change.id_apply
        unfold Entry.updateItem at hsame
        dsimp only
        split
        · next index item hindex hitem =>
          simp only [hindex, hitem] at hsame
          refine Saves.putItems he ?_ (.inl hsame)
          exact hid
        · exact Saves.putItems he hid (.inl rfl)
    | startOver =>
      cases htarget
      show Saves queueId h (h.startOver queueId)
      unfold startOver
      cases he : h.entry? queueId with
      | none => exact hsaves
      | some e =>
        dsimp only
        split
        · refine Saves.putItems he ?_ (.inr rfl)
          exact hnamed _ e he
        · exact hsaves
    | register r => exact absurd (Option.some.inj htarget) (hcomes r rfl)
    | remove playerId => exact absurd (Option.some.inj htarget) (hgoes playerId rfl)
    | _ =>
      exact (Saves.kept hwrites).apply hsaves htarget (fun _ _ _ h => nomatch h)
        (fun _ h => nomatch h) (fun _ h => nomatch h) fun _ h => nomatch h
  · exact (leavesAlone_of_target_ne o hnamed htarget).saves hnamed

end Hub

end Jukebox
