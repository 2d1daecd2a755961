import Jukebox.Proofs.Keeping

/-!
# What acts publish and store

Events tell which queue they are about, and every queue is stored under a base of its own
(`Store.queueBase_inj`). An act publishes and stores the queue that it is for at most
(`publishesOnly_apply`): a change is signalled with the id that the queue itself holds, and that is
the id under which it is kept.
-/

namespace Jukebox

theorem Store.queueBase_inj {queueId other : String} (h : queueBase queueId = queueBase other) :
    queueId = other := by
  unfold queueBase at h
  exact (String.append_right_inj _).1 h

/-- A snapshot is written under the base of its queue only. -/
theorem Hub.get?_writeSnapshot_of_ne (o : Outside) (store : Store) {q : Queue}
    (items : Option (List QueueItem)) {base : String} (hbase : base ≠ Store.queueBase q.id)
    (key : String) : (writeSnapshot o store q items).get? base key = store.get? base key := by
  have hset : ∀ (s : Store) (name text : String),
      (s.set (Store.queueBase q.id) name text).get? base key = s.get? base key := by
    intro s name text
    rw [Store.get?_set, if_neg fun h => hbase h.1]
  unfold writeSnapshot
  cases items with
  | none =>
    dsimp only
    split
    · rfl
    · exact hset _ _ _
  | some items =>
    dsimp only
    split
    · rfl
    · split
      · exact hset _ _ _
      · rw [hset, hset]

namespace Hub

/-- Whether since an earlier time only one queue was published and stored, if any, and that queue is
kept under its id. -/
structure PublishesOnly (queueId : String) (h₀ h : Hub) : Prop where
  named : ∀ e, h.entry? queueId = some e → e.queue.id = queueId
  events : ∃ told, h.events = h₀.events ++ told ∧ ∀ e ∈ told, e.queueId = queueId
  store : ∀ base key, base ≠ Store.queueBase queueId →
    h.store.get? base key = h₀.store.get? base key

variable {h₀ h h' : Hub} {queueId : String} (o : Outside)

theorem Named.publishesOnly (hnamed : h.Named) (queueId : String) :
    PublishesOnly queueId h h :=
  ⟨hnamed queueId, ⟨[], (List.append_nil _).symm, fun _ he => nomatch he⟩, fun _ _ _ => rfl⟩

namespace PublishesOnly

/-- Only the queues, the events and the store count. -/
theorem congr (hs : PublishesOnly queueId h₀ h)
    (hentry : h'.entry? queueId = h.entry? queueId) (hevents : h'.events = h.events)
    (hstore : h'.store = h.store) : PublishesOnly queueId h₀ h' :=
  ⟨fun e he => hs.named e (hentry.symm.trans he), hevents ▸ hs.events, hstore ▸ hs.store⟩

theorem publish (hs : PublishesOnly queueId h₀ h) {e : Event} (he : e.queueId = queueId) :
    PublishesOnly queueId h₀ (h.publish e) := by
  obtain ⟨told, hevents, htold⟩ := hs.events
  refine ⟨hs.named, ⟨told ++ [e], ?_, fun e' he' => ?_⟩, hs.store⟩
  · show h.events ++ [e] = h₀.events ++ (told ++ [e])
    rw [hevents, List.append_assoc]
  · rcases List.mem_append.1 he' with he' | he'
    · exact htold e' he'
    · rw [List.mem_singleton.1 he']
      exact he

/-! ## Entries -/

theorem putEntry (hs : PublishesOnly queueId h₀ h) {e : Entry} (he : e.queue.id = queueId) :
    PublishesOnly queueId h₀ (h.putEntry queueId e) := by
  refine ⟨fun e' he' => ?_, hs.events, hs.store⟩
  rw [entry?_putEntry, if_pos rfl] at he'
  cases he'
  exact he

theorem modifyEntry (hs : PublishesOnly queueId h₀ h) {f : Entry → Entry}
    (hf : ∀ e, h.entry? queueId = some e → (f e).queue.id = queueId) :
    PublishesOnly queueId h₀ (h.modifyEntry queueId f) := by
  unfold Hub.modifyEntry
  cases he : h.entry? queueId with
  | none => exact hs
  | some e => exact hs.putEntry (hf e he)

theorem putItems (hs : PublishesOnly queueId h₀ h) {q : Queue} {items : List QueueItem}
    (hq : q.id = queueId) : PublishesOnly queueId h₀ (h.putItems queueId q items) :=
  hs.modifyEntry fun _ _ => hq

theorem persist (hs : PublishesOnly queueId h₀ h) (itemsChanged : Bool) :
    PublishesOnly queueId h₀ (h.persist o queueId itemsChanged) := by
  unfold Hub.persist
  cases he : h.entry? queueId with
  | none => exact hs
  | some e =>
    refine ⟨hs.named, hs.events, fun base key hbase => ?_⟩
    rw [← hs.store base key hbase]
    refine get?_writeSnapshot_of_ne o _ _ ?_ key
    rwa [hs.named e he]

theorem signal (hs : PublishesOnly queueId h₀ h) (itemsChanged : Bool) :
    PublishesOnly queueId h₀ (h.signal o queueId itemsChanged) := by
  unfold Hub.signal
  cases hq : h.queue? queueId with
  | none => exact hs
  | some q =>
    obtain ⟨e, he, heq⟩ := Option.map_eq_some_iff.1 hq
    have hid : q.id = queueId := heq ▸ hs.named e he
    cases itemsChanged with
    | false => exact (hs.publish (e := .queueUpdated q) hid).persist o false
    | true =>
      have hitems := hs.publish (e := .itemsUpdated q.id q.itemCount) hid
      exact (hitems.publish (e := .queueUpdated q) hid).persist o true

/-- What is said of one queue is kept when it is changed. -/
theorem kept : Kept o queueId (PublishesOnly queueId h₀) where
  named hs he := hs.named _ he
  congr hs hentry hevents hstore _ := hs.congr hentry hevents hstore
  modifyEntry hs hf := hs.modifyEntry fun e he => (hf e he).1
  replace _ hs hq := (hs.putItems hq).signal o true
  publish hs he _ := hs.publish he
  signal itemsChanged hs := hs.signal o itemsChanged

theorem updateItem (hs : PublishesOnly queueId h₀ h) (itemId : String)
    (f : QueueItem → QueueItem) : PublishesOnly queueId h₀ (h.updateItem queueId itemId f).2 := by
  unfold Hub.updateItem
  cases he : h.entry? queueId with
  | none => exact hs
  | some e =>
    have hid := hs.named e he
    dsimp only
    split
    · exact hs.putItems hid
    · exact hs.putItems hid

theorem startOver (hs : PublishesOnly queueId h₀ h) :
    PublishesOnly queueId h₀ (h.startOver queueId) := by
  unfold Hub.startOver
  cases he : h.entry? queueId with
  | none => exact hs
  | some e =>
    dsimp only
    split
    · exact hs.putItems (hs.named e he)
    · exact hs

/-! ## Players that come and go -/

theorem onRegister {r : PlayerReport} (hs : PublishesOnly r.playerId h₀ h) :
    PublishesOnly r.playerId h₀ (h.onRegister o r).2 := by
  have hput : PublishesOnly r.playerId h₀ (h.putEntry r.playerId (h.newEntry o r)) :=
    hs.putEntry (id_newEntry o r)
  have hreport := (kept o).onReport hput rfl
  refine hreport.publish ?_
  show (Option.getD (queue? (Hub.onReport (h.putEntry r.playerId (h.newEntry o r)) o r) r.playerId)
    (h.newEntry o r).queue).id = r.playerId
  rw [queue?_eq_map]
  cases he : entry? (Hub.onReport (h.putEntry r.playerId (h.newEntry o r)) o r) r.playerId with
  | none => exact id_newEntry o r
  | some e => exact hreport.named e he

theorem onRemove (hs : PublishesOnly queueId h₀ h) :
    PublishesOnly queueId h₀ (h.onRemove o queueId) := by
  refine ⟨fun e he => ?_, hs.events, fun base key hbase => ?_⟩
  · rw [show h.onRemove o queueId = (Act.remove queueId).apply o h from rfl, entry?_remove,
      if_pos rfl] at he
    cases he
  · rw [← hs.store base key hbase]
    show Store.get? (if o.faults.deleting (Store.queueBase queueId) then h.store
      else h.store.delete (Store.queueBase queueId)) base key = h.store.get? base key
    split
    · rfl
    · rw [Store.get?_delete, if_neg hbase]

end PublishesOnly

/-- An act publishes and stores no other queue than the one that it is for. -/
theorem publishesOnly_apply (hnamed : h.Named) {a : Act} (hfor : NamesOnly queueId a.target?) :
    PublishesOnly queueId h (a.apply o h) := by
  have hs := hnamed.publishesOnly queueId
  cases htarget : a.target? with
  | none => cases a <;> first | exact hs.congr rfl rfl rfl | cases htarget
  | some target =>
    rw [htarget] at hfor
    cases hfor
    cases a with
    | updateItem => cases htarget; exact hs.updateItem _ _
    | startOver => cases htarget; exact hs.startOver
    | register => cases htarget; exact hs.onRegister o
    | remove => cases htarget; exact hs.onRemove o
    | _ =>
      exact (PublishesOnly.kept o).apply hs htarget (fun _ _ _ h => nomatch h)
        (fun _ h => nomatch h) (fun _ h => nomatch h) fun _ h => nomatch h

end Hub

end Jukebox
