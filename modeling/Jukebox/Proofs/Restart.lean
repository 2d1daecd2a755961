import Jukebox.Proofs.Coding
import Jukebox.Proofs.Handover

/-!
# Restarts

When a player comes, its queue is restored from the store. Whatever is stored there, the queue is
fine and nothing of it plays (`register_restarted`); and what a working store holds of a queue is
the queue itself, as far as it outlives a restart (`register_persisted`).
-/

namespace Jukebox

/-! ## Any store -/

/-- Whether an entry is that of a queue whose player has just come: it has its list and its
position, and nothing is handed to the player. -/
structure Entry.Restarted (e : Entry) (queueId displayName : String) (available : Bool) : Prop where
  id : e.queue.id = queueId
  displayName : e.queue.displayName = displayName
  available : e.queue.available = available
  inactive : e.queue.active = false
  idle : e.queue.state = .idle
  counted : e.queue.itemCount = e.items.length
  position : ∀ index ∈ e.queue.currentIndex, index < e.items.length
  buffered : e.queue.bufferedIndex = e.queue.currentIndex
  current : e.queue.currentItem = e.queue.currentIndex.bind (e.items[·]?)
  next : e.queue.nextItem = none
  unmarked : e.queue.enqueuedNext = none
  unclaimed : e.queue.preloading = none
  unlogged : e.queue.flowLog = []
  forgotten : e.remembered = none
  owned : OwnedBy queueId e.items

namespace Hub

variable (h : Hub) (o : Outside) (queueId displayName : String) (available : Bool)

theorem register_eq : h.register o queueId displayName available =
    ((h.registered o queueId displayName available).queue,
      h.putEntry queueId (h.registered o queueId displayName available)) :=
  rfl

theorem restarted_registered :
    (h.registered o queueId displayName available).Restarted queueId displayName available := by
  unfold registered
  rcases hrestored : h.restored? o queueId with _ | ⟨q, items⟩
  · constructor <;> simp [Queue.empty, OwnedBy]
  · have hclaim := preloading_of_restored? o hrestored
    obtain ⟨text, stored, -, -, -, hbelong, rfl⟩ := (restored?_eq_some_iff o).1 hrestored
    obtain ⟨hid, hposition, howned⟩ := belong_iff.1 hbelong
    exact
      { id := hid
        displayName := rfl
        available := rfl
        inactive := rfl
        idle := rfl
        counted := rfl
        position := hposition
        buffered := rfl
        current := rfl
        next := rfl
        unmarked := rfl
        unclaimed := hclaim
        unlogged := rfl
        forgotten := rfl
        owned := howned }

theorem items_registered :
    (h.registered o queueId displayName available).items = [] ∨
      h.storedItems? o (Store.queueBase queueId) =
        some (h.registered o queueId displayName available).items := by
  unfold registered
  rcases hrestored : h.restored? o queueId with _ | ⟨q, items⟩
  · exact .inl rfl
  · obtain ⟨text, stored, -, -, hitems, -, -⟩ := (restored?_eq_some_iff o).1 hrestored
    exact .inr hitems

end Hub

/-- Whatever a store holds, and even if it can not be read, a queue is registered that is fine and
does not play, and its list is empty or the one that is stored. -/
theorem register_restarted (h : Hub) (o : Outside) (queueId displayName : String)
    (available : Bool) :
    ∃ e, Hub.entry? (h.register o queueId displayName available).2 queueId = some e ∧
      (h.register o queueId displayName available).1 = e.queue ∧
      e.Restarted queueId displayName available ∧
      (e.items = [] ∨ ∃ text,
        h.store.get? (Store.queueBase queueId) Store.itemsKey = some text ∧
          Hub.parse? text = some e.items) := by
  have hitems := h.items_registered o queueId displayName available
  have hrestarted := h.restarted_registered o queueId displayName available
  refine ⟨h.registered o queueId displayName available, ?_, rfl, hrestarted, ?_⟩
  · rw [h.register_eq, Hub.entry?_putEntry, if_pos rfl]
  · rcases hitems with hnone | hstored
    · exact .inl hnone
    · rcases Hub.storedItems?_eq_some_iff.1 hstored with ⟨-, ⟨-, hnone⟩ | hread⟩
      · exact .inl hnone
      · exact .inr hread

/-! ## A store that works -/

namespace Hub

variable {h : Hub} {o : Outside} {queueId : String} {e : Entry}

/-- A queue that is stored with its list is found in the store. -/
theorem get?_persist (he : h.entry? queueId = some e) (hid : e.queue.id = queueId)
    (hwrites : ∀ key, o.faults.writing (Store.queueBase queueId) key = false) :
    (h.persist o queueId true).store.get? (Store.queueBase queueId) Store.itemsKey =
        some (encode e.items).toText ∧
      (h.persist o queueId true).store.get? (Store.queueBase queueId) Store.stateKey =
        some (encode e.queue).toText := by
  have hstore : (h.persist o queueId true).store =
      (h.store.set (Store.queueBase queueId) Store.itemsKey (encode e.items).toText).set
        (Store.queueBase queueId) Store.stateKey (encode e.queue).toText := by
    simp [persist, he, writeSnapshot, hid, hwrites]
  rw [hstore]
  constructor
  · rw [Store.get?_set, if_neg (fun hkey => absurd hkey.2 (by decide)), Store.get?_set,
      if_pos ⟨rfl, rfl⟩]
  · rw [Store.get?_set, if_pos ⟨rfl, rfl⟩]

end Hub

/-- The queue as it goes on after a restart: nothing plays and nothing is handed to the player, and
the position counts as buffered. -/
def Entry.afterRestart (e : Entry) (displayName : String) (available : Bool) : Entry :=
  { queue :=
      { e.queue with
        active := false
        displayName
        available
        state := .idle
        bufferedIndex := e.queue.currentIndex
        currentItem := e.queue.currentIndex.bind (e.items[·]?)
        nextItem := none
        flowLog := []
        enqueuedNext := none
        preloading := none
        itemCount := e.items.length }
    items := e.items }

/-- A queue that was stored, and is registered with the same store, has the list and the queue that
it had, as far as a queue outlives a restart. -/
theorem register_persisted {h h' : Hub} {o o' : Outside} {queueId : String} {e : Entry}
    (he : h.entry? queueId = some e) (hbelong : Hub.belong queueId e.queue e.items)
    (hqueue : e.queue.Storable) (hitems : ∀ i ∈ e.items, i.Storable)
    (hwrites : ∀ key, o.faults.writing (Store.queueBase queueId) key = false)
    (hreads : ∀ key, o'.faults.reading (Store.queueBase queueId) key = false)
    (hstore : h'.store = (h.persist o queueId true).store) (displayName : String)
    (available : Bool) :
    (h'.register o' queueId displayName available).1 =
        (e.afterRestart displayName available).queue ∧
      Hub.entry? (h'.register o' queueId displayName available).2 queueId =
        some (e.afterRestart displayName available) := by
  obtain ⟨hlist, hstate⟩ := Hub.get?_persist he (Hub.belong_iff.1 hbelong).1 hwrites
  have hrestored :
      h'.restored? o' queueId = some (Hub.settled e.queue.written e.items, e.items) := by
    refine (Hub.restored?_eq_some_iff o').2
      ⟨_, _, Hub.stored?_eq_some_iff.2 ⟨hreads _, ?_⟩, Hub.parse?_queue hqueue,
        Hub.storedItems?_eq_some_iff.2 ⟨hreads _, .inr ⟨_, ?_, Hub.parse?_items hitems⟩⟩,
        hbelong, rfl⟩
    · rw [hstore, hstate]
    · rw [hstore, hlist]
  have hregistered : h'.registered o' queueId displayName available =
      e.afterRestart displayName available := by
    rw [Hub.registered, hrestored]
    rfl
  rw [Hub.register_eq, hregistered]
  exact ⟨rfl, by rw [Hub.entry?_putEntry, if_pos rfl]⟩

/-! ## An audiobook behind a track -/

namespace House

def book : MediaItem :=
  { itemId := "book"
    provider := "test"
    name := "Book"
    uri := "test://audiobook/book"
    available := true
    kind := .audiobook [⟨1, "One", 0⟩, ⟨2, "Two", 61.25⟩] ⟨some 12000, false⟩ }

/-- The second of two items plays, and the requests for both are remembered. -/
def shelf : Entry :=
  { queue :=
      { id := "den"
        active := true
        displayName := "Den"
        available := true
        state := .playing
        shuffle := true
        repeatMode := .all
        currentIndex := some 1
        bufferedIndex := some 1
        currentItem := some (.ofMedia "qi2" "den" book)
        elapsed := 12.5
        elapsedUpdated := 1700000000.25
        resumePosition := 12
        flowMode := true
        flowLog := [⟨"qi1", some 180, some 179.75⟩]
        radioSource := [track "a"]
        requested := [track "a", book]
        dontStop := true
        itemCount := 2 }
    items := [.ofMedia "qi1" "den" (track "a"), .ofMedia "qi2" "den" book] }

theorem exact_track (name : String) : (track name).Exact :=
  fun _ _ h => nomatch h

theorem exact_book : book.Exact := by
  intro chapters resume hkind c hc
  cases hkind
  have hstarts : ∀ x ∈ [(0 : Float), 61.25], Json.Exact x := by decide +kernel
  simp only [List.mem_cons, List.not_mem_nil, or_false] at hc
  rcases hc with rfl | rfl
  · exact hstarts 0 (by simp)
  · exact hstarts 61.25 (by simp)

theorem storable_ofMedia (id : String) {media : MediaItem} (hmedia : media.Exact) :
    (QueueItem.ofMedia id "den" media).Storable := by
  refine ⟨by simp [QueueItem.ofMedia], ?_⟩
  intro m hm
  cases hm
  exact hmedia

theorem storable_shelf : shelf.queue.Storable := by
  have hlength : Json.Exact 179.75 := by decide +kernel
  constructor
  case counted => decide
  case elapsed => decide +kernel
  case updated => decide +kernel
  case current =>
    intro i hi
    cases hi
    exact storable_ofMedia "qi2" exact_book
  case streamed =>
    intro e he x hx _
    simp only [shelf, List.mem_singleton] at he
    subst he
    cases hx
    exact hlength
  case source => simp [shelf, exact_track]
  case requested => simp [shelf, exact_track, exact_book]
  all_goals simp [shelf]

end House

/-- An audiobook that plays is still the current item after a restart, at the position that was
reached. -/
theorem register_persisted_shelf :
    let h := House.session.hub.putEntry "den" House.shelf
    let h' := { House.session.hub with store := (h.persist House.world "den" true).store }
    (h'.register House.world "den" "Loft" false).1 =
        (House.shelf.afterRestart "Loft" false).queue ∧
      Hub.entry? (h'.register House.world "den" "Loft" false).2 "den" =
        some (House.shelf.afterRestart "Loft" false) := by
  intro h h'
  have he : h.entry? "den" = some House.shelf := by simp [h]
  have hitems : ∀ i ∈ House.shelf.items, i.Storable := by
    intro i hi
    simp only [House.shelf, List.mem_cons, List.not_mem_nil, or_false] at hi
    rcases hi with rfl | rfl
    · exact House.storable_ofMedia "qi1" (House.exact_track "a")
    · exact House.storable_ofMedia "qi2" House.exact_book
  have hstore : h'.store = (h.persist House.world "den" true).store := rfl
  exact register_persisted he (by decide) House.storable_shelf hitems (fun _ => rfl) (fun _ => rfl)
    hstore "Loft" false

end Jukebox
