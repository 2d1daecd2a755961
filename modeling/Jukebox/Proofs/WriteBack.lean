import Jukebox.Proofs.Conduct
import Jukebox.Proofs.Ids
import Mathlib.Data.Set.Basic

/-!
# What a lookup writes back

An item that is to be played or handed over is looked up outside the hub, which may take any time,
and what was found is written back by the id of the item. The lookup works on a copy of the item,
but the write does not: it changes the item where it is in the list of that instant, and none if it
is gone (`Hub.writtenBack_updateItem`). A program that looks items up is followed with what it saw
and heard (`Memory`): it settles what it hears when it writes that back before it asks for anything
else, and leaves all lists alone besides (`Program.WritesBack`).
-/

namespace Jukebox

/-! ## One item changed in a list -/

section

variable {items other : List QueueItem} {itemId : String} {index : Nat}

theorem indexOf?_congr (h : ids items = ids other) (itemId : String) :
    indexOf? items itemId = indexOf? other itemId := by
  rw [indexOf?_eq, indexOf?_eq, h]

theorem find?_of_indexOf? (hindex : indexOf? items itemId = some index) :
    items.find? (fun i => i.id = itemId) = items[index]? := by
  unfold indexOf? at hindex
  rw [List.find?_eq_getElem?_findIdx, List.findIdx_eq_getD_findIdx?, hindex]
  rfl

theorem find?_of_gone (hgone : indexOf? items itemId = none) :
    items.find? (fun i => i.id = itemId) = none := by
  unfold indexOf? at hgone
  have hother := List.findIdx?_eq_none_iff.1 hgone
  exact List.find?_eq_none.2 fun i hi => ne_true_of_eq_false (hother i hi)

end

namespace Entry

variable (e : Entry) {itemId : String} (f : QueueItem → QueueItem)

theorem updateItem_of_gone (hgone : indexOf? e.items itemId = none) :
    e.updateItem itemId f = e.withItems e.queue e.items := by
  simp only [updateItem, hgone]

theorem updateItem_of_index {index : Nat} {item : QueueItem}
    (hindex : indexOf? e.items itemId = some index) (hitem : e.items[index]? = some item) :
    e.updateItem itemId f = e.withItems
      { e.queue with
        currentItem := e.queue.currentItem.map fun c => if c.id = itemId then f item else c }
      (e.items.set index (f item)) := by
  have hfind := (find?_of_indexOf? hindex).trans hitem
  simp only [updateItem, hindex, hfind]

/-- Only the item of the id is changed, wherever it is. -/
theorem getElem?_updateItem (n : Nat) :
    (e.updateItem itemId f).items[n]? =
      if indexOf? e.items itemId = some n then e.items[n]?.map f else e.items[n]? := by
  cases hindex : indexOf? e.items itemId with
  | none =>
    rw [e.updateItem_of_gone f hindex]
    rfl
  | some index =>
    obtain ⟨item, hitem⟩ : ∃ item, e.items[index]? = some item :=
      ⟨_, List.getElem?_eq_getElem (lt_length_of_indexOf? hindex)⟩
    rw [e.updateItem_of_index f hindex hitem]
    show (e.items.set index (f item))[n]? = _
    by_cases hn : index = n
    · subst hn
      rw [if_pos rfl, hitem, List.getElem?_set_self (lt_length_of_indexOf? hindex)]
      rfl
    · rw [if_neg fun h => hn (Option.some.inj h), List.getElem?_set_ne hn]

/-- A current item of the id becomes the one that is in the list. -/
theorem queue_updateItem (hf : ∀ i, (f i).id = i.id) :
    (e.updateItem itemId f).queue =
      { e.queue with
        currentItem := e.queue.currentItem.map fun c =>
          if c.id = itemId then
            ((e.updateItem itemId f).items.find? fun i => i.id = itemId).getD c
          else c
        itemCount := e.items.length } := by
  have hsame := indexOf?_congr (e.ids_updateItem itemId hf) itemId
  cases hindex : indexOf? e.items itemId with
  | none =>
    rw [find?_of_gone (hsame.trans hindex), e.updateItem_of_gone f hindex]
    simp [withItems]
  | some index =>
    obtain ⟨item, hitem⟩ : ∃ item, e.items[index]? = some item :=
      ⟨_, List.getElem?_eq_getElem (lt_length_of_indexOf? hindex)⟩
    rw [find?_of_indexOf? (hsame.trans hindex), getElem?_updateItem, if_pos hindex, hitem,
      e.updateItem_of_index f hindex hitem]
    simp [withItems]

end Entry

namespace Hub

/-- Whether between two hubs nothing happened but that an item of a queue was changed by its id. -/
structure WrittenBack (queueId itemId : String) (change : ItemChange) (h h' : Hub) : Prop where
  /-- The same ids are in the list, in the same order. -/
  ids_eq : ids (h'.items queueId) = ids (h.items queueId)
  /-- Only the item of the id is changed, wherever it is. -/
  items_eq : ∀ n, (h'.items queueId)[n]? =
    if indexOf? (h.items queueId) itemId = some n then (h.items queueId)[n]?.map change.apply
    else (h.items queueId)[n]?
  /-- The queue stays but for a current item of that id, which is the one in the list. It counts the
  items of the list. -/
  queue_eq : h'.queue? queueId = (h.queue? queueId).map fun q =>
    { q with
      currentItem := q.currentItem.map fun c =>
        if c.id = itemId then ((h'.items queueId).find? fun i => i.id = itemId).getD c else c
      itemCount := (h.items queueId).length }
  /-- Other queues stay. -/
  others : ∀ other, other ≠ queueId → h'.entry? other = h.entry? other
  /-- Nothing is published, stored or scheduled. -/
  apart : h' = { h with queues := h'.queues }

variable {h h' : Hub} {queueId itemId : String}

/-- An update fails only for an unknown queue. -/
theorem eq_noQueue_of_updateItem {f : QueueItem → QueueItem} {failure : Failure}
    (hfail : (h.updateItem queueId itemId f).1 = .error failure) : failure = .noQueue queueId := by
  unfold updateItem at hfail
  split at hfail
  · cases hfail
    rfl
  · split at hfail <;> cases hfail

theorem putItems_eq (h : Hub) (queueId : String) (q : Queue) (items : List QueueItem) :
    h.putItems queueId q items = { h with queues := (h.putItems queueId q items).queues } := by
  unfold putItems modifyEntry
  cases h.entry? queueId <;> rfl

/-- Where there is no queue there is nothing to change. -/
theorem writtenBack_unknown (change : ItemChange) (hunknown : h.entry? queueId = none) :
    WrittenBack queueId itemId change h h := by
  have hitems : h.items queueId = [] := by rw [items, hunknown]; rfl
  refine ⟨rfl, fun n => ?_, ?_, fun _ _ => rfl, rfl⟩
  · simp [hitems]
  · rw [queue?_eq_map, hunknown]
    rfl

/-- An item that is updated is changed where it is at that instant. -/
theorem writtenBack_updateItem (h : Hub) (queueId itemId : String) (change : ItemChange) :
    WrittenBack queueId itemId change h (h.updateItem queueId itemId change.apply).2 := by
  have htouches := @touches_updateItem h queueId itemId change.apply
  cases he : h.entry? queueId with
  | none =>
    have hsame : (h.updateItem queueId itemId change.apply).2 = h := by simp only [updateItem, he]
    rw [hsame]
    exact writtenBack_unknown change he
  | some e =>
    have hitems : h.items queueId = e.items := h.items_eq_of_entry queueId he
    have hentry : entry? (h.updateItem queueId itemId change.apply).2 queueId =
        some (e.updateItem itemId change.apply) := by
      rw [htouches, if_pos rfl, he]
      rfl
    have hafter := items_eq_of_entry _ queueId hentry
    have hids := e.ids_updateItem itemId change.id_apply
    have hothers : ∀ other, other ≠ queueId →
        entry? (h.updateItem queueId itemId change.apply).2 other = h.entry? other :=
      fun other hne => (htouches other).trans (if_neg hne)
    have hapart : (h.updateItem queueId itemId change.apply).2 =
        { h with queues := (h.updateItem queueId itemId change.apply).2.queues } := by
      simp only [updateItem, he]
      split <;> exact h.putItems_eq _ _ _
    refine ⟨by rw [hafter, hitems, hids], fun n => ?_, ?_, hothers, hapart⟩
    · rw [hafter, hitems]
      exact e.getElem?_updateItem change.apply n
    · rw [queue?_eq_map, queue?_eq_map, hentry, he, hafter, hitems]
      exact congrArg some (e.queue_updateItem change.apply change.id_apply)

end Hub

/-! ## What a program saw and heard -/

/-- What a program that looks items of a queue up saw, heard and did. -/
structure Memory where
  /-- The items that were in the list when the program looked. -/
  seen : Set QueueItem := ∅
  /-- The last call that was answered, with its answer. -/
  heard : Option ((c : Call) × c.Reply) := none
  /-- The hubs before and after each change that the program made since. -/
  writes : List (Hub × Hub) := []

/-- Whether a call looks up what an item stands for. -/
def Call.LooksUp : Call → Prop
  | libraryItem _ => True
  | streamDetails .. => True
  | _ => False

/-- Whether an answer says what becomes of an item: the stream of the item was found, or the item
was not. -/
def Call.Tells : (c : Call) → c.Reply → Prop
  | libraryItem _, .error failure => failure.isNotFound = true
  | streamDetails .., .ok _ => True
  | streamDetails .., .error failure => failure.isNotFound = true
  | _, _ => False

theorem Call.Tells.looksUp {c : Call} {reply : c.Reply} (h : c.Tells reply) : c.LooksUp := by
  cases c <;> trivial

theorem Call.Tells.isNotFound {c : Call} {failure : Failure} (h : c.Tells (.error failure)) :
    failure.isNotFound = true := by
  cases c <;> first | exact h | exact h.elim

namespace Memory

def see (m : Memory) (queueId : String) (h : Hub) : Memory :=
  { m with seen := m.seen ∪ {i | i ∈ h.items queueId} }

def hear (m : Memory) (c : Call) (reply : c.Reply) : Memory :=
  { m with heard := some ⟨c, reply⟩, writes := [] }

def wrote (m : Memory) (h h' : Hub) : Memory := { m with writes := (h, h') :: m.writes }

/-- Whether the last answer is that of a lookup of an item and says that the item is to be changed
so: its stream was found, with the media that it was asked for, or the item was not. -/
def Warrants (m : Memory) (item : QueueItem) : ItemChange → Prop
  | .loaded media stream => ∃ request details stripBegin stripEnd,
      m.heard = some ⟨.streamDetails { item with media } request, .ok details⟩ ∧
      stream = some { details with stripSilenceBegin := stripBegin, stripSilenceEnd := stripEnd }
  | .unavailable => ∃ failure, failure.isNotFound = true ∧
      ((∃ media, item.media = some media ∧ m.heard = some ⟨.libraryItem media, .error failure⟩) ∨
        ∃ media request,
          m.heard = some ⟨.streamDetails { item with media } request, .error failure⟩)

/-- Whether between two hubs nothing happened but that an item that was seen was changed as the last
answer says. -/
def WritesBack (m : Memory) (queueId : String) (h h' : Hub) : Prop :=
  ∃ item ∈ m.seen, ∃ change, m.Warrants item change ∧ h.WrittenBack queueId item.id change h'

/-- Whether what the last answer says of an item, if anything, was written back. -/
def Settled (m : Memory) (queueId : String) : Prop :=
  (∃ c reply, m.heard = some ⟨c, reply⟩ ∧ c.Tells reply) →
    ∃ write ∈ m.writes, m.WritesBack queueId write.1 write.2

/-- Whether more was seen and changed, but nothing was heard. -/
structure Grows (m m' : Memory) : Prop where
  heard_eq : m'.heard = m.heard
  seen : m.seen ⊆ m'.seen
  writes : m.writes ⊆ m'.writes

variable {m m' : Memory} {queueId : String} {h h' : Hub}

theorem grows_see : m.Grows (m.see queueId h) := ⟨rfl, Set.subset_union_left, fun _ => id⟩

theorem grows_wrote : m.Grows (m.wrote h h') := ⟨rfl, subset_rfl, List.subset_cons_self _ _⟩

theorem Grows.trans {m'' : Memory} (h : m.Grows m') (h' : m'.Grows m'') : m.Grows m'' :=
  ⟨h'.heard_eq.trans h.heard_eq, h.seen.trans h'.seen, List.Subset.trans h.writes h'.writes⟩

theorem Grows.warrants_iff (hgrows : m.Grows m') {item : QueueItem} {change : ItemChange} :
    m'.Warrants item change ↔ m.Warrants item change := by
  cases change <;> simp only [Warrants, hgrows.heard_eq]

theorem Grows.writesBack (hgrows : m.Grows m') (hback : m.WritesBack queueId h h') :
    m'.WritesBack queueId h h' := by
  obtain ⟨item, hseen, change, hwarrants, hwritten⟩ := hback
  exact ⟨item, hgrows.seen hseen, change, hgrows.warrants_iff.2 hwarrants, hwritten⟩

theorem Grows.settled (hgrows : m.Grows m') (hsettled : m.Settled queueId) :
    m'.Settled queueId := by
  intro htold
  rw [hgrows.heard_eq] at htold
  obtain ⟨write, hwrite, hback⟩ := hsettled htold
  exact ⟨write, hgrows.writes hwrite, hgrows.writesBack hback⟩

/-- A change that writes back settles what was heard. -/
theorem WritesBack.settled (hback : m.WritesBack queueId h h') : (m.wrote h h').Settled queueId :=
  fun _ => ⟨(h, h'), List.mem_cons_self, grows_wrote.writesBack hback⟩

theorem settled_start : ({} : Memory).Settled queueId := by
  rintro ⟨c, reply, hheard, -⟩
  cases hheard

/-- Nothing is to be written back after an answer that says nothing of an item. -/
theorem settled_hear {c : Call} {reply : c.Reply} (h : ¬ c.Tells reply) :
    (m.hear c reply).Settled queueId := by
  rintro ⟨c, reply, hheard, htells⟩
  cases hheard
  exact absurd htells h

end Memory

/-- Whether all lists of a hub are those of another one. -/
def Hub.SameLists (h h' : Hub) : Prop := ∀ queueId, h'.items queueId = h.items queueId

/-- Whether an act leaves all lists alone and makes none. -/
def Act.KeepsLists : Act → Prop
  | modify .. => True
  | signal .. => True
  | dispatch .. => True
  | _ => False

/-- The rules of programs that leave all lists alone and look nothing up. -/
def Rules.keepingLists : Rules := { act := Act.KeepsLists, call := fun c => ¬ c.LooksUp }

theorem Hub.sameLists_apply {a : Act} (ha : a.KeepsLists) (o : Outside) (h : Hub) :
    h.SameLists (a.apply o h) := by
  intro queueId
  unfold Hub.items
  cases a with
  | modify target change =>
    rw [Act.apply, entry?_modifyQueue]
    split
    · rw [Option.map_map]
      rfl
    · rfl
  | signal target itemsChanged => rw [Act.apply, entry?_signal]
  | dispatch target delay media => rfl
  | _ => exact ha.elim

/-- Whether a program may go from a hub to another one: it leaves all lists alone, or it writes back
what it heard. -/
def Memory.Allows (m : Memory) (queueId : String) (h h' : Hub) : Prop :=
  h.SameLists h' ∨ m.WritesBack queueId h h'

theorem Memory.Grows.allows {m m' : Memory} (hgrows : m.Grows m') {queueId : String} {h h' : Hub}
    (hallows : m.Allows queueId h h') : m'.Allows queueId h h' :=
  hallows.imp_right hgrows.writesBack

namespace Program

variable {α β : Type}

/-- What a program remembers after its next stop. -/
def remembers (queueId : String) (o : Outside) (answers : Answers) (h : Hub) (m : Memory) :
    Program α → Memory
  | read next =>
    match next o h with
    | write h' _ => (m.see queueId h).wrote h h'
    | _ => m.see queueId h
  | call c _ => m.hear c (answers c)
  | _ => m

/-- Whether a program writes back what it hears of items that it saw before it asks for anything
else, leaves all lists alone besides, and ends with values for which `Q` holds of its memory. `at_`
is the hub that it may change at this instant. -/
def WritesBack (queueId : String) (Q : Memory → α → Prop) :
    Option (Outside × Hub) → Memory → Program α → Prop
  | _, m, done value => Q m value
  | _, m, read next => ∀ o h, (next o h).WritesBack queueId Q (some (o, h)) (m.see queueId h)
  | some (_, h), m, write h' next =>
    m.Allows queueId h h' ∧ next.WritesBack queueId Q none (m.wrote h h')
  | none, _, write _ _ => False
  | _, m, call c next =>
    m.Settled queueId ∧ ∀ reply, (next reply).WritesBack queueId Q none (m.hear c reply)
  | _, m, sleep _ next => next.WritesBack queueId Q none m
  | _, m, turn next => next.WritesBack queueId Q none m

variable {queueId : String} {P : Memory → α → Prop} {Q : Memory → β → Prop} {m : Memory}
  {p : Program α}

theorem WritesBack.seen (hp : p.WritesBack queueId P none m) (at_ : Option (Outside × Hub)) :
    p.WritesBack queueId P at_ m := by
  cases at_ with
  | none => exact hp
  | some at_ =>
    cases p with
    | write h next => exact hp.elim
    | _ => exact hp

theorem WritesBack.bind {f : α → Program β} {at_ : Option (Outside × Hub)}
    (hp : p.WritesBack queueId P at_ m)
    (hf : ∀ m' v, m.seen ⊆ m'.seen → P m' v → (f v).WritesBack queueId Q none m') :
    (p.bind f).WritesBack queueId Q at_ m := by
  induction p generalizing at_ m with
  | done value => exact (hf m value subset_rfl hp).seen at_
  | read next ih =>
    refine fun o h => ih o h (hp o h) fun m' v hmore => hf m' v ?_
    exact Set.subset_union_left.trans hmore
  | write h next ih =>
    cases at_ with
    | none => exact hp.elim
    | some at_ => exact ⟨hp.1, ih hp.2 hf⟩
  | call c next ih => exact ⟨hp.1, fun reply => ih reply (hp.2 reply) hf⟩
  | sleep ms next ih => exact ih hp hf
  | turn next ih => exact ih hp hf

theorem WritesBack.weaken {P' : Memory → α → Prop} {at_ : Option (Outside × Hub)}
    (hp : p.WritesBack queueId P at_ m) (h : ∀ m v, P m v → P' m v) :
    p.WritesBack queueId P' at_ m := by
  rw [← bind_done p]
  exact hp.bind fun m' v _ hv => h m' v hv

/-- What is done by rules that leave the lists alone and look nothing up needs no writing back. -/
theorem Yields.writesBack {P : α → Prop} {at_ : Option (Outside × Hub)}
    (hp : p.Yields .keepingLists P at_) (hm : m.Settled queueId) :
    p.WritesBack queueId (fun m _ => m.Settled queueId) at_ m := by
  induction p generalizing at_ m with
  | done value => exact hm
  | read next ih => exact fun o h => ih o h (hp o h) (Memory.grows_see.settled hm)
  | write h next ih =>
    cases at_ with
    | none => exact hp.elim
    | some at_ =>
      obtain ⟨⟨a, ha, rfl⟩, hnext⟩ := hp
      exact ⟨.inl (Hub.sameLists_apply ha at_.1 at_.2), ih hnext (Memory.grows_wrote.settled hm)⟩
  | call c next ih =>
    exact ⟨hm, fun reply => ih reply (hp.2 reply) (Memory.settled_hear fun h => hp.1 h.looksUp)⟩
  | sleep ms next ih => exact @ih m none hp hm
  | turn next ih => exact @ih m none hp hm

/-- A stop of such a program is allowed by what it remembers, and it goes on as such. -/
theorem WritesBack.advance (hp : p.WritesBack queueId P none m) (o : Outside) (answers : Answers)
    (h : Hub) :
    (p.advance o answers h).1.WritesBack queueId P none (p.remembers queueId o answers h m) ∧
      (p.remembers queueId o answers h m).Allows queueId h (p.advance o answers h).2 := by
  cases p with
  | done value => exact ⟨hp, .inl fun _ => rfl⟩
  | read next =>
    have hnext := hp o h
    cases hcase : next o h with
    | write h' rest =>
      rw [hcase] at hnext
      simp only [Program.advance, remembers, hcase]
      exact ⟨hnext.2, Memory.grows_wrote.allows hnext.1⟩
    | _ =>
      rw [hcase] at hnext
      simp only [Program.advance, remembers, hcase]
      exact ⟨hnext, .inl fun _ => rfl⟩
  | write h' next => exact hp.elim
  | call c next => exact ⟨hp.2 (answers c), .inl fun _ => rfl⟩
  | sleep ms next => exact ⟨hp, .inl fun _ => rfl⟩
  | turn next => exact ⟨hp, .inl fun _ => rfl⟩

end Program

end Jukebox
