import Jukebox.Proofs.Saving

/-!
# What a restart finds

While the store works and a queue is registered once, the list that is stored of the queue is the
one in memory, or the one in memory was emptied and nobody was told since
(`Session.gone_or_saved`). A restart finds what is stored if the snapshot can be read and its
position lies in its list (`Hub.Fits`). So the list that is found is the one that was in memory if
the snapshot fits and the list was not emptied without a word (`restart_finds_list_iff`).

A request for media empties the list of a queue that came to its end. If it fails then, the old list
comes back with the next restart (`emptied_list_comes_back`).
-/

namespace Jukebox

namespace Hub

/-- Whether the snapshot of a queue can be read, and its position lies in its list. -/
def Fits (h : Hub) (o : Outside) (queueId : String) : Prop :=
  ∃ (text : String) (q : Queue) (items : List QueueItem),
    h.stored? o (Store.queueBase queueId) Store.stateKey = some text ∧ parse? text = some q ∧
      h.storedItems? o (Store.queueBase queueId) = some items ∧
      ∀ index ∈ q.currentIndex, index < items.length

/-- Whether what is stored of a queue is its own: its state at some time, and a certain list of its
items, or nothing if that is empty. -/
structure Stores (queueId : String) (list : List QueueItem) (h : Hub) : Prop where
  state : ∀ text, h.stateText? queueId = some text →
    ∃ q : Queue, q.id = queueId ∧ text = (encode q).toText
  items : h.itemsText? queueId = some (encode list).toText ∨ h.itemsText? queueId = none ∧ list = []
  owned : OwnedBy queueId list

variable {h₀ h : Hub} {queueId : String} {list : List QueueItem}

/-- A snapshot is restored if it fits, for it belongs to its queue. -/
theorem Stores.ids_registered (hs : h.Stores queueId list) (o : Outside) (displayName : String)
    (available : Bool) (hfits : h.Fits o queueId) :
    ids (h.registered o queueId displayName available).items = ids list := by
  obtain ⟨text, q, items, htext, hq, hitems, hposition⟩ := hfits
  obtain ⟨written, hid, rfl⟩ := hs.state text (stored?_eq_some_iff.1 htext).2
  have hread : ids items = ids list ∧ OwnedBy queueId items := by
    rcases (storedItems?_eq_some_iff.1 hitems).2 with ⟨hnone, rfl⟩ | ⟨found, hfound, hparse⟩
    · rcases hs.items with hsome | ⟨-, rfl⟩
      · exact nomatch hnone.symm.trans hsome
      · exact ⟨rfl, hs.owned⟩
    · rcases hs.items with hsome | ⟨hnone, -⟩
      · cases hfound.symm.trans hsome
        exact ⟨ids_of_parse? hparse, ownedBy_of_parse? hparse hs.owned⟩
      · exact nomatch hnone.symm.trans hfound
  have hbelong : belong queueId q items :=
    belong_iff.2 ⟨(id_of_parse? hq).trans hid, hposition, hread.2⟩
  have hrestored := (restored?_eq_some_iff o).2 ⟨_, q, htext, hq, hitems, hbelong, rfl⟩
  rw [registered, hrestored]
  exact hread.1

theorem items_register (h : Hub) (o : Outside) (queueId displayName : String) (available : Bool) :
    Hub.items (h.register o queueId displayName available).2 queueId =
      (h.registered o queueId displayName available).items := by
  rw [register_eq]
  refine items_eq_of_entry _ _ ?_
  rw [entry?_putEntry, if_pos rfl]

/-- What was written of a queue fits if its numbers are read back. -/
theorem fits_of_storable {h' : Hub} {o : Outside} {q : Queue} {items : List QueueItem}
    (hreads : ∀ key, o.faults.reading (Store.queueBase queueId) key = false)
    (hstate : h.stateText? queueId = some (encode q).toText) (hq : q.Storable)
    (hlist : h.itemsText? queueId = some (encode items).toText) (hitems : ∀ i ∈ items, i.Storable)
    (hposition : ∀ index ∈ q.currentIndex, index < items.length) (hstore : h'.store = h.store) :
    h'.Fits o queueId := by
  refine ⟨_, q.written, items, stored?_eq_some_iff.2 ⟨hreads _, ?_⟩, parse?_queue hq,
    storedItems?_eq_some_iff.2 ⟨hreads _, .inr ⟨_, ?_, parse?_items hitems⟩⟩, hposition⟩
  · rw [hstore]
    exact hstate
  · rw [hstore]
    exact hlist

/-- Otherwise the queue starts without items. -/
theorem items_registered_of_not_fits {o : Outside} (displayName : String) (available : Bool)
    (hfits : ¬ h.Fits o queueId) : (h.registered o queueId displayName available).items = [] := by
  unfold registered
  rcases hrestored : h.restored? o queueId with _ | ⟨q, items⟩
  · rfl
  · obtain ⟨text, stored, htext, hstored, hitems, hbelong, -⟩ :=
      (restored?_eq_some_iff o).1 hrestored
    exact absurd ⟨text, stored, items, htext, hstored, hitems, (belong_iff.1 hbelong).2.1⟩ hfits

/-- What is stored stays a queue's own. The list is stored anew if it was published. -/
theorem Stores.of_saves (hs : h₀.Stores queueId list) (hsaves : Saves queueId h₀ h)
    (howned : OwnedBy queueId (h.items queueId)) :
    ∃ told, h.events = h₀.events ++ told ∧
      if told.any (·.tellsItems queueId) then h.Stores queueId (h.items queueId)
      else h.Stores queueId list ∧
        (ids (h.items queueId) = ids (h₀.items queueId) ∨ h.items queueId = []) := by
  obtain ⟨told, hevents, hlist⟩ := hsaves.list
  have hstate : ∀ text, h.stateText? queueId = some text →
      ∃ q : Queue, q.id = queueId ∧ text = (encode q).toText := by
    intro text htext
    rcases hsaves.state text htext with hbefore | hnew
    · exact hs.state text hbefore
    · exact hnew
  refine ⟨told, hevents, ?_⟩
  split at hlist
  · next htold =>
    rw [if_pos htold]
    exact ⟨hstate, .inl hlist, howned⟩
  · next htold =>
    rw [if_neg htold]
    refine ⟨⟨hstate, ?_, hs.owned⟩, hlist.2⟩
    rw [hlist.1]
    exact hs.items

theorem store_start (config : Config) (store : Store) (draws : Draws) (nextItem : Nat) :
    (start config store draws nextItem).store = store :=
  rfl

theorem Stores.congr {h' : Hub} (hs : h.Stores queueId list) (hstore : h'.store = h.store) :
    h'.Stores queueId list := by
  refine ⟨?_, ?_, hs.owned⟩
  · rw [stateText?, hstore]
    exact hs.state
  · rw [itemsText?, hstore]
    exact hs.items

theorem ownedBy_items (hall : h.All Entry.BelongsTo) (queueId : String) :
    OwnedBy queueId (h.items queueId) := by
  cases he : h.entry? queueId with
  | none =>
    simp [OwnedBy, items, he]
  | some e =>
    rw [items_eq_of_entry _ _ he]
    exact (hall queueId e he).2

/-- A queue of which nothing is stored is registered without items, and what the first report makes
of it is stored. -/
theorem Gone.exists_stores {o : Outside} {r : PlayerReport} (hgone : h.Gone r.playerId)
    (hwrites : ∀ key, o.faults.writing (Store.queueBase r.playerId) key = false)
    (hall : (h.onRegister o r).2.All Entry.BelongsTo) :
    ∃ e list, entry? (h.onRegister o r).2 r.playerId = some e ∧
      (h.onRegister o r).2.Stores r.playerId list ∧ ids e.items = ids list := by
  have hempty : (h.newEntry o r).items = [] := by
    refine items_registered_of_not_fits r.displayName r.available ?_
    rintro ⟨text, q, items, htext, -⟩
    exact nomatch (hgone.stored _).symm.trans (stored?_eq_some_iff.1 htext).2
  have hentry : entry? (h.putEntry r.playerId (h.newEntry o r)) r.playerId =
      some (h.newEntry o r) := by
    rw [entry?_putEntry, if_pos rfl]
  have hput : Saves r.playerId (h.putEntry r.playerId (h.newEntry o r))
      (h.putEntry r.playerId (h.newEntry o r)) := by
    refine .refl fun e he => ?_
    rw [hentry] at he
    cases he
    exact id_newEntry o r
  have hstores : (h.putEntry r.playerId (h.newEntry o r)).Stores r.playerId [] :=
    ⟨fun text htext => (nomatch (hgone.stored _).symm.trans htext),
      .inr ⟨hgone.stored _, rfl⟩, fun _ hi => nomatch hi⟩
  have hsaves : Saves r.playerId (h.putEntry r.playerId (h.newEntry o r)) (h.onRegister o r).2 :=
    ((Saves.kept hwrites).onReport hput rfl).publish fun _ h => nomatch h
  have hknown : contains (h.onRegister o r).2 r.playerId :=
    hsaves.known.trans (contains_of_entry hentry)
  obtain ⟨e, he⟩ := Option.isSome_iff_exists.1 hknown
  obtain ⟨told, -, hlist⟩ := hstores.of_saves hsaves (ownedBy_items hall _)
  rw [items_eq_of_entry _ _ he, items_eq_of_entry _ _ hentry, hempty] at hlist
  split at hlist
  · exact ⟨e, e.items, he, hlist, rfl⟩
  · refine ⟨e, [], he, hlist.1, ?_⟩
    rcases hlist.2 with hsame | hnone
    · exact hsame
    · rw [hnone]

end Hub

/-! ## Lists that are emptied without a word -/

/-- Whether a move registers a queue. -/
def Move.registers (queueId : String) : Move → Bool
  | register r => r.playerId = queueId
  | _ => false

namespace Session

/-- Whether a move empties the list of a queue. -/
def Empties (s : Session) (moves : List (Outside × Move)) (n : Nat) (queueId : String) : Prop :=
  (s.run (moves.take n)).hub.items queueId ≠ [] ∧
    (s.run (moves.take (n + 1))).hub.items queueId = []

/-- Whether a move publishes that the list of a queue changed. -/
def tellsItems (s : Session) (moves : List (Outside × Move)) (n : Nat) (queueId : String) : Bool :=
  ((s.run (moves.take (n + 1))).hub.events.drop (s.run (moves.take n)).hub.events.length).any
    (·.tellsItems queueId)

/-- Whether the list of a queue was emptied before a time, and no change of it was published
since. -/
def Dropped (s : Session) (moves : List (Outside × Move)) (n : Nat) (queueId : String) : Prop :=
  ∃ m < n, s.Empties moves m queueId ∧
    ∀ k, m ≤ k → k < n → s.tellsItems moves k queueId = false

variable {s : Session} {moves : List (Outside × Move)} {n : Nat} {queueId : String}

theorem dropped_succ : s.Dropped moves (n + 1) queueId ↔
    s.tellsItems moves n queueId = false ∧
      (s.Dropped moves n queueId ∨ s.Empties moves n queueId) := by
  constructor
  · rintro ⟨m, hm, hempties, huntold⟩
    refine ⟨huntold n (by omega) (by omega), ?_⟩
    by_cases hlast : m = n
    · exact .inr (hlast ▸ hempties)
    · exact .inl ⟨m, by omega, hempties, fun k hmk hkn => huntold k hmk (by omega)⟩
  · rintro ⟨huntold, ⟨m, hm, hempties, hbefore⟩ | hempties⟩
    · refine ⟨m, by omega, hempties, fun k hmk hkn => ?_⟩
      by_cases hlast : k = n
      · exact hlast ▸ huntold
      · exact hbefore k hmk (by omega)
    · refine ⟨n, by omega, hempties, fun k hmk hkn => ?_⟩
      rw [show k = n by omega]
      exact huntold

/-- Whether a queue is known and its list is the stored one, or was emptied since without a word. -/
def Saved (s : Session) (moves : List (Outside × Move)) (n : Nat) (queueId : String) : Prop :=
  ∃ e list, (s.run (moves.take n)).hub.entry? queueId = some e ∧
    (s.run (moves.take n)).hub.Stores queueId list ∧
    (s.Dropped moves n queueId → e.items = [] ∧ list ≠ []) ∧
    (¬ s.Dropped moves n queueId → ids e.items = ids list)

/-- A move that neither brings a queue nor takes it away keeps the list as it is stored, or empties
it without a word. -/
theorem Saved.of_saves (hsaved : s.Saved moves n queueId)
    (hsaves : Hub.Saves queueId (s.run (moves.take n)).hub (s.run (moves.take (n + 1))).hub)
    (hall : (s.run (moves.take (n + 1))).hub.All Entry.BelongsTo) :
    s.Saved moves (n + 1) queueId := by
  obtain ⟨e, list, he, hstores, hdropped, hkept⟩ := hsaved
  have hknown : (s.run (moves.take (n + 1))).hub.contains queueId :=
    hsaves.known.trans (Hub.contains_of_entry he)
  obtain ⟨e', he'⟩ := Option.isSome_iff_exists.1 hknown
  obtain ⟨told, hevents, hlist⟩ := hstores.of_saves hsaves (Hub.ownedBy_items hall queueId)
  have hitems := Hub.items_eq_of_entry _ _ he
  have hitems' := Hub.items_eq_of_entry _ _ he'
  have htells : s.tellsItems moves n queueId = told.any (·.tellsItems queueId) := by
    rw [tellsItems, hevents, List.drop_left]
  rw [hitems, hitems'] at hlist
  split at hlist
  · next htold =>
    refine ⟨e', e'.items, he', hlist, fun hdrop => ?_, fun _ => rfl⟩
    rw [dropped_succ, htells, htold] at hdrop
    exact absurd hdrop.1 (by decide)
  · next htold =>
    have hiff : s.Dropped moves (n + 1) queueId ↔
        s.Dropped moves n queueId ∨ e.items ≠ [] ∧ e'.items = [] := by
      rw [dropped_succ, htells, Empties, hitems, hitems']
      exact and_iff_right (Bool.not_eq_true _ ▸ htold)
    refine ⟨e', list, he', hlist.1, fun hdrop => ?_, fun hdrop => ?_⟩
    · rcases hiff.1 hdrop with hbefore | ⟨hsome, hnone⟩
      · obtain ⟨hempty, hstored⟩ := hdropped hbefore
        refine ⟨?_, hstored⟩
        rcases hlist.2 with hsame | hnone
        · rw [hempty] at hsame
          exact List.map_eq_nil_iff.1 hsame
        · exact hnone
      · refine ⟨hnone, fun hstored => hsome ?_⟩
        have hsame := hkept fun hbefore => hsome (hdropped hbefore).1
        rw [hstored] at hsame
        exact List.map_eq_nil_iff.1 hsame
    · have hsame := hkept fun hbefore => hdrop (hiff.2 (.inl hbefore))
      rcases hlist.2 with hids | hnone
      · exact hids.trans hsame
      · have hempty : e.items = [] := Classical.not_not.1 fun hsome =>
          hdrop (hiff.2 (.inr ⟨hsome, hnone⟩))
        rw [hnone, ← hsame, hempty]

theorem saves_step (hs : s.Follows .internal) (hnamed : s.hub.Named) {o : Outside}
    (hwrites : ∀ key, o.faults.writing (Store.queueBase queueId) key = false) {move : Move}
    (hcomes : move.registers queueId = false) (hgoes : move ≠ .remove queueId) :
    Hub.Saves queueId s.hub (s.step o move).hub := by
  rcases hs.exists_act o move with hsame | ⟨a, heq, hregisters, hremoves⟩
  · rw [hsame]
    exact .refl (hnamed queueId)
  · rw [heq]
    refine Hub.saves_apply hnamed hwrites (fun r hr hid => ?_) fun playerId hr hid => ?_
    · rw [hregisters r hr, Move.registers, decide_eq_true hid] at hcomes
      cases hcomes
    · exact hgoes (hid ▸ hremoves playerId hr)

variable (config : Config) (draws : Draws) (nextItem : Nat)

/-- Before a queue is registered nothing is known or stored of it. -/
theorem gone_of_unregistered (hnone : moves.countP (·.2.registers queueId) = 0) :
    ((start config {} draws nextItem).run moves).hub.Gone queueId := by
  have haway : StaysAway queueId moves := by
    intro o r hmem hid
    have hquiet := List.countP_eq_zero.1 hnone _ hmem
    exact hquiet (decide_eq_true hid)
  have hgone : (start config {} draws nextItem).hub.Gone queueId := ⟨rfl, fun _ => rfl⟩
  exact hgone.of_leavesAlone (gone_run (follows_start .internal config {} draws nextItem)
    (named_run config {} draws nextItem []) hgone haway)

theorem unregistered_before (honce : moves.countP (·.2.registers queueId) ≤ 1) {o : Outside}
    {move : Move} (hmove : moves[n]? = some (o, move)) (hregisters : move.registers queueId) :
    (moves.take n).countP (·.2.registers queueId) = 0 := by
  have hle := (List.take_sublist (n + 1) moves).countP_le (p := (·.2.registers queueId))
  rw [List.take_add_one, hmove, Option.toList_some, List.countP_append, List.countP_singleton,
    if_pos hregisters] at hle
  omega

/-- When a queue is registered for the first time, its list is the stored one. -/
theorem saved_of_registers (honce : moves.countP (·.2.registers queueId) ≤ 1) {o : Outside}
    {r : PlayerReport} (hmove : moves[n]? = some (o, .register r)) (hid : r.playerId = queueId)
    (hwrites : ∀ key, o.faults.writing (Store.queueBase queueId) key = false) :
    (start config {} draws nextItem).Saved moves (n + 1) queueId := by
  subst hid
  have hunregistered := unregistered_before honce hmove (decide_eq_true rfl)
  have hgone := gone_of_unregistered config draws nextItem hunregistered
  have hall := belongsTo_run config {} draws nextItem (moves.take (n + 1))
  have hnext := run_take_succ (start config {} draws nextItem) hmove
  rw [hnext] at hall
  obtain ⟨e, list, he, hstores, hsame⟩ := hgone.exists_stores hwrites hall
  refine ⟨e, list, ?_, ?_, fun hdrop => ?_, fun _ => hsame⟩
  · rw [hnext]
    exact he
  · rw [hnext]
    exact hstores
  · -- before, the queue was unknown at all times, and had no list to be emptied
    obtain ⟨m, hm, hempties, -⟩ := hdrop
    have hle := (List.take_sublist m (moves.take n)).countP_le (p := (·.2.registers r.playerId))
    rw [List.take_take, Nat.min_eq_left (Nat.le_of_lt_succ hm), hunregistered] at hle
    have hbefore := gone_of_unregistered config draws nextItem (Nat.le_zero.1 hle)
    refine absurd ?_ hempties.1
    rw [Hub.items, hbefore.unknown]
    rfl

/-- A queue that is gone stays so until it is registered. -/
theorem gone_succ (hgone : ((start config {} draws nextItem).run (moves.take n)).hub.Gone queueId)
    {o : Outside} {move : Move} (hmove : moves[n]? = some (o, move))
    (hcomes : move.registers queueId = false) :
    ((start config {} draws nextItem).run (moves.take (n + 1))).hub.Gone queueId := by
  rw [run_take_succ _ hmove]
  refine hgone.of_leavesAlone (gone_step (follows_internal_run config {} draws nextItem _)
    (named_run config {} draws nextItem _) hgone o move fun r hr hid => ?_).1
  rw [hr, Move.registers, decide_eq_true hid] at hcomes
  cases hcomes

/-- While a store works and a queue is registered once, there is nothing of the queue, or its list
is the stored one, or was emptied since without a word. -/
theorem gone_or_saved (hworks : ∀ m ∈ moves, m.1.faults = .none)
    (honce : moves.countP (·.2.registers queueId) ≤ 1) (n : Nat) :
    ((start config {} draws nextItem).run (moves.take n)).hub.Gone queueId ∨
      (start config {} draws nextItem).Saved moves n queueId := by
  induction n with
  | zero => exact .inl (gone_of_unregistered config draws nextItem rfl)
  | succ n ih =>
    have hall := belongsTo_run config {} draws nextItem (moves.take (n + 1))
    have hnamed := named_run config {} draws nextItem (moves.take n)
    cases hmove : moves[n]? with
    | none =>
      have hsame := run_take_of_none (start config {} draws nextItem) hmove
      rw [hsame]
      refine ih.imp_right fun hsaved => hsaved.of_saves ?_ hall
      rw [hsame]
      exact .refl (hnamed queueId)
    | some m =>
      obtain ⟨o, move⟩ := m
      have hfaults : o.faults = .none := hworks (o, move) (List.mem_of_getElem? hmove)
      have hwrites : ∀ key, o.faults.writing (Store.queueBase queueId) key = false := by
        intro key
        rw [hfaults]
        rfl
      cases hregisters : move.registers queueId with
      | true =>
        cases move with
        | register r =>
          exact .inr (saved_of_registers config draws nextItem honce hmove
            (of_decide_eq_true hregisters) hwrites)
        | _ => cases hregisters
      | false =>
        rcases ih with hgone | hsaved
        · exact .inl (gone_succ config draws nextItem hgone hmove hregisters)
        by_cases hgoes : move = .remove queueId
        · subst hgoes
          rw [run_take_succ _ hmove]
          refine .inl (Hub.gone_onRemove o ?_)
          rw [hfaults]
          rfl
        · have hsaves := saves_step (follows_internal_run config {} draws nextItem _) hnamed hwrites
            hregisters hgoes
          rw [← run_take_succ _ hmove] at hsaves
          exact .inr (hsaved.of_saves hsaves hall)

end Session

/-! ## Restarts -/

/-- A queue is registered with a store that always worked, after it was registered once before: it
has the list that it had exactly if the snapshot fits or the list is empty, provided that the list
was not emptied without a word; and if it was, exactly if the snapshot does not fit. -/
theorem restart_finds_list_iff (config : Config) (draws : Draws) (nextItem : Nat)
    {moves : List (Outside × Move)} {queueId : String} {e : Entry}
    (hworks : ∀ m ∈ moves, m.1.faults = .none)
    (honce : moves.countP (·.2.registers queueId) ≤ 1)
    (he : ((Session.start config {} draws nextItem).run moves).hub.entry? queueId = some e)
    (config' : Config) (draws' : Draws) (nextItem' : Nat) (o : Outside) (displayName : String)
    (available : Bool) :
    let s := Session.start config {} draws nextItem
    let fresh := Hub.start config' (s.run moves).hub.store draws' nextItem'
    ids (Hub.items (fresh.register o queueId displayName available).2 queueId) = ids e.items ↔
      (s.Dropped moves moves.length queueId → ¬ fresh.Fits o queueId) ∧
        (¬ s.Dropped moves moves.length queueId → fresh.Fits o queueId ∨ e.items = []) := by
  intro s fresh
  have hgone := Session.gone_or_saved config draws nextItem hworks honce moves.length
  have hsaved := hgone.resolve_left fun hgone => by
    rw [List.take_length] at hgone
    exact nomatch hgone.unknown.symm.trans he
  obtain ⟨e', list, he', hstores, hdropped, hkept⟩ := hsaved
  rw [List.take_length] at he' hstores
  cases he.symm.trans he'
  have hfresh : fresh.Stores queueId list := hstores.congr (Hub.store_start _ _ _ _)
  rw [Hub.items_register]
  by_cases hfits : fresh.Fits o queueId
  · rw [hfresh.ids_registered o displayName available hfits]
    constructor
    · intro hsame
      refine ⟨fun hdrop => ?_, fun _ => .inl hfits⟩
      obtain ⟨hempty, hstored⟩ := hdropped hdrop
      rw [hempty] at hsame
      exact absurd (List.map_eq_nil_iff.1 hsame) hstored
    · rintro ⟨hdrop, -⟩
      exact (hkept fun hdropped => hdrop hdropped hfits).symm
  · rw [Hub.items_registered_of_not_fits displayName available hfits]
    constructor
    · intro hsame
      exact ⟨fun _ => hfits, fun _ => .inr (List.map_eq_nil_iff.1 hsame.symm)⟩
    · rintro ⟨-, hkeeps⟩
      have hempty : e.items = [] := by
        by_cases hdrop : s.Dropped moves moves.length queueId
        · exact (hdropped hdrop).1
        · exact (hkeeps hdrop).resolve_left hfits
      rw [hempty]

/-! ## A list that is started over -/

namespace House

def secondTrack : QueueItem := { QueueItem.ofMedia "qi2" "den" (track "b") with sortIndex := 1 }

def twoTracks : List QueueItem := [.ofMedia "qi1" "den" (track "a"), secondTrack]

/-- A queue that stands at the second of two tracks. -/
def atSecond : Queue :=
  { id := "den"
    displayName := "Den"
    available := true
    currentIndex := some 1
    bufferedIndex := some 1
    currentItem := some
      { secondTrack with
        stream := some
          { provider := "test"
            itemId := "qi2"
            duration := some 180
            seekPosition := 0
            fadeIn := false
            preferAlbumLoudness := false
            stripSilenceBegin := false
            stripSilenceEnd := false } }
    requested := [track "a", track "b"]
    itemCount := 2 }

theorem storable_secondTrack : secondTrack.Storable :=
  ⟨by decide, (storable_ofMedia "qi2" (exact_track "b")).media⟩

theorem storable_twoTracks : ∀ i ∈ twoTracks, i.Storable := by
  intro i hi
  simp only [twoTracks, List.mem_cons, List.not_mem_nil, or_false] at hi
  rcases hi with rfl | rfl
  · exact storable_ofMedia "qi1" (exact_track "a")
  · exact storable_secondTrack

theorem storable_atSecond : atSecond.Storable := by
  constructor
  case counted => decide
  case elapsed => decide +kernel
  case updated => decide +kernel
  case current =>
    intro i hi
    cases hi
    exact ⟨storable_secondTrack.sorted, storable_secondTrack.media⟩
  case requested => simp [atSecond, exact_track]
  all_goals simp [atSecond]

/-- A queue is filled and its last track is asked for. While its player renders something else, the
queue counts as finished, so that the next request, which finds nothing, starts it over. -/
def startedOver : List (Outside × Move) :=
  (world, .register { den with activeSource := some "radio" }) ::
    request (.playMedia "den" [.item (track "a"), .item (track "b")] (some .add) false none) ++
    request (.playIndex "den" (.index 1) 0 false false) ++
    request (.playMedia "den" [.uri "test://missing"] (some .add) false none)

theorem faults_startedOver : ∀ m ∈ startedOver, m.1.faults = .none := by
  have hworld : ∀ m ∈ startedOver, m.1 = world := by
    simp [startedOver, request, goOn]
  intro m hm
  rw [hworld m hm]
  rfl

set_option maxRecDepth 1000 in
theorem itemsText_startedOver :
    (session.run startedOver).hub.itemsText? "den" = some (encode twoTracks).toText := by
  rfl

set_option maxRecDepth 1000 in
theorem stateText_startedOver :
    (session.run startedOver).hub.stateText? "den" = some (encode atSecond).toText := by
  rfl

theorem stores_startedOver : (session.run startedOver).hub.Stores "den" twoTracks := by
  refine ⟨fun text htext => ⟨atSecond, rfl, ?_⟩, .inl itemsText_startedOver, ?_⟩
  · exact Option.some.inj (htext.symm.trans stateText_startedOver)
  · simp [OwnedBy, twoTracks, secondTrack, QueueItem.ofMedia]

theorem fits_startedOver {h : Hub} (hstore : h.store = (session.run startedOver).hub.store) :
    h.Fits world "den" :=
  Hub.fits_of_storable (fun _ => rfl) stateText_startedOver storable_atSecond itemsText_startedOver
    storable_twoTracks (by decide) hstore

end House

/-- A restart after the list was emptied without a word. -/
theorem restart_finds_startedOver :
    (∀ m ∈ House.startedOver, m.1.faults = .none) ∧
      House.startedOver.countP (·.2.registers "den") ≤ 1 ∧
      let s := House.session
      let fresh := Hub.start {} (s.run House.startedOver).hub.store default 1
      ∃ e, (s.run House.startedOver).hub.entry? "den" = some e ∧
        (ids (Hub.items (fresh.register House.world "den" "Den" true).2 "den") = ids e.items ↔
          (s.Dropped House.startedOver House.startedOver.length "den" →
              ¬ fresh.Fits House.world "den") ∧
            (¬ s.Dropped House.startedOver House.startedOver.length "den" →
              fresh.Fits House.world "den" ∨ e.items = [])) := by
  have honce : House.startedOver.countP (·.2.registers "den") ≤ 1 := by decide +kernel
  have hknown : ((House.session.run House.startedOver).hub.entry? "den").isSome := by
    decide +kernel
  refine ⟨House.faults_startedOver, honce, ?_⟩
  unfold House.session at hknown ⊢
  obtain ⟨e, he⟩ := Option.isSome_iff_exists.1 hknown
  have hiff := restart_finds_list_iff {} default 1 House.faults_startedOver honce he {} default 1
    House.world "Den" true
  exact ⟨e, he, hiff⟩

/-- The list is empty when every request has returned, and is not after a restart. -/
theorem emptied_list_comes_back :
    (House.session.run House.startedOver).active.length = 0 ∧
      (House.session.run House.startedOver).hub.items "den" = [] ∧
      let fresh := Hub.start {} (House.session.run House.startedOver).hub.store default 1
      ids (Hub.items (fresh.register House.world "den" "Den" true).2 "den") = ["qi1", "qi2"] := by
  have hdone : (House.session.run House.startedOver).active.length = 0 := by decide +kernel
  have hempty : ((House.session.run House.startedOver).hub.items "den").isEmpty := by
    decide +kernel
  refine ⟨hdone, List.isEmpty_iff.1 hempty, ?_⟩
  intro fresh
  have hstore := Hub.store_start {} (House.session.run House.startedOver).hub.store default 1
  have hstores := House.stores_startedOver.congr hstore
  rw [Hub.items_register, hstores.ids_registered House.world "Den" true
    (House.fits_startedOver hstore)]
  rfl

end Jukebox
