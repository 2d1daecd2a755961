import Mathlib.Data.List.Nodup
import Jukebox.Proofs.Bringing
import Jukebox.Proofs.Runs

/-!
# Queues through whole runs

In every state of a session that began with nothing stored, every queue counts its items, tells them
apart by their ids, owns all of them and remembers no more requests than it may
(`Session.wellFormed_run`).

What carries this through a run is who has which ids. An id is reserved by one activity at most from
the moment when it is made until it is loaded into a list, and from then on it is spent
(`Reserved`). Lists, snapshots and the copies that activities made of lists only have spent ids, and
that stays so whatever the others do.
-/

namespace Jukebox

/-! ## Ids that are reserved -/

theorem newId_inj {m n : Nat} (h : newId m = newId n) : m = n := by
  have hchars := congrArg String.toList h
  simp only [newId, String.toList_append] at hchars
  have hvalue := congrArg (Nat.ofDigitChars 10 · 0) (List.append_cancel_left hchars)
  simpa [Nat.toString_eq_ofList_toDigits] using hvalue

theorem mem_newIds {first count : Nat} {id : String} (h : id ∈ newIds first count) :
    ∃ n, first ≤ n ∧ n < first + count ∧ id = newId n := by
  obtain ⟨n, hn, rfl⟩ := List.mem_map.1 h
  exact ⟨first + n, by omega, by have := List.mem_range.1 hn; omega, rfl⟩

theorem nodup_newIds (first count : Nat) : (newIds first count).Nodup := by
  refine List.Nodup.map (fun m n h => ?_) List.nodup_range
  have := newId_inj h
  omega

/-- Whether reserved ids are told apart and not spent, and all ids made so far are numbered below
`next`. -/
structure Reserved (spent : String → Prop) (next : Nat) (reserved : List String) : Prop where
  nodup : reserved.Nodup
  fresh : ∀ id ∈ reserved, ¬ spent id
  numbered : ∀ id, spent id ∨ id ∈ reserved → ∃ n < next, id = newId n

namespace Reserved

variable {spent : String → Prop} {next : Nat} {mine others : List String}

theorem of_perm {other : List String} (h : Reserved spent next mine) (hperm : other.Perm mine) :
    Reserved spent next other :=
  ⟨hperm.nodup_iff.2 h.nodup, fun id hid => h.fresh id (hperm.mem_iff.1 hid),
    fun id hid => h.numbered id (hid.imp_right hperm.mem_iff.1)⟩

/-- Ids that are given up are never used. -/
theorem drop (h : Reserved spent next (mine ++ others)) : Reserved spent next others :=
  ⟨h.nodup.of_append_right, fun id hid => h.fresh id (List.mem_append_right _ hid),
    fun id hid => h.numbered id (hid.imp_right (List.mem_append_right _))⟩

/-- New ids are reserved. -/
theorem number (h : Reserved spent next others) (count : Nat) :
    Reserved spent (next + count) (newIds next count ++ others) := by
  have hnew : ∀ id ∈ newIds next count, ¬ (spent id ∨ id ∈ others) := by
    intro id hid hknown
    obtain ⟨n, hle, -, rfl⟩ := mem_newIds hid
    obtain ⟨m, hlt, heq⟩ := h.numbered _ hknown
    have := newId_inj heq
    omega
  refine ⟨?_, ?_, ?_⟩
  · rw [List.nodup_append]
    refine ⟨nodup_newIds next count, h.nodup, ?_⟩
    rintro id hid _ hother rfl
    exact hnew id hid (.inr hother)
  · intro id hid hspent
    rcases List.mem_append.1 hid with hid | hid
    · exact hnew id hid (.inl hspent)
    · exact h.fresh id hid hspent
  · intro id hid
    have hcases : id ∈ newIds next count ∨ spent id ∨ id ∈ others := by
      rw [List.mem_append] at hid
      tauto
    rcases hcases with hid | hid
    · obtain ⟨n, -, hlt, heq⟩ := mem_newIds hid
      exact ⟨n, hlt, heq⟩
    · obtain ⟨n, hlt, heq⟩ := h.numbered id hid
      exact ⟨n, by omega, heq⟩

/-- Reserved ids are spent. -/
theorem spend (h : Reserved spent next (mine ++ others)) :
    Reserved (fun id => spent id ∨ id ∈ mine) next others := by
  obtain ⟨-, hothers, happart⟩ := List.nodup_append.1 h.nodup
  refine ⟨hothers, fun id hid hspent => ?_, fun id hid => h.numbered id ?_⟩
  · rcases hspent with hspent | hmine
    · exact h.fresh id (List.mem_append_right _ hid) hspent
    · exact happart id hmine id hid rfl
  · rw [List.mem_append]
    tauto

end Reserved

/-! ## What activities hold -/

namespace Held

/-- The ids that are reserved by what is held. -/
def ids : Held → List String
  | batch ids => ids
  | _ => []

/-- Whether copies that are held were made of sound entries. -/
def Sound (spent : String → Prop) : Held → Prop
  | seen q items => q.requested.length ≤ requestLimit ∧ Distinct spent items
  | _ => True

variable {spent : String → Prop} {h : Hub} {held held' : Held}

theorem Sound.mono {spent' : String → Prop} (hheld : held.Sound spent)
    (hle : ∀ id, spent id → spent' id) : held.Sound spent' := by
  cases held with
  | seen q items => exact ⟨hheld.1, hheld.2.mono hle⟩
  | _ => exact trivial

theorem Looks.sound {next : Nat} (hlooks : held.Looks h held') (hs : h.Sound spent next)
    (hheld : held.Sound spent) : held'.Sound spent ∧ held'.ids = held.ids := by
  cases hlooks with
  | away => exact ⟨hheld, rfl⟩
  | queue he =>
    have hsound := hs.entries _ _ he
    exact ⟨⟨hsound.few, hsound.distinct⟩, rfl⟩
  | items queueId q items =>
    refine ⟨⟨hheld.1, ?_⟩, rfl⟩
    unfold Hub.items
    cases he : h.entry? queueId with
    | none => exact .nil
    | some e => exact (hs.entries queueId e he).distinct

/-- An act keeps the hub sound, and what the others hold. -/
theorem Does.sound {a : Act} (hdoes : held.Does h a held') (o : Outside)
    (hs : h.Sound spent h.nextItem) (hheld : held.Sound spent) {others : List String}
    (hreserved : Reserved spent h.nextItem (held.ids ++ others)) :
    ∃ spent' : String → Prop, (∀ id, spent id → spent' id) ∧
      (a.apply o h).Sound spent' (a.apply o h).nextItem ∧ held'.Sound spent' ∧
      Reserved spent' (a.apply o h).nextItem (held'.ids ++ others) := by
  have hkeeps : ∀ {spent' : String → Prop} {a : Act}, h.Sound spent' h.nextItem →
      a.Sound spent' h → (a.apply o h).Sound spent' (a.apply o h).nextItem ∧
        (a.apply o h).nextItem = h.nextItem := by
    intro spent' a hs' ha
    have happly := hs'.apply o ha
    exact ⟨happly.next.symm ▸ happly, happly.next⟩
  cases hdoes with
  | other _ ha =>
    have hsound : a.Sound spent h := by
      cases a with
      | load => exact absurd trivial ha
      | count => exact absurd trivial ha
      | modify queueId change => cases change <;> first | exact trivial | exact absurd trivial ha
      | _ => exact trivial
    obtain ⟨happly, hnext⟩ := hkeeps hs hsound
    exact ⟨spent, fun _ => id, happly, hheld, hnext ▸ hreserved⟩
  | number count =>
    refine ⟨spent, fun _ => id, ⟨hs.entries, hs.store, rfl⟩, trivial, ?_⟩
    exact hreserved.number count
  | load queueId batch options =>
    have hmore : h.Sound (fun id => spent id ∨ id ∈ Jukebox.ids batch) h.nextItem :=
      hs.mono fun _ => .inl
    obtain ⟨happly, hnext⟩ := hkeeps (a := .load queueId batch options) hmore fun e he =>
      (hs.entries queueId e he).distinct.splice (hreserved.nodup.of_append_left)
        (fun id hid => hreserved.fresh id (List.mem_append_left _ hid)) _ _
    exact ⟨_, fun _ => .inl, happly, trivial, hnext ▸ hreserved.spend⟩
  | takeOver queueId targetId q items =>
    obtain ⟨happly, hnext⟩ := hkeeps (a := .modify queueId (.takeOver q targetId)) hs hheld.1
    exact ⟨spent, fun _ => id, happly, hheld, hnext ▸ hreserved⟩
  | @replace queueId q items batch hids =>
    have hbatch : Distinct spent batch := hheld.2.of_perm (hids ▸ .refl _)
    obtain ⟨happly, hnext⟩ := hkeeps (a := .load queueId batch .replacing) hs fun e _ =>
      hbatch.splice_replacing _ _
    exact ⟨spent, fun _ => id, happly, trivial, hnext ▸ hreserved⟩

end Held

/-! ## Sessions -/

namespace Session

/-- Whether a hub is sound with what the activities of its session hold. -/
structure Sound (spent : String → Prop) (holders : List (Activity × Held)) (s : Session) :
    Prop where
  hub : s.hub.Sound spent s.hub.nextItem
  active : s.active = holders.map (·.1)
  goes : ∀ x ∈ holders, x.1.program.Brings x.2 none
  held : ∀ x ∈ holders, x.2.Sound spent
  reserved : Reserved spent s.hub.nextItem (holders.flatMap (·.2.ids))

namespace Sound

variable {spent : String → Prop} {holders : List (Activity × Held)} {s : Session}

/-- What happens to a hub apart from its activities. -/
theorem act (hs : s.Sound spent holders) (o : Outside) {a : Act} (ha : a.Sound spent s.hub) :
    Sound spent holders { s with hub := a.apply o s.hub } := by
  have happly := hs.hub.apply o ha
  exact ⟨happly.next.symm ▸ happly, hs.active, hs.goes, hs.held, happly.next.symm ▸ hs.reserved⟩

theorem append (hs : s.Sound spent holders) {a : Activity} (ha : a.program.Brings .nothing none) :
    Sound spent (holders ++ [(a, .nothing)]) { s with active := s.active ++ [a] } := by
  refine ⟨hs.hub, ?_, fun x hx => ?_, fun x hx => ?_, ?_⟩
  · simp [hs.active]
  · rcases List.mem_append.1 hx with hx | hx
    · exact hs.goes x hx
    · cases List.mem_singleton.1 hx
      exact ha
  · rcases List.mem_append.1 hx with hx | hx
    · exact hs.held x hx
    · cases List.mem_singleton.1 hx
      exact trivial
  · simpa [Held.ids] using hs.reserved

/-- What one activity holds and what the others hold. -/
theorem reserved_eraseIdx (hs : s.Sound spent holders) {index : Nat} {x : Activity × Held}
    (hx : holders[index]? = some x) :
    Reserved spent s.hub.nextItem (x.2.ids ++ (holders.eraseIdx index).flatMap (·.2.ids)) := by
  obtain ⟨hlt, rfl⟩ := List.getElem?_eq_some_iff.1 hx
  have hperm := (List.getElem_cons_eraseIdx_perm hlt).flatMap_right fun x => x.2.ids
  exact hs.reserved.of_perm hperm

/-- By one stop an activity changes the hub and what it holds itself, and not what the others
hold. -/
theorem advance (hs : s.Sound spent holders) (o : Outside) (answers : Answers) {index : Nat}
    {a : Activity} {held : Held} (ha : holders[index]? = some (a, held)) :
    ∃ spent' held', (∀ id, spent id → spent' id) ∧
      (a.program.advance o answers s.hub).1.Brings held' none ∧
      (a.program.advance o answers s.hub).2.Sound spent'
        (a.program.advance o answers s.hub).2.nextItem ∧
      held'.Sound spent' ∧
      Reserved spent' (a.program.advance o answers s.hub).2.nextItem
        (held'.ids ++ (holders.eraseIdx index).flatMap (·.2.ids)) := by
  have hmem := List.mem_of_getElem? ha
  obtain ⟨held₁, held₂, hlooks, hgoes, hhub⟩ := (hs.goes _ hmem).advance o answers s.hub
  obtain ⟨hheld, hids⟩ := hlooks.sound hs.hub (hs.held _ hmem)
  have hreserved := hs.reserved_eraseIdx ha
  rw [← hids] at hreserved
  rcases hhub with ⟨rfl, hsame⟩ | ⟨act, hdoes, heq⟩
  · rw [hsame]
    exact ⟨spent, held₂, fun _ => id, hgoes, hs.hub, hheld, hreserved⟩
  · rw [heq]
    obtain ⟨spent', hle, hhub, hheld', hreserved'⟩ := hdoes.sound o hs.hub hheld hreserved
    exact ⟨spent', held₂, hle, hgoes, hhub, hheld', hreserved'⟩

theorem proceed (hs : s.Sound spent holders) (o : Outside) (index : Nat) (answers : Answers) :
    ∃ spent' holders', Sound spent' holders' (s.step o (.proceed index answers)) := by
  simp only [Session.step]
  cases ha : s.active[index]? with
  | none => exact ⟨spent, holders, hs⟩
  | some a =>
    rw [hs.active, List.getElem?_map] at ha
    obtain ⟨⟨a, held⟩, hholder, rfl⟩ := Option.map_eq_some_iff.1 ha
    obtain ⟨spent', held', hle, hgoes, hhub, hheld, hreserved⟩ := hs.advance o answers hholder
    have hlt := (List.getElem?_eq_some_iff.1 hholder).1
    have hothers : ∀ x ∈ holders.eraseIdx index,
        x.1.program.Brings x.2 none ∧ x.2.Sound spent' := by
      intro x hx
      have hmem := List.mem_of_mem_eraseIdx hx
      exact ⟨hs.goes x hmem, (hs.held x hmem).mono hle⟩
    dsimp only
    unfold replace
    split
    · refine ⟨spent', holders.eraseIdx index, hhub, ?_, fun x hx => (hothers x hx).1,
        fun x hx => (hothers x hx).2, hreserved.drop⟩
      rw [hs.active, List.eraseIdx_map]
    · have hperm := List.set_perm_cons_eraseIdx hlt
        (({ a with program := (a.program.advance o answers s.hub).1 } : Activity), held')
      refine ⟨spent', holders.set index
        ({ a with program := (a.program.advance o answers s.hub).1 }, held'), hhub, ?_,
        fun x hx => ?_, fun x hx => ?_,
        hreserved.of_perm (hperm.flatMap_right fun x => x.2.ids)⟩
      · rw [hs.active, List.map_set]
      · rcases List.mem_cons.1 (hperm.mem_iff.1 hx) with rfl | hx
        · exact hgoes
        · exact (hothers x hx).1
      · rcases List.mem_cons.1 (hperm.mem_iff.1 hx) with rfl | hx
        · exact hheld
        · exact (hothers x hx).2

theorem step (hs : s.Sound spent holders) (o : Outside) (move : Move) :
    ∃ spent' holders', Sound spent' holders' (s.step o move) := by
  cases move with
  | report r => exact ⟨spent, holders, hs.act o (a := .report r) trivial⟩
  | register r => exact ⟨spent, holders, hs.act o (a := .register r) trivial⟩
  | remove playerId => exact ⟨spent, holders, hs.act o (a := .remove playerId) trivial⟩
  | ask request => exact ⟨spent, _, hs.append (a := ⟨none, _⟩) request.command_brings⟩
  | start number =>
    simp only [Session.step]
    cases s.waiting? number with
    | none => exact ⟨spent, holders, hs⟩
    | some w =>
      have hbegun := hs.act o (a := .begin number) trivial
      exact ⟨spent, _, hbegun.append (a := ⟨some w.job, _⟩) w.job.command_brings⟩
  | proceed index answers => exact hs.proceed o index answers

theorem run (hs : s.Sound spent holders) (moves : List (Outside × Move)) :
    ∃ spent' holders', Sound spent' holders' (s.run moves) := by
  induction moves generalizing s spent holders with
  | nil => exact ⟨spent, holders, hs⟩
  | cons m more ih =>
    obtain ⟨spent', holders', hnext⟩ := hs.step m.1 m.2
    exact ih hnext

/-- With nothing stored, no id is spent at the start. -/
theorem start (config : Config) (draws : Draws) (nextItem : Nat) :
    Sound (fun _ => False) [] (Session.start config {} draws nextItem) := by
  have hstore : Store.Sound (fun _ => False) {} :=
    ⟨fun _ _ _ hget => (nomatch hget), fun _ _ _ hget => (nomatch hget)⟩
  refine ⟨⟨fun _ _ he => (nomatch he), hstore, rfl⟩, rfl, fun _ hx => (nomatch hx),
    fun _ hx => (nomatch hx), ⟨List.nodup_nil, fun _ hid => (nomatch hid), ?_⟩⟩
  rintro id (hspent | hid)
  · exact hspent.elim
  · cases hid

end Sound

end Session

/-! ## Whole runs -/

/-- Whether a queue counts its items, tells them apart by their ids, owns all of them, and remembers
no more than ten requests. -/
structure Entry.WellFormed (e : Entry) : Prop where
  counted : e.queue.itemCount = e.items.length
  apart : e.items.Pairwise fun i j => i.id ≠ j.id
  owned : ∀ i ∈ e.items, i.queueId = e.queue.id
  few : e.queue.requested.length ≤ 10

/-- In every state of a session that began with nothing stored, every queue is well-formed,
whatever is asked, answered and reported meanwhile, and whatever fails. -/
theorem Session.wellFormed_run (config : Config) (draws : Draws) (nextItem : Nat)
    (moves : List (Outside × Move)) :
    ((start config {} draws nextItem).run moves).hub.All fun queueId e =>
      e.queue.id = queueId ∧ e.WellFormed := by
  intro queueId e he
  obtain ⟨spent, holders, hs⟩ := (Sound.start config draws nextItem).run moves
  obtain ⟨hid, howned⟩ := belongsTo_run config {} draws nextItem moves queueId e he
  have hsound := hs.hub.entries queueId e he
  refine ⟨hid, hsound.counted, List.pairwise_map.1 hsound.distinct.nodup, fun i hi => ?_,
    hsound.few⟩
  rw [howned i hi, hid]

end Jukebox
