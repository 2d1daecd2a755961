import Jukebox.Hub.Registry
import Jukebox.Proofs.Ids
import Jukebox.Proofs.Reading

/-!
# Snapshots

What can be told of a queue that was stored and is restored: a list that reads back has the ids of
the list that was written (`Hub.ids_of_parse?`) and its owner (`Hub.ownedBy_of_parse?`), and a queue
has its id (`Hub.id_of_parse?`) and remembers as many requests (`Hub.length_requested_of_parse?`). A
store is therefore as sound as all that was written into it (`Store.Sound.write`).
-/

namespace Jukebox

/-! ## Records that read back -/

namespace Json

theorem named_alike {as bs : List (String × Json)} (hnames : as.map (·.1) = bs.map (·.1))
    (hvalues : List.Forall₂ Alike (as.map (·.2)) (bs.map (·.2))) (name : String) :
    List.Forall₂ Alike (named name as) (named name bs) := by
  induction as generalizing bs with
  | nil =>
    cases bs with
    | nil => exact .nil
    | cons b bs => cases hnames
  | cons a as ih =>
    cases bs with
    | nil => cases hnames
    | cons b bs =>
      obtain ⟨hname, hnames⟩ := List.cons.inj hnames
      obtain ⟨hvalue, hvalues⟩ := List.forall₂_cons.1 hvalues
      have hmore := ih hnames hvalues
      by_cases ha : a.1 = name
      · have hb : b.1 = name := hname.symm.trans ha
        simpa [named, ha, hb] using ⟨hvalue, hmore⟩
      · have hb : b.1 ≠ name := fun hb => ha (hname.trans hb)
        simpa [named, ha, hb] using hmore

theorem getElem?_partsNamed {fields : List (String × Json)} {names : List String}
    {ps : List Part} (h : partsNamed fields names = some ps) {n : Nat} {name : String}
    (hname : names[n]? = some name) : ∃ p, ps[n]? = some p ∧ partNamed fields name = some p := by
  induction names generalizing ps n with
  | nil => cases hname
  | cons first more ih =>
    unfold partsNamed at h
    split at h
    · next p rest hp hrest =>
      cases h
      cases n with
      | zero =>
        cases hname
        exact ⟨p, rfl, hp⟩
      | succ n => exact ih hrest hname
    · cases h

/-- A part that was written as one value is read as a value like it. -/
theorem getElem?_parts {fields : List (String × Json)} {j : Json} (hj : Alike (.object fields) j)
    {names : List String} {ps : List Part} (hparts : parts names j = some ps) {n : Nat}
    {name : String} (hname : names[n]? = some name) {value : Json}
    (hvalue : named name fields = [value]) :
    ∃ value', ps[n]? = some (.given value') ∧ Alike value value' := by
  cases hj with
  | plain ha => cases ha
  | object hnames hvalues =>
    obtain ⟨p, hp, hpart⟩ := getElem?_partsNamed hparts hname
    have halike := named_alike hnames hvalues name
    rw [hvalue] at halike
    obtain ⟨value', rest, hvalue', hrest, heq⟩ := List.forall₂_cons_left_iff.1 halike
    cases hrest
    unfold partNamed at hpart
    rw [heq] at hpart
    cases hpart
    exact ⟨value', hp, hvalue'⟩

theorem forall₂_decodeAll {α : Type} [Coded α] {js : List Json} {as : List α}
    (h : decodeAll js = some as) : List.Forall₂ (fun j a => decode j = some a) js as := by
  induction js generalizing as with
  | nil =>
    cases h
    exact .nil
  | cons j js ih =>
    unfold decodeAll at h
    split at h
    · next a rest ha hrest =>
      cases h
      exact .cons ha (ih hrest)
    · cases h

end Json

open Json

theorem QueueItem.ids_of_alike {i i' : QueueItem} {j : Json} (hj : Alike (encode i) j)
    (hi : decode j = some i') : i'.id = i.id ∧ i'.queueId = i.queueId := by
  obtain ⟨ps, hparts, hi⟩ := Option.bind_eq_some_iff.1 hi
  -- the id and the owner are the first two of the parts
  obtain ⟨first, hfirst, hlike⟩ := getElem?_parts hj hparts (n := 0) rfl rfl
  obtain ⟨second, hsecond, hlike'⟩ := getElem?_parts hj hparts (n := 1) rfl rfl
  cases hlike.eq_text
  cases hlike'.eq_text
  split at hi
  · obtain ⟨id, hid, hi⟩ := Option.bind_eq_some_iff.1 hi
    obtain ⟨queueId, hqueueId, hi⟩ := Option.bind_eq_some_iff.1 hi
    iterate 8 obtain ⟨_, -, hi⟩ := Option.bind_eq_some_iff.1 hi
    cases hi
    cases hfirst
    cases hsecond
    cases hid
    cases hqueueId
    exact ⟨rfl, rfl⟩
  · cases hi

theorem Queue.id_of_alike {q q' : Queue} {j : Json} (hj : Alike (encode q) j)
    (hq : decode j = some q') : q'.id = q.id := by
  obtain ⟨ps, hparts, hq⟩ := Option.bind_eq_some_iff.1 hq
  obtain ⟨value, hvalue, hlike⟩ := getElem?_parts hj hparts (n := 0) rfl rfl
  cases hlike.eq_text
  split at hq
  · obtain ⟨id, hid, hq⟩ := Option.bind_eq_some_iff.1 hq
    iterate 20 obtain ⟨_, -, hq⟩ := Option.bind_eq_some_iff.1 hq
    cases hq
    cases hvalue
    cases hid
    rfl
  · cases hq

theorem Queue.length_requested_of_alike {q q' : Queue} {j : Json} (hj : Alike (encode q) j)
    (hq : decode j = some q') : q'.requested.length = q.requested.length := by
  obtain ⟨ps, hparts, hq⟩ := Option.bind_eq_some_iff.1 hq
  -- the requests are the third of the parts from the end
  obtain ⟨value, hvalue, hlike⟩ := getElem?_parts hj hparts (n := 18) rfl rfl
  obtain ⟨js, rfl, hjs⟩ := hlike.eq_list
  split at hq
  · iterate 18 obtain ⟨_, -, hq⟩ := Option.bind_eq_some_iff.1 hq
    obtain ⟨requested, hrequested, hq⟩ := Option.bind_eq_some_iff.1 hq
    iterate 2 obtain ⟨_, -, hq⟩ := Option.bind_eq_some_iff.1 hq
    cases hq
    cases hvalue
    rw [← (forall₂_decodeAll hrequested).length_eq, ← hjs.length_eq, List.length_map]
  · cases hq

namespace Hub

/-- A list that reads back has, item by item, the ids and the owners of the list that was
written. -/
theorem forall₂_of_parse? {items items' : List QueueItem}
    (hparse : parse? (encode items).toText = some items') :
    List.Forall₂ (fun i i' => i'.id = i.id ∧ i'.queueId = i.queueId) items items' := by
  obtain ⟨j, hread, hdecode⟩ := Option.bind_eq_some_iff.1 hparse
  obtain ⟨js, rfl, hjs⟩ := (alike_of_read hread).eq_list
  have hall := forall₂_decodeAll hdecode
  clear hparse hread hdecode
  induction items generalizing js items' with
  | nil =>
    cases hjs
    cases hall
    exact .nil
  | cons i items ih =>
    obtain ⟨j, rest, hj, hrest, rfl⟩ := List.forall₂_cons_left_iff.1 hjs
    obtain ⟨i', items', hi', hitems', rfl⟩ := List.forall₂_cons_left_iff.1 hall
    exact .cons (QueueItem.ids_of_alike hj hi') (ih rest hrest hitems')

theorem ids_of_parse? {items items' : List QueueItem}
    (hparse : parse? (encode items).toText = some items') : ids items' = ids items := by
  have hsame := forall₂_of_parse? hparse
  clear hparse
  induction hsame with
  | nil => rfl
  | cons hi _ ih => exact congrArg₂ List.cons hi.1 ih

theorem ownedBy_of_parse? {queueId : String} {items items' : List QueueItem}
    (hparse : parse? (encode items).toText = some items') (howned : OwnedBy queueId items) :
    OwnedBy queueId items' := by
  have hsame := forall₂_of_parse? hparse
  clear hparse
  induction hsame with
  | nil => exact howned
  | cons hi _ ih =>
    obtain ⟨hfirst, hmore⟩ := List.forall_mem_cons.1 howned
    exact List.forall_mem_cons.2 ⟨hi.2.trans hfirst, ih hmore⟩

theorem id_of_parse? {q q' : Queue} (hparse : parse? (encode q).toText = some q') :
    q'.id = q.id := by
  obtain ⟨j, hread, hdecode⟩ := Option.bind_eq_some_iff.1 hparse
  exact Queue.id_of_alike (alike_of_read hread) hdecode

theorem length_requested_of_parse? {q q' : Queue} (hparse : parse? (encode q).toText = some q') :
    q'.requested.length = q.requested.length := by
  obtain ⟨j, hread, hdecode⟩ := Option.bind_eq_some_iff.1 hparse
  exact Queue.length_requested_of_alike (alike_of_read hread) hdecode

end Hub

end Jukebox
