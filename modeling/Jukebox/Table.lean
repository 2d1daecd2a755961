/-!
# Tables

Values under names, kept in the order of the names. The view of a table is `get?`: each operation
is described by what it does to it.
-/

namespace Jukebox

structure Table (α : Type) where
  entries : List (String × α) := []
  deriving Repr, Inhabited

namespace Table

variable {α : Type}

def empty : Table α := {}

/-- The value under a name. -/
def get? (t : Table α) (name : String) : Option α :=
  (t.entries.find? fun e => e.1 = name).map (·.2)

def contains (t : Table α) (name : String) : Bool := (t.get? name).isSome

/-- The entries with one put in front of the first greater name, in place of one of its own. -/
def insertSorted (name : String) (value : α) : List (String × α) → List (String × α)
  | [] => [(name, value)]
  | e :: more =>
    if e.1 = name then (name, value) :: more
    else if name < e.1 then (name, value) :: e :: more
    else e :: insertSorted name value more

def insert (t : Table α) (name : String) (value : α) : Table α :=
  ⟨insertSorted name value t.entries⟩

def erase (t : Table α) (name : String) : Table α := ⟨t.entries.filter fun e => e.1 ≠ name⟩

def names (t : Table α) : List String := t.entries.map (·.1)

def values (t : Table α) : List α := t.entries.map (·.2)

def ofList (entries : List (String × α)) : Table α :=
  entries.foldl (fun t e => t.insert e.1 e.2) empty

@[simp] theorem get?_empty (name : String) : (empty : Table α).get? name = none := rfl

theorem find?_insertSorted_self (name : String) (value : α) (entries : List (String × α)) :
    (insertSorted name value entries).find? (fun e => e.1 = name) = some (name, value) := by
  induction entries with
  | nil => simp [insertSorted]
  | cons e more ih =>
    unfold insertSorted
    split
    · simp
    · next hne =>
      split
      · simp
      · rw [List.find?_cons_of_neg (by simpa using hne)]
        exact ih

theorem find?_insertSorted_of_ne {name other : String} (h : other ≠ name) (value : α)
    (entries : List (String × α)) :
    (insertSorted name value entries).find? (fun e => e.1 = other) =
      entries.find? fun e => e.1 = other := by
  induction entries with
  | nil => simp [insertSorted, Ne.symm h]
  | cons e more ih =>
    unfold insertSorted
    split
    · next heq => simp [heq, Ne.symm h]
    · split
      · rw [List.find?_cons_of_neg (by simpa using Ne.symm h)]
      · by_cases he : e.1 = other
        · simp [he]
        · rw [List.find?_cons_of_neg (by simpa using he),
            List.find?_cons_of_neg (by simpa using he), ih]

@[simp] theorem get?_insert_self (t : Table α) (name : String) (value : α) :
    (t.insert name value).get? name = some value := by
  simp [get?, insert, find?_insertSorted_self]

@[simp] theorem get?_insert_of_ne (t : Table α) {name other : String} (h : other ≠ name)
    (value : α) : (t.insert name value).get? other = t.get? other := by
  simp [get?, insert, find?_insertSorted_of_ne h]

@[simp] theorem get?_erase_self (t : Table α) (name : String) :
    (t.erase name).get? name = none := by
  simp [get?, erase, List.find?_filter]

@[simp] theorem get?_erase_of_ne (t : Table α) {name other : String} (h : other ≠ name) :
    (t.erase name).get? other = t.get? other := by
  have hp : (fun e : String × α =>
      decide (decide (e.1 ≠ name) = true ∧ decide (e.1 = other) = true)) =
      fun e => decide (e.1 = other) := by
    funext e
    by_cases he : e.1 = other
    · simp [he, h]
    · simp [he]
  simp only [get?, erase, List.find?_filter]
  rw [hp]

theorem get?_insert (t : Table α) (name other : String) (value : α) :
    (t.insert name value).get? other = if other = name then some value else t.get? other := by
  by_cases h : other = name
  · rw [if_pos h, h, get?_insert_self]
  · rw [if_neg h, get?_insert_of_ne t h]

theorem get?_erase (t : Table α) (name other : String) :
    (t.erase name).get? other = if other = name then none else t.get? other := by
  by_cases h : other = name
  · rw [if_pos h, h, get?_erase_self]
  · rw [if_neg h, get?_erase_of_ne t h]

theorem mem_names (t : Table α) (name : String) : name ∈ t.names ↔ t.contains name := by
  simp [names, contains, get?]

/-! ## Tables in order -/

/-- Whether the entries are in the order of their names, each name once. -/
def Sorted (t : Table α) : Prop := t.entries.Pairwise fun d e => d.1 < e.1

variable {t : Table α} {name : String} {value : α}

theorem sorted_empty : (empty : Table α).Sorted := .nil

theorem mem_insertSorted {entries : List (String × α)} {e : String × α}
    (he : e ∈ insertSorted name value entries) : e = (name, value) ∨ e ∈ entries := by
  induction entries with
  | nil => exact .inl (List.mem_singleton.1 he)
  | cons d more ih =>
    unfold insertSorted at he
    split at he
    · exact (List.mem_cons.1 he).imp_right (List.mem_cons_of_mem d)
    · split at he
      · exact List.mem_cons.1 he
      · rcases List.mem_cons.1 he with rfl | he
        · exact .inr List.mem_cons_self
        · exact (ih he).imp_right (List.mem_cons_of_mem d)

theorem sorted_insertSorted {entries : List (String × α)}
    (hsorted : entries.Pairwise fun d e => d.1 < e.1) :
    (insertSorted name value entries).Pairwise fun d e => d.1 < e.1 := by
  induction entries with
  | nil => exact List.pairwise_singleton _ _
  | cons e more ih =>
    obtain ⟨hfirst, hmore⟩ := List.pairwise_cons.1 hsorted
    unfold insertSorted
    split
    · next heq => exact List.pairwise_cons.2 ⟨by simpa [← heq] using hfirst, hmore⟩
    · next hne =>
      split
      · next hlt =>
        refine List.pairwise_cons.2 ⟨fun d hd => ?_, hsorted⟩
        rcases List.mem_cons.1 hd with rfl | hd
        · exact hlt
        · exact String.lt_trans hlt (hfirst d hd)
      · next hle =>
        refine List.pairwise_cons.2 ⟨fun d hd => ?_, ih hmore⟩
        rcases mem_insertSorted hd with rfl | hd
        · exact Std.lt_of_le_of_ne (String.not_lt.1 hle) hne
        · exact hfirst d hd

theorem Sorted.insert (ht : t.Sorted) (name : String) (value : α) : (t.insert name value).Sorted :=
  sorted_insertSorted ht

theorem Sorted.erase (ht : t.Sorted) (name : String) : (t.erase name).Sorted :=
  List.Pairwise.filter _ ht

theorem Sorted.nodup_names (ht : t.Sorted) : t.names.Nodup := by
  refine List.pairwise_map.2 (List.Pairwise.imp ?_ ht)
  intro d e hlt heq
  rw [heq] at hlt
  exact String.lt_irrefl e.1 hlt

/-- A value goes in front of entries with greater names only. -/
theorem insertSorted_of_lt {entries : List (String × α)} (hfirst : ∀ e ∈ entries, name < e.1) :
    insertSorted name value entries = (name, value) :: entries := by
  cases entries with
  | nil => rfl
  | cons e more =>
    have hlt := hfirst e List.mem_cons_self
    have hne : e.1 ≠ name := fun heq => String.lt_irrefl name (heq ▸ hlt)
    rw [insertSorted, if_neg hne, if_pos hlt]

theorem filter_ne_of_lt {entries : List (String × α)} (hfirst : ∀ e ∈ entries, name < e.1) :
    entries.filter (fun e => e.1 ≠ name) = entries := by
  refine List.filter_eq_self.2 fun e he => decide_eq_true fun heq => ?_
  exact String.lt_irrefl name (heq ▸ hfirst e he)

theorem insertSorted_filter {entries : List (String × α)}
    (hsorted : entries.Pairwise fun d e => d.1 < e.1) :
    insertSorted name value (entries.filter fun e => e.1 ≠ name) =
      insertSorted name value entries := by
  induction entries with
  | nil => rfl
  | cons e more ih =>
    obtain ⟨hfirst, hmore⟩ := List.pairwise_cons.1 hsorted
    by_cases hsame : e.1 = name
    · have hlt : ∀ d ∈ more, name < d.1 := fun d hd => hsame ▸ hfirst d hd
      rw [List.filter_cons_of_neg (by simpa using hsame), filter_ne_of_lt hlt,
        insertSorted_of_lt hlt, insertSorted, if_pos hsame]
    · rw [List.filter_cons_of_pos (by simpa using hsame)]
      by_cases hbefore : name < e.1
      · have hlt : ∀ d ∈ more, name < d.1 := fun d hd => String.lt_trans hbefore (hfirst d hd)
        rw [filter_ne_of_lt hlt]
      · rw [insertSorted, if_neg hsame, if_neg hbefore, ih hmore, insertSorted, if_neg hsame,
          if_neg hbefore]

/-- A value that replaces another one goes where that one was. -/
theorem insert_erase (ht : t.Sorted) : (t.erase name).insert name value = t.insert name value :=
  congrArg mk (insertSorted_filter ht)

/-- In a table in order each entry is found under its name. -/
theorem Sorted.get?_eq_some_iff (ht : t.Sorted) :
    t.get? name = some value ↔ (name, value) ∈ t.entries := by
  unfold get?
  refine ⟨fun h => ?_, fun h => ?_⟩
  · obtain ⟨e, he, rfl⟩ := Option.map_eq_some_iff.1 h
    have hname : e.1 = name := by simpa using List.find?_some he
    exact hname ▸ List.mem_of_find?_eq_some he
  · obtain ⟨before, after, heq⟩ := List.append_of_mem h
    rw [Sorted, heq] at ht
    have hbefore := (List.pairwise_append.1 ht).2.2
    have hnone : before.find? (fun e => e.1 = name) = none := by
      refine List.find?_eq_none.2 fun e he => ?_
      have hlt : e.1 < name := hbefore e he (name, value) List.mem_cons_self
      have hne : e.1 ≠ name := fun hname => String.lt_irrefl name (hname ▸ hlt)
      simpa using hne
    rw [heq, List.find?_append, hnone]
    simp

end Table

end Jukebox
