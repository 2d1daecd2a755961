import Jukebox.Proofs.Coding
import Mathlib.Tactic.MkIffOfInductiveProp

/-!
# What comes back from a JSON value

`Json.held` is a value as it is held: the fields of an object have no order of their own, so they
are kept in the order of their names, and a float that is no number is null. All else is as it was
encoded. So the value of a media item, of the details of a stream, of an entry of a log, of a queue
item and of what a player tells or is handed gives the same back exactly when all floats in it are
numbers, and then nothing else has that value. A queue comes back without its claim of a preload
(`values_lose_nothing`).
-/

namespace Jukebox

/-- Whether a float is a number: neither infinite nor undefined. -/
def Number.IsNumber (x : Float) : Prop :=
  ∃ negative significand exponent, Binary.ofFloat x = .finite negative significand exponent

open Number (IsNumber)

instance (x : Float) : Decidable (IsNumber x) :=
  match hx : Number.Binary.ofFloat x with
  | .finite _ _ _ => isTrue ⟨_, _, _, hx⟩
  | .infinite _ => isFalse fun ⟨_, _, _, hfinite⟩ => nomatch hx.symm.trans hfinite
  | .nan => isFalse fun ⟨_, _, _, hfinite⟩ => nomatch hx.symm.trans hfinite

example : IsNumber 61.25 ∧ ¬IsNumber (1 / 0) ∧ ¬IsNumber (0 / 0) := by decide +kernel

namespace Json

/-! ## Values as they are held -/

/-- A float, or null in the place of one that is no number. -/
def heldFloat (x : Float) : Json :=
  match Number.Binary.ofFloat x with
  | .finite .. => .float x
  | _ => .null

/-- Fields in the order of their names. -/
def byName (fields : List (String × Json)) : List (String × Json) :=
  fields.mergeSort fun a b => a.1 ≤ b.1

mutual

/-- A value as it is held: with null for a float that is no number, and with the fields of every
object in the order of their names. -/
def held : Json → Json
  | .float x => heldFloat x
  | .list elements => .list (heldElements elements)
  | .object fields => .object (byName (heldFields fields))
  | j => j

def heldElements : List Json → List Json
  | [] => []
  | j :: more => held j :: heldElements more

def heldFields : List (String × Json) → List (String × Json)
  | [] => []
  | (name, j) :: more => (name, held j) :: heldFields more

end

theorem heldFields_eq (fields : List (String × Json)) :
    heldFields fields = fields.map fun field => (field.1, held field.2) := by
  induction fields with
  | nil => rfl
  | cons field fields ih => rw [heldFields, ih, List.map_cons]

theorem byName_perm (fields : List (String × Json)) : (byName fields).Perm fields :=
  List.mergeSort_perm ..

theorem heldFloat_of_isNumber {x : Float} (hx : IsNumber x) : heldFloat x = .float x := by
  obtain ⟨negative, significand, exponent, hx⟩ := hx
  rw [heldFloat, hx]

theorem heldFloat_of_not_isNumber {x : Float} (hx : ¬IsNumber x) : heldFloat x = .null := by
  unfold heldFloat
  split
  · next heq => exact absurd ⟨_, _, _, heq⟩ hx
  · rfl

/-- A float is written as it is held. -/
theorem toText_heldFloat (x : Float) : (heldFloat x).toText = (Json.float x).toText := by
  by_cases hx : IsNumber x
  · rw [heldFloat_of_isNumber hx]
  · have htext : floatText x = ['n', 'u', 'l', 'l'] := by
      unfold floatText
      split
      · next heq => exact absurd ⟨_, _, _, heq⟩ hx
      · rfl
    rw [heldFloat_of_not_isNumber hx, toText, toText, write, write, htext]
    rfl

/-! ## Records -/

section

variable {α : Type} {names : List String} {fields arranged : List (String × Json)}
  {f : List Part → Option α} {a : α} {fine : Prop}

/-- A record is decoded from its fields in any order. -/
theorem decode_arranged_iff (harranged : arranged.Perm (heldFields fields))
    (hnames : fields.map (·.1) = names) (hdistinct : names.Nodup)
    (hf : f (fields.map fun field => .given (held field.2)) = some a ↔ fine) :
    (parts names (.object arranged)).bind f = some a ↔ fine := by
  have hheld : (heldFields fields).map (·.1) = names := by
    rw [heldFields_eq, List.map_map, ← hnames]
    rfl
  have harrangedNames : (arranged.map (·.1)).Nodup := by
    rw [(harranged.map (·.1)).nodup_iff, hheld]
    exact hdistinct
  have hparts : parts names (.object arranged) =
      some (fields.map fun field => .given (held field.2)) := by
    rw [← hheld, parts, partsIn, partsNamed_of_subset harrangedNames harranged.symm.subset,
      heldFields_eq, List.map_map]
    rfl
  rw [hparts]
  exact hf

theorem decode_held_record_iff (hnames : fields.map (·.1) = names) (hdistinct : names.Nodup)
    (hf : f (fields.map fun field => .given (held field.2)) = some a ↔ fine) :
    (parts names (held (.object fields))).bind f = some a ↔ fine := by
  rw [held]
  exact decode_arranged_iff (byName_perm _) hnames hdistinct hf

theorem decode_held_record (hnames : fields.map (·.1) = names) (hdistinct : names.Nodup)
    (hf : f (fields.map fun field => .given (held field.2)) = some a) :
    (parts names (held (.object fields))).bind f = some a :=
  (decode_held_record_iff hnames hdistinct (iff_of_true hf trivial)).2 trivial

end

section

variable {α : Type} [Coded α]

-- These three are not proved by `rfl`, which would let the kernel compare values instead of parts.
@[simp]
theorem required_given (j : Json) : (Part.given j).required = (decode j : Option α) := by
  rw [Part.required]

@[simp]
theorem optional_given (j : Json) :
    (Part.given j).optional = (decode j : Option (Option α)) := by
  rw [Part.optional]

@[simp]
theorem orElse_given (j : Json) (default : α) :
    (Part.given j).orElse default = (decode j : Option α) := by
  rw [Part.orElse]

end

/-! ## Types without floats -/

/-- The types that null is no value of. -/
class RefusesNull (α : Type) [Coded α] : Prop where
  decode_null : (decode .null : Option α) = none

export RefusesNull (decode_null)

/-- The types of which everything comes back from its value. -/
class Kept (α : Type) [Coded α] : Prop where
  decode_held : ∀ a : α, decode (held (encode a)) = some a

export Kept (decode_held)

attribute [simp] decode_held

instance : RefusesNull String := ⟨rfl⟩

instance : RefusesNull Float := ⟨rfl⟩

instance : RefusesNull Nat := ⟨rfl⟩

instance : RefusesNull UInt32 := ⟨rfl⟩

instance : RefusesNull UInt64 := ⟨rfl⟩

instance : Kept String := ⟨decode_encode⟩

instance : Kept Bool := ⟨decode_encode⟩

instance : Kept Nat := ⟨decode_encode⟩

instance : Kept UInt32 := ⟨decode_encode⟩

instance : Kept UInt64 := ⟨decode_encode⟩

section

variable {α : Type} [Coded α] {Fine : α → Prop}

theorem decode_of_ne_null {j : Json} (hj : j ≠ .null) :
    (decode j : Option (Option α)) = (decode j).map some := by
  cases j with
  | null => exact absurd rfl hj
  | _ => rfl

theorem decode_held_option_iff [RefusesNull α]
    (hfine : ∀ a : α, decode (held (encode a)) = some a ↔ Fine a) (o : Option α) :
    decode (held (encode o)) = some o ↔ ∀ a ∈ o, Fine a := by
  cases o with
  | none => exact iff_of_true rfl (fun _ h => nomatch h)
  | some a =>
    have hsome : (∀ b ∈ some a, Fine b) ↔ Fine a := by simp
    have hvalue : (encode (some a) : Json) = encode a := rfl
    rw [hsome, ← hfine, hvalue]
    by_cases hj : held (encode a) = .null
    · have hnull : (decode .null : Option α) = none := decode_null
      rw [hj, hnull]
      exact iff_of_false (fun h => nomatch h) (fun h => nomatch h)
    · rw [decode_of_ne_null hj]
      simp

instance [RefusesNull α] [Kept α] : Kept (Option α) where
  decode_held o := by
    have hfine : ∀ a : α, decode (held (encode a)) = some a ↔ True := by simp
    exact (decode_held_option_iff hfine o).2 fun _ _ => trivial

theorem decode_held_list_iff (hfine : ∀ a : α, decode (held (encode a)) = some a ↔ Fine a)
    (as : List α) : decode (held (encode as)) = some as ↔ ∀ a ∈ as, Fine a := by
  change decodeAll (heldElements (as.map encode)) = some as ↔ _
  induction as with
  | nil => exact iff_of_true rfl (fun _ h => nomatch h)
  | cons a as ih =>
    rw [List.forall_mem_cons, ← hfine, ← ih, List.map_cons, heldElements, decodeAll]
    rcases hfirst : (decode (held (encode a)) : Option α) with _ | b <;>
      rcases hmore : (decodeAll (heldElements (as.map encode)) : Option (List α)) with _ | bs <;>
        simp

end

end Json

open Json

instance : RefusesNull MediaType := ⟨rfl⟩

instance : Kept MediaType := ⟨decode_encode⟩

instance : RefusesNull PlayerState := ⟨rfl⟩

instance : Kept PlayerState := ⟨decode_encode⟩

instance : Kept RepeatMode := ⟨decode_encode⟩

instance : RefusesNull ItemRef := ⟨rfl⟩

instance : Kept ItemRef where
  decode_held r := by
    refine decode_held_record rfl (by decide) ?_
    simp

instance : RefusesNull StreamDetails := ⟨rfl⟩

instance : Kept StreamDetails where
  decode_held d := by
    refine decode_held_record rfl (by decide) ?_
    simp

instance : RefusesNull CurrentMedia := ⟨rfl⟩

instance : Kept CurrentMedia where
  decode_held m := by
    refine decode_held_record rfl (by decide) ?_
    simp

instance : Kept PlayerMedia where
  decode_held m := by
    refine decode_held_record rfl (by decide) ?_
    simp

/-! ## Types with floats -/

theorem Json.decode_held_float_iff (x : Float) :
    decode (held (encode x)) = some x ↔ IsNumber x := by
  change decode (heldFloat x) = some x ↔ IsNumber x
  by_cases hx : IsNumber x
  · rw [heldFloat_of_isNumber hx]
    exact iff_of_true (decode_encode x) hx
  · rw [heldFloat_of_not_isNumber hx]
    exact iff_of_false (fun h => nomatch h) hx

/-- Whether the start of a chapter is a number. -/
def Chapter.Numeric (c : Chapter) : Prop := IsNumber c.start

theorem Chapter.decode_held_iff (c : Chapter) :
    decode (held (encode c)) = some c ↔ c.Numeric := by
  rw [Chapter.Numeric, ← decode_held_float_iff]
  refine decode_held_record_iff rfl (by decide) ?_
  cases c
  simp [Option.bind_eq_some_iff]

namespace MediaKind

/-- Whether the floats of a kind are numbers: only the chapters of audiobooks have any. -/
def Numeric (k : MediaKind) : Prop :=
  ∀ chapters resume, k = .audiobook chapters resume → ∀ c ∈ chapters, c.Numeric

theorem ofName?_held (t : MediaType) : MediaType.ofName? (held (encode t)) = some t := by
  cases t <;> rfl

theorem decode_object_eq {fields : List (String × Json)} {tag : Json}
    (htag : named "media_type" fields = [tag]) :
    (decode (.object fields) : Option MediaKind) = (MediaType.ofName? tag).bind fun type =>
      ofDetails type (.object (fields.filter fun field => field.1 ≠ "media_type")) := by
  unfold decode instCodedMediaKind
  dsimp only
  rw [htag]
  rfl

/-- The type is told apart from the details wherever it stands among them. -/
theorem decode_held_eq (k : MediaKind) : ∃ details,
    details.Perm (heldFields k.details) ∧
      (decode (held (encode k)) : Option MediaKind) = ofDetails k.mediaType (.object details) := by
  let fields := byName (heldFields (("media_type", encode k.mediaType) :: k.details))
  have hperm : fields.Perm (("media_type", held (encode k.mediaType)) :: heldFields k.details) :=
    byName_perm _
  have hother : ∀ field ∈ heldFields k.details, field.1 ≠ "media_type" := by
    rw [heldFields_eq]
    cases k <;> simp [details]
  have hdistinct : (fields.map (·.1)).Nodup := by
    rw [(hperm.map (·.1)).nodup_iff, heldFields_eq]
    cases k <;> simp [details]
  have htype : named "media_type" fields = [held (encode k.mediaType)] :=
    named_of_mem hdistinct (hperm.mem_iff.2 (List.mem_cons_self ..))
  refine ⟨fields.filter fun field => field.1 ≠ "media_type", ?_, ?_⟩
  · have hfilter := hperm.filter fun field => field.1 ≠ "media_type"
    have hsame : (heldFields k.details).filter (fun field => field.1 ≠ "media_type") =
        heldFields k.details :=
      List.filter_eq_self.2 fun field hfield => decide_eq_true (hother field hfield)
    rw [List.filter_cons_of_neg (by simp), hsame] at hfilter
    exact hfilter
  · have hdecode : (decode (held (encode k)) : Option MediaKind) = decode (.object fields) := rfl
    rw [hdecode, decode_object_eq htype, ofName?_held]
    rfl

theorem decode_held_iff (k : MediaKind) : decode (held (encode k)) = some k ↔ k.Numeric := by
  obtain ⟨rest, hrest, hdecode⟩ := k.decode_held_eq
  rw [hdecode]
  unfold ofDetails
  cases k with
  | track albumRef artistText =>
    refine decode_arranged_iff hrest rfl (by decide) ?_
    simp [details, Numeric]
  | audiobook chapters resume =>
    have hchapters := decode_held_list_iff Chapter.decode_held_iff chapters
    refine decode_arranged_iff hrest rfl (by decide) ?_
    simp [details, Numeric, Option.bind_eq_some_iff, ← hchapters]
  | podcastEpisode series resume =>
    refine decode_arranged_iff hrest rfl (by decide) ?_
    simp [details, Numeric]
  | _ => exact iff_of_true rfl (fun _ _ h => nomatch h)

end MediaKind

/-- Whether the floats of a media item are numbers. -/
def MediaItem.Numeric (m : MediaItem) : Prop := m.kind.Numeric

theorem MediaItem.decode_held_iff (m : MediaItem) :
    decode (held (encode m)) = some m ↔ m.Numeric := by
  rw [MediaItem.Numeric, ← MediaKind.decode_held_iff]
  refine decode_held_record_iff rfl (by decide) ?_
  cases m
  simp [Option.bind_eq_some_iff]

instance : RefusesNull MediaItem := ⟨rfl⟩

/-- Whether the floats of a queue item are numbers: only its media has any. -/
def QueueItem.Numeric (i : QueueItem) : Prop := ∀ m ∈ i.media, m.Numeric

theorem QueueItem.decode_held_iff (i : QueueItem) :
    decode (held (encode i)) = some i ↔ i.Numeric := by
  rw [QueueItem.Numeric, ← decode_held_option_iff MediaItem.decode_held_iff]
  refine decode_held_record_iff rfl (by decide) ?_
  cases i
  simp [Option.bind_eq_some_iff]

instance : RefusesNull QueueItem := ⟨rfl⟩

/-- Whether the seconds that were really streamed are a number. -/
def FlowEntry.Numeric (e : FlowEntry Float) : Prop := ∀ x ∈ e.streamed, IsNumber x

theorem FlowEntry.decode_held_iff (e : FlowEntry Float) :
    decode (held (encode e)) = some e ↔ e.Numeric := by
  rw [FlowEntry.Numeric, ← decode_held_option_iff decode_held_float_iff]
  refine decode_held_record_iff rfl (by decide) ?_
  cases e
  simp [Option.bind_eq_some_iff]

/-- Whether the floats of a report are numbers. -/
@[mk_iff]
structure PlayerReport.Numeric (r : PlayerReport) : Prop where
  elapsed : ∀ x ∈ r.elapsedTime, IsNumber x
  updated : ∀ x ∈ r.elapsedUpdated, IsNumber x

theorem PlayerReport.decode_held_iff (r : PlayerReport) :
    decode (held (encode r)) = some r ↔ r.Numeric := by
  have hseconds := decode_held_option_iff decode_held_float_iff
  rw [PlayerReport.numeric_iff, ← hseconds, ← hseconds]
  refine decode_held_record_iff rfl (by decide) ?_
  cases r
  simp [Option.bind_eq_some_iff]

/-- Whether the floats of a queue are numbers. -/
@[mk_iff]
structure Queue.Numeric (q : Queue) : Prop where
  current : ∀ i ∈ q.currentItem, i.Numeric
  next : ∀ i ∈ q.nextItem, i.Numeric
  elapsed : IsNumber q.elapsed
  updated : IsNumber q.elapsedUpdated
  streamed : ∀ e ∈ q.flowLog, e.Numeric
  source : ∀ m ∈ q.radioSource, m.Numeric
  requested : ∀ m ∈ q.requested, m.Numeric

theorem Queue.decode_held_iff (q : Queue) :
    decode (held (encode q)) = some { q with preloading := none } ↔ q.Numeric := by
  have hitem := decode_held_option_iff QueueItem.decode_held_iff
  have hmedia := decode_held_list_iff MediaItem.decode_held_iff
  have hlog := decode_held_list_iff FlowEntry.decode_held_iff
  rw [Queue.numeric_iff, ← hitem, ← hitem, ← decode_held_float_iff, ← decode_held_float_iff, ← hlog,
    ← hmedia, ← hmedia]
  clear hitem hmedia hlog
  refine decode_held_record_iff rfl (by decide) ?_
  cases q
  simp [Option.bind_eq_some_iff]

/-! ## Nothing is lost -/

/-- Whether what is fine, and only that, comes back from its JSON value, which is then the value of
nothing else. -/
structure Json.LosesNothing {α : Type} [Coded α] (Fine : α → Prop) : Prop where
  decode_iff : ∀ a : α, decode (held (encode a)) = some a ↔ Fine a
  injective : ∀ a b : α, Fine a → Fine b → held (encode a) = held (encode b) → a = b

theorem Json.eq_of_held_eq {α : Type} [Coded α] {a b a' b' : α}
    (ha : decode (held (encode a)) = some a') (hb : decode (held (encode b)) = some b')
    (hvalue : held (encode a) = held (encode b)) : a' = b' := by
  rw [hvalue, hb] at ha
  exact (Option.some.inj ha).symm

theorem Json.LosesNothing.of_decode_iff {α : Type} [Coded α] {Fine : α → Prop}
    (h : ∀ a : α, decode (held (encode a)) = some a ↔ Fine a) : LosesNothing Fine where
  decode_iff := h
  injective a b ha hb := eq_of_held_eq ((h a).2 ha) ((h b).2 hb)

theorem Json.LosesNothing.of_kept {α : Type} [Coded α] [Kept α] :
    LosesNothing (fun _ : α => True) :=
  .of_decode_iff (by simp)

/-- Media items of all kinds, the details of streams, entries of logs, queue items and what a player
tells or is handed come back from their JSON values exactly when their floats are numbers, and two
with one value are equal. Queues do so but for the claim of a preload. -/
theorem values_lose_nothing :
    LosesNothing MediaItem.Numeric ∧ LosesNothing (fun _ : StreamDetails => True) ∧
      LosesNothing FlowEntry.Numeric ∧ LosesNothing QueueItem.Numeric ∧
      LosesNothing PlayerReport.Numeric ∧ LosesNothing (fun _ : CurrentMedia => True) ∧
      LosesNothing (fun _ : PlayerMedia => True) ∧
      (∀ q : Queue, decode (held (encode q)) = some { q with preloading := none } ↔ q.Numeric) ∧
      ∀ q r : Queue, q.Numeric → r.Numeric → held (encode q) = held (encode r) →
        { q with preloading := none } = { r with preloading := none } := by
  refine ⟨.of_decode_iff MediaItem.decode_held_iff, .of_kept,
    .of_decode_iff FlowEntry.decode_held_iff, .of_decode_iff QueueItem.decode_held_iff,
    .of_decode_iff PlayerReport.decode_held_iff, .of_kept, .of_kept, Queue.decode_held_iff, ?_⟩
  intro q r hq hr
  exact eq_of_held_eq (q.decode_held_iff.2 hq) (r.decode_held_iff.2 hr)

/-- A queue that was asked for an audiobook with two chapters comes back without its claim, and so
does the audiobook. -/
theorem audiobook_comes_back :
    let book : MediaItem :=
      { itemId := "1", provider := "shelf", name := "Tales", uri := "shelf://1", available := true
        kind := .audiobook [⟨1, "One", 0⟩, ⟨2, "Two", 61.25⟩] ⟨some 62000, false⟩ }
    let q : Queue :=
      { Queue.empty "den" "Den" true with
        elapsed := 62, requested := [book], preloading := some "den-1" }
    book.Numeric ∧ q.Numeric ∧ decode (held (encode book)) = some book ∧
      decode (held (encode q)) = some { q with preloading := none } := by
  intro book q
  obtain ⟨hzero, hsecond, helapsed⟩ : IsNumber 0 ∧ IsNumber 61.25 ∧ IsNumber 62 := by
    decide +kernel
  have hbook : book.Numeric := by
    rintro chapters resume hkind
    cases hkind
    exact List.forall_mem_cons.2 ⟨hzero, List.forall_mem_singleton.2 hsecond⟩
  have hq : q.Numeric := {
    current := fun _ h => nomatch h
    next := fun _ h => nomatch h
    elapsed := helapsed
    updated := hzero
    streamed := fun _ h => nomatch h
    source := fun _ h => nomatch h
    requested := List.forall_mem_singleton.2 hbook }
  obtain ⟨hmedia, -, -, -, -, -, -, hqueue, -⟩ := values_lose_nothing
  exact ⟨hbook, hq, (hmedia.decode_iff book).2 hbook, (hqueue q).2 hq⟩

end Jukebox
