import Jukebox.Hub.Registry
import Jukebox.Proofs.Rereading

/-!
# Queues and items that are read back

Every type of a snapshot decodes what it encodes (`Faithful`), and what it encodes is read back
from its text if its numbers are. So a list of items is read back as it was (`Hub.parse?_items`),
and a queue as it was but for its claim and for lengths of streams that are no numbers
(`Hub.parse?_queue`).

A count is read back if it has at most 64 bits. A float need not be: the reader scales by a power
of ten and may miss the float that was written by a little, so this is asked of each float of a
queue (`Json.Exact`).
-/

namespace Jukebox

namespace Json

/-! ## Records -/

theorem named_of_not_mem {fields : List (String × Json)} {name : String}
    (h : name ∉ fields.map (·.1)) : named name fields = [] := by
  induction fields with
  | nil => rfl
  | cons field fields ih =>
    rw [List.map_cons, List.mem_cons, not_or] at h
    have hfirst : ¬field.1 = name := fun heq => h.1 heq.symm
    have hmore := ih h.2
    simpa [named, hfirst] using hmore

theorem named_of_mem {fields : List (String × Json)} (hdistinct : (fields.map (·.1)).Nodup)
    {name : String} {j : Json} (h : (name, j) ∈ fields) : named name fields = [j] := by
  induction fields with
  | nil => cases h
  | cons field fields ih =>
    rw [List.map_cons, List.nodup_cons] at hdistinct
    rcases List.mem_cons.1 h with rfl | h
    · have hmore := named_of_not_mem hdistinct.1
      simpa [named] using hmore
    · have hfirst : ¬field.1 = name := by
        intro heq
        rw [heq] at hdistinct
        exact hdistinct.1 (List.mem_map.2 ⟨_, h, rfl⟩)
      have hmore := ih hdistinct.2 h
      simpa [named, hfirst] using hmore

theorem partsNamed_of_subset {fields asked : List (String × Json)}
    (hdistinct : (fields.map (·.1)).Nodup) (hasked : asked ⊆ fields) :
    partsNamed fields (asked.map (·.1)) = some (asked.map fun field => .given field.2) := by
  induction asked with
  | nil => rfl
  | cons field asked ih =>
    rw [List.cons_subset] at hasked
    rw [List.map_cons, partsNamed, partNamed, named_of_mem hdistinct (j := field.2) hasked.1,
      ih hasked.2]
    rfl

/-- The parts of an object are its values if no name comes twice. -/
theorem parts_object {names : List String} {fields : List (String × Json)}
    (hnames : fields.map (·.1) = names) (hdistinct : names.Nodup) :
    parts names (.object fields) = some (fields.map fun field => .given field.2) := by
  subst hnames
  exact partsNamed_of_subset hdistinct (List.Subset.refl fields)

theorem decode_record {α : Type} {names : List String} {fields : List (String × Json)}
    {f : List Part → Option α} {a : α} (hnames : fields.map (·.1) = names)
    (hdistinct : names.Nodup) (hf : f (fields.map fun field => .given field.2) = some a) :
    (parts names (.object fields)).bind f = some a := by
  rw [parts_object hnames hdistinct]
  exact hf

/-! ## Types that decode what they encode -/

class Faithful (α : Type) [Coded α] : Prop where
  decode_encode : RoundTrip α

/-- The types whose absence can be told from their values. -/
class NeverNull (α : Type) [Coded α] : Prop where
  encode_ne_null : ∀ a : α, encode a ≠ .null

export Faithful (decode_encode)

export NeverNull (encode_ne_null)

section

variable {α : Type} [Coded α]

@[simp]
theorem required_encode [Faithful α] (a : α) : (Part.given (encode a)).required = some a :=
  decode_encode a

@[simp]
theorem optional_encode [Faithful (Option α)] (o : Option α) :
    (Part.given (encode o)).optional = some o :=
  decode_encode o

@[simp]
theorem orElse_encode [Faithful α] (a default : α) :
    (Part.given (encode a)).orElse default = some a :=
  decode_encode a

theorem decodeBelow_int {limit n : Nat} (hn : n < limit) :
    decodeBelow limit (.int n) = some n := by
  rw [decodeBelow, if_pos ⟨by omega, by omega⟩, Int.toNat_natCast]

instance : Faithful String := ⟨fun _ => rfl⟩

instance : Faithful Bool := ⟨fun _ => rfl⟩

instance : Faithful Float := ⟨fun _ => rfl⟩

instance : Faithful Nat := ⟨fun n => if_pos (Int.natCast_nonneg n)⟩

instance : Faithful UInt32 where
  decode_encode n := by
    change (decodeBelow UInt32.size (.int n.toNat)).map UInt32.ofNat = some n
    rw [decodeBelow_int n.toNat_lt, Option.map_some, UInt32.ofNat_toNat]

instance : Faithful UInt64 where
  decode_encode n := by
    change (decodeBelow UInt64.size (.int n.toNat)).map UInt64.ofNat = some n
    rw [decodeBelow_int n.toNat_lt, Option.map_some, UInt64.ofNat_toNat]

instance [Faithful α] [NeverNull α] : Faithful (Option α) where
  decode_encode o := by
    cases o with
    | none => rfl
    | some a =>
      have hdecode := decode_encode a
      have hnull := encode_ne_null a
      cases hj : encode a with
      | null => exact absurd hj hnull
      | _ =>
        rw [hj] at hdecode
        exact congrArg (Option.map some) hdecode

instance [Faithful α] : Faithful (List α) where
  decode_encode as := by
    change decodeAll (as.map encode) = some as
    induction as with
    | nil => rfl
    | cons a as ih => rw [List.map_cons, decodeAll, decode_encode, ih]

instance : NeverNull String := ⟨fun _ h => nomatch h⟩

instance : NeverNull Float := ⟨fun _ h => nomatch h⟩

instance : NeverNull Nat := ⟨fun _ h => nomatch h⟩

instance : NeverNull UInt32 := ⟨fun _ h => nomatch h⟩

instance : NeverNull UInt64 := ⟨fun _ h => nomatch h⟩

end

end Json

open Json

instance : Faithful MediaType where
  decode_encode t := by cases t <;> rfl

instance : NeverNull MediaType := ⟨fun _ h => nomatch h⟩

instance : Faithful ItemRef where
  decode_encode r := by
    refine decode_record rfl (by decide) ?_
    simp

instance : NeverNull ItemRef := ⟨fun _ h => nomatch h⟩

instance : Faithful Chapter where
  decode_encode c := by
    refine decode_record rfl (by decide) ?_
    simp

theorem MediaKind.decode_eq (k : MediaKind) :
    (decode (encode k) : Option MediaKind) = ofDetails k.mediaType (.object k.details) := by
  cases k <;> rfl

instance : Faithful MediaKind where
  decode_encode k := by
    rw [k.decode_eq]
    unfold MediaKind.ofDetails
    cases k with
    | track albumRef artistText =>
      refine decode_record rfl (by decide) ?_
      simp [MediaKind.details]
    | audiobook chapters resume =>
      refine decode_record rfl (by decide) ?_
      simp [MediaKind.details]
    | podcastEpisode series resume =>
      refine decode_record rfl (by decide) ?_
      simp [MediaKind.details]
    | _ => rfl

instance : Faithful MediaItem where
  decode_encode m := by
    refine decode_record rfl (by decide) ?_
    simp

instance : NeverNull MediaItem := ⟨fun _ h => nomatch h⟩

instance : Faithful StreamDetails where
  decode_encode d := by
    refine decode_record rfl (by decide) ?_
    simp

instance : NeverNull StreamDetails := ⟨fun _ h => nomatch h⟩

instance : Faithful QueueItem where
  decode_encode i := by
    refine decode_record rfl (by decide) ?_
    simp

instance : NeverNull QueueItem := ⟨fun _ h => nomatch h⟩

instance : Faithful PlayerState where
  decode_encode s := by cases s <;> rfl

instance : Faithful RepeatMode where
  decode_encode m := by cases m <;> rfl

instance : Faithful (FlowEntry Float) where
  decode_encode e := by
    refine decode_record rfl (by decide) ?_
    simp

/-- The claim of a preload is not stored. -/
theorem Queue.decode_encode (q : Queue) :
    decode (encode q) = some { q with preloading := none } := by
  refine decode_record rfl (by decide) ?_
  simp

/-! ## Types whose text is read back -/

namespace Json

/-- Whether a float is read back from its text. -/
def Exact (x : Float) : Prop := read (toText (.float x)) = some (.float x)

/-- Whether a value is a certain float. -/
def isFloat (x : Float) : Json → Bool
  | .float y => y = x
  | _ => false

theorem exact_iff {x : Float} : Exact x ↔ (read (toText (.float x))).any (isFloat x) := by
  unfold Exact
  constructor
  · intro h
    simp [h, isFloat]
  · intro h
    obtain ⟨j, hj, hx⟩ := (Option.any_eq_true _ _).1 h
    cases j with
    | float y => rw [hj, of_decide_eq_true hx]
    | _ => cases hx

instance (x : Float) : Decidable (Exact x) := decidable_of_iff _ exact_iff.symm

example : Exact 61.25 ∧ ¬ Exact 1.4000000000000001 := by decide +kernel

/-- Whether a float has no text of its own. -/
def isLost (x : Float) : Bool := floatText x = ['n', 'u', 'l', 'l']

variable {n : Nat}

theorem reread_object_iff {fields fields' : List (String × Json)} :
    Reread (n + 1) (.object fields) (.object fields') ↔ RereadFields n fields fields' := by
  constructor
  · intro h
    cases h with
    | number _ hj => cases hj
    | object h => exact h
  · exact .object

@[simp]
theorem rereadFields_nil : RereadFields n [] [] := .nil n

@[simp]
theorem rereadFields_cons_iff {name name' : String} {j j' : Json}
    {fields fields' : List (String × Json)} :
    RereadFields n ((name, j) :: fields) ((name', j') :: fields') ↔
      name = name' ∧ Reread n j j' ∧ RereadFields n fields fields' := by
  constructor
  · intro h
    cases h with
    | cons hj hfields => exact ⟨rfl, hj, hfields⟩
  · rintro ⟨rfl, hj, hfields⟩
    exact .cons hj hfields

@[simp]
theorem reread_string (s : String) : Reread n (encode s) (encode s) := .text n s

@[simp]
theorem reread_bool (b : Bool) : Reread n (encode b) (encode b) := .bool n b

@[simp]
theorem reread_mediaType (t : MediaType) : Reread n (encode t) (encode t) := .text n t.name

@[simp]
theorem reread_playerState (s : PlayerState) : Reread n (encode s) (encode s) := .text n s.name

@[simp]
theorem reread_repeatMode (m : RepeatMode) : Reread n (encode m) (encode m) := .text n m.name

theorem reread_nat {k : Nat} (hk : k < UInt64.size) : Reread n (encode k) (encode k) :=
  .number n rfl (read_int hk)

@[simp]
theorem reread_uint32 (k : UInt32) : Reread n (encode k) (encode k) :=
  reread_nat (Nat.lt_trans k.toNat_lt (by decide))

@[simp]
theorem reread_uint64 (k : UInt64) : Reread n (encode k) (encode k) := reread_nat k.toNat_lt

theorem reread_float {x : Float} (hx : Exact x) : Reread n (encode x) (encode x) :=
  .number n rfl hx

theorem reread_lost {x : Float} (hx : isLost x) : Reread n (encode x) .null := by
  have htext : toText (.float x) = "null" := by
    rw [toText, write, of_decide_eq_true hx]
    rfl
  refine .number n rfl ?_
  change read (toText (.float x)) = some .null
  rw [htext]
  rfl

theorem reread_filter (o : Option Float) (ho : ∀ x ∈ o, isLost x = false → Exact x) :
    Reread n (encode o) (encode (o.filter (!isLost ·))) := by
  cases o with
  | none => exact .null n
  | some x =>
    rw [Option.filter_some]
    cases hx : isLost x with
    | true => exact reread_lost hx
    | false => exact reread_float (ho x rfl hx)

section

variable {α : Type} [Coded α]

@[simp]
theorem reread_option {o : Option α} (h : ∀ a ∈ o, Reread n (encode a) (encode a)) :
    Reread n (encode o) (encode o) := by
  cases o with
  | none => exact .null n
  | some a => exact h a rfl

theorem rereadElements_map {as : List α} {f : α → α}
    (h : ∀ a ∈ as, Reread n (encode a) (encode (f a))) :
    RereadElements n (as.map encode) ((as.map f).map encode) := by
  induction as with
  | nil => exact .nil n
  | cons a as ih =>
    rw [List.forall_mem_cons] at h
    exact .cons h.1 (ih h.2)

theorem reread_map {as : List α} {f : α → α}
    (h : ∀ a ∈ as, Reread n (encode a) (encode (f a))) :
    Reread (n + 1) (encode as) (encode (as.map f)) :=
  .list (rereadElements_map h)

theorem reread_list {as : List α} (h : ∀ a ∈ as, Reread n (encode a) (encode a)) :
    Reread (n + 1) (encode as) (encode as) := by
  have hmap := reread_map (f := id) h
  rwa [List.map_id] at hmap

end

end Json

section

variable (n : Nat)

@[simp]
theorem ItemRef.reread (r : ItemRef) : Reread (n + 1) (encode r) (encode r) := by
  refine reread_object_iff.2 ?_
  simp

@[simp]
theorem StreamDetails.reread (d : StreamDetails) : Reread (n + 1) (encode d) (encode d) := by
  refine reread_object_iff.2 ?_
  simp

/-- Whether the start of a chapter is read back. -/
def Chapter.Exact (c : Chapter) : Prop := Json.Exact c.start

theorem Chapter.reread {c : Chapter} (hc : c.Exact) : Reread (n + 1) (encode c) (encode c) := by
  refine reread_object_iff.2 ?_
  simpa using reread_float hc

/-- Whether the floats of a media item are read back: only chapters of audiobooks have any. -/
def MediaItem.Exact (m : MediaItem) : Prop :=
  ∀ chapters resume, m.kind = .audiobook chapters resume → ∀ c ∈ chapters, c.Exact

theorem MediaKind.reread {k : MediaKind}
    (hk : ∀ chapters resume, k = .audiobook chapters resume → ∀ c ∈ chapters, c.Exact) :
    Reread (n + 3) (encode k) (encode k) := by
  refine reread_object_iff.2 ?_
  cases k with
  | audiobook chapters resume =>
    have hchapters : Reread (n + 2) (encode chapters) (encode chapters) :=
      reread_list fun c hc => c.reread n (hk chapters resume rfl c hc)
    simpa [details] using hchapters
  | track => simp [details]
  | podcastEpisode => simp [details]
  | _ => simp [details]

theorem MediaItem.reread {m : MediaItem} (hm : m.Exact) :
    Reread (n + 4) (encode m) (encode m) := by
  refine reread_object_iff.2 ?_
  simpa using MediaKind.reread n hm

/-- Whether an item is read back. -/
structure QueueItem.Storable (i : QueueItem) : Prop where
  sorted : i.sortIndex < UInt64.size
  media : ∀ m ∈ i.media, m.Exact

theorem QueueItem.reread {i : QueueItem} (hi : i.Storable) :
    Reread (n + 5) (encode i) (encode i) := by
  have hsorted : Reread (n + 4) (encode i.sortIndex) (encode i.sortIndex) := reread_nat hi.sorted
  have hmedia : Reread (n + 4) (encode i.media) (encode i.media) :=
    reread_option fun m hm => m.reread n (hi.media m hm)
  refine reread_object_iff.2 ?_
  simp [hsorted, hmedia]

/-- The entry as it is read back: seconds that are no number are forgotten. -/
def FlowEntry.written (e : FlowEntry Float) : FlowEntry Float :=
  { e with streamed := e.streamed.filter (!isLost ·) }

theorem FlowEntry.reread {e : FlowEntry Float}
    (he : ∀ x ∈ e.streamed, isLost x = false → Json.Exact x) :
    Reread (n + 1) (encode e) (encode e.written) := by
  have hstreamed : Reread n (encode e.streamed) (encode (e.streamed.filter (!isLost ·))) :=
    reread_filter e.streamed he
  refine reread_object_iff.2 ?_
  simp [written, hstreamed]

/-- Whether a queue is read back: its counts have at most 64 bits, and its floats are exact. -/
structure Queue.Storable (q : Queue) : Prop where
  position : ∀ k ∈ q.currentIndex, k < UInt64.size
  buffered : ∀ k ∈ q.bufferedIndex, k < UInt64.size
  counted : q.itemCount < UInt64.size
  current : ∀ i ∈ q.currentItem, i.Storable
  next : ∀ i ∈ q.nextItem, i.Storable
  elapsed : Json.Exact q.elapsed
  updated : Json.Exact q.elapsedUpdated
  streamed : ∀ e ∈ q.flowLog, ∀ x ∈ e.streamed, isLost x = false → Json.Exact x
  source : ∀ m ∈ q.radioSource, m.Exact
  requested : ∀ m ∈ q.requested, m.Exact

/-- The queue as it is read back: without the claim of a preload, and with a log in which lengths
that are no numbers are forgotten. -/
def Queue.written (q : Queue) : Queue :=
  { q with preloading := none, flowLog := q.flowLog.map FlowEntry.written }

theorem Queue.reread {q : Queue} (hq : q.Storable) :
    Reread (n + 6) (encode q) (encode q.written) := by
  have hposition : Reread (n + 5) (encode q.currentIndex) (encode q.currentIndex) :=
    reread_option fun k hk => reread_nat (hq.position k hk)
  have hbuffered : Reread (n + 5) (encode q.bufferedIndex) (encode q.bufferedIndex) :=
    reread_option fun k hk => reread_nat (hq.buffered k hk)
  have hcounted : Reread (n + 5) (encode q.itemCount) (encode q.itemCount) :=
    reread_nat hq.counted
  have hcurrent : Reread (n + 5) (encode q.currentItem) (encode q.currentItem) :=
    reread_option fun i hi => i.reread n (hq.current i hi)
  have hnext : Reread (n + 5) (encode q.nextItem) (encode q.nextItem) :=
    reread_option fun i hi => i.reread n (hq.next i hi)
  have helapsed : Reread (n + 5) (encode q.elapsed) (encode q.elapsed) := reread_float hq.elapsed
  have hupdated : Reread (n + 5) (encode q.elapsedUpdated) (encode q.elapsedUpdated) :=
    reread_float hq.updated
  have hlog : Reread (n + 5) (encode q.flowLog) (encode (q.flowLog.map FlowEntry.written)) :=
    reread_map fun e he => e.reread (n + 3) (hq.streamed e he)
  have hsource : Reread (n + 5) (encode q.radioSource) (encode q.radioSource) :=
    reread_list fun m hm => m.reread n (hq.source m hm)
  have hrequested : Reread (n + 5) (encode q.requested) (encode q.requested) :=
    reread_list fun m hm => m.reread n (hq.requested m hm)
  refine reread_object_iff.2 ?_
  simp [written, *]

end

namespace Hub

theorem parse?_of_reread {α : Type} [Coded α] {a : α} {j : Json} (h : Reread 127 (encode a) j) :
    (parse? (encode a).toText : Option α) = decode j := by
  rw [parse?, read_reread h, Option.bind_some]

theorem parse?_items {items : List QueueItem} (hitems : ∀ i ∈ items, i.Storable) :
    parse? (encode items).toText = some items := by
  rw [parse?_of_reread (reread_list fun i hi => i.reread 121 (hitems i hi))]
  exact decode_encode items

theorem parse?_queue {q : Queue} (hq : q.Storable) :
    parse? (encode q).toText = some q.written := by
  rw [parse?_of_reread (q.reread 121 hq)]
  exact q.written.decode_encode

end Hub

end Jukebox
