import Jukebox.Json.Basic
import Jukebox.Number.Binary

/-!
# Types with a JSON form

`Coded` pairs the encoding of a type with its decoding. A record is an object with a field for
each of its parts. Reading one also accepts the list of its parts in their order, ignores unknown
fields and refuses a field that is given twice. Each part is required, optional or has a default.
-/

namespace Jukebox

class Coded (α : Type) where
  encode : α → Json
  decode : Json → Option α

export Coded (encode decode)

namespace Json

/-- Decoding gives back what was encoded. -/
def RoundTrip (α : Type) [Coded α] : Prop := ∀ a : α, decode (encode a) = some a

instance : Coded Bool where
  encode := .bool
  decode
    | .bool b => some b
    | _ => none

instance : Coded String where
  encode := .text
  decode
    | .text s => some s
    | _ => none

/-- A float may be written as a whole number. -/
instance : Coded Float where
  encode := .float
  decode
    | .float x => some x
    | .int n => some (Number.floatOfInt n)
    | _ => none

/-- A natural number below `limit`. -/
def decodeBelow (limit : Nat) : Json → Option Nat
  | .int n => if 0 ≤ n ∧ n < limit then some n.toNat else none
  | _ => none

/-- A count or a position is any natural number; a text holds none beyond 64 bits. -/
instance : Coded Nat where
  encode n := .int n
  decode
    | .int n => if 0 ≤ n then some n.toNat else none
    | _ => none

instance : Coded UInt32 where
  encode n := .int n.toNat
  decode j := (decodeBelow UInt32.size j).map UInt32.ofNat

instance : Coded UInt64 where
  encode n := .int n.toNat
  decode j := (decodeBelow UInt64.size j).map UInt64.ofNat

instance : Coded Json where
  encode j := j
  decode j := some j

/-- Absence is null. -/
instance {α : Type} [Coded α] : Coded (Option α) where
  encode
    | none => .null
    | some a => encode a
  decode
    | .null => some none
    | j => (decode j).map some

def decodeAll {α : Type} [Coded α] : List Json → Option (List α)
  | [] => some []
  | j :: more =>
    match decode j, decodeAll more with
    | some a, some as => some (a :: as)
    | _, _ => none

instance {α : Type} [Coded α] : Coded (List α) where
  encode as := .list (as.map encode)
  decode
    | .list js => decodeAll js
    | _ => none

/-- What the ways of writing records differ in. -/
structure Form where
  /-- What a case of an enumeration may hold when it is written as an object. -/
  isNothing : Json → Bool
  /-- Whether a list may go on behind the parts of a record. -/
  mayGoOn : Bool

/-- In JSON a case holds null, and a list ends with the last part. -/
def Form.json : Form := ⟨isNull, false⟩

/-- An enumeration is written by the names of its cases; reading one also accepts an object that
maps the name to nothing. -/
def decodeNameIn {α : Type} (form : Form) (cases : List (String × α)) : Json → Option α
  | .text s => (cases.find? fun c => c.1 = s).map (·.2)
  | .object [(s, j)] =>
    if form.isNothing j then (cases.find? fun c => c.1 = s).map (·.2) else none
  | _ => none

def decodeName {α : Type} (cases : List (String × α)) : Json → Option α :=
  decodeNameIn .json cases

/-- What a record gives for one of its parts: a value, nothing in an object, or nothing in a list
that is too short. -/
inductive Part where
  | given (value : Json)
  | unnamed
  | beyond
  deriving Inhabited

namespace Part

/-- A part that has to be there. -/
def required {α : Type} [Coded α] : Part → Option α
  | .given j => decode j
  | _ => none

/-- A part that an object may leave out. -/
def optional {α : Type} [Coded α] : Part → Option (Option α)
  | .given j => decode j
  | .unnamed => some none
  | .beyond => none

/-- A part that may be left out for a default. -/
def orElse {α : Type} [Coded α] (default : α) : Part → Option α
  | .given j => decode j
  | _ => some default

end Part

/-- The part under a name, `none` when it is given more than once. -/
def partNamed (fields : List (String × Json)) (name : String) : Option Part :=
  match named name fields with
  | [] => some .unnamed
  | [j] => some (.given j)
  | _ => none

/-- The parts of an object, one for each name. -/
def partsNamed (fields : List (String × Json)) : List String → Option (List Part)
  | [] => some []
  | name :: more =>
    match partNamed fields name, partsNamed fields more with
    | some p, some ps => some (p :: ps)
    | _, _ => none

/-- The parts of a list, one for each name. -/
def partsInOrder (form : Form) : List String → List Json → Option (List Part)
  | [], [] => some []
  | [], _ :: _ => if form.mayGoOn then some [] else none
  | _ :: more, [] => (partsInOrder form more []).map (.beyond :: ·)
  | _ :: more, j :: js => (partsInOrder form more js).map (.given j :: ·)

/-- The parts of a record, one for each name. -/
def partsIn (form : Form) (names : List String) : Json → Option (List Part)
  | .object fields => partsNamed fields names
  | .list elements => partsInOrder form names elements
  | _ => none

def parts (names : List String) : Json → Option (List Part) := partsIn .json names

end Json

end Jukebox
