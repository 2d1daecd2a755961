/-!
# JSON values

The values that queue snapshots are made of. Whole numbers and floats are kept apart: a field
that holds a count accepts no float. The fields of an object keep their order.
-/

namespace Jukebox

inductive Json where
  | null
  | bool (value : Bool)
  | int (value : Int)
  | float (value : Float)
  | text (value : String)
  | list (elements : List Json)
  | object (fields : List (String × Json))
  deriving Inhabited, Repr

namespace Json

/-- The values given under a name, in order. -/
def named (name : String) (fields : List (String × Json)) : List Json :=
  fields.filterMap fun field => if field.1 = name then some field.2 else none

/-- The last value under a name, `none` when the value is no object or has no such field. -/
def field? (name : String) : Json → Option Json
  | .object fields => (named name fields).getLast?
  | _ => none

def isNull : Json → Bool
  | .null => true
  | _ => false

end Json

end Jukebox
