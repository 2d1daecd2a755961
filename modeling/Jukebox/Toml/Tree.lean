import Jukebox.Json.Basic

/-!
# The tables of a document

What the lines of a document have defined so far. A name is defined once. A table that a header
states may be entered again only on the way to a further header; one that came about on the way
may still be stated, and one that dotted keys made may get further keys of that kind. A value with
brackets or braces of its own is closed.
-/

namespace Jukebox.Toml

/-- How a table came about. -/
inductive Origin where
  /-- A header states it, or it is the whole document, or it is being read in braces. -/
  | stated
  /-- It lies on the way to a header. -/
  | implied
  /-- A dotted key made it. -/
  | dotted
  deriving DecidableEq, Repr

inductive Node where
  | value (json : Json)
  | table (origin : Origin) (entries : List (String × Node))
  /-- Tables under one name: those before the last are closed. -/
  | rows (earlier : List Json) (last : List (String × Node))

/-- The definitions of one table, in order. -/
abbrev Entries := List (String × Node)

mutual

/-- The value that a node stands for. -/
def Node.toJson : Node → Json
  | .value j => j
  | .table _ entries => .object (fieldsOf entries)
  | .rows earlier last => .list (earlier ++ [.object (fieldsOf last)])

/-- The fields of a table. -/
def fieldsOf : List (String × Node) → List (String × Json)
  | [] => []
  | (name, node) :: more => (name, node.toJson) :: fieldsOf more

end

namespace Entries

def node? (entries : Entries) (name : String) : Option Node :=
  (entries.find? fun e => e.1 = name).map (·.2)

/-- The entries with the node under a name replaced, or put at the end when there is none. -/
def put (name : String) (node : Node) : Entries → Entries
  | [] => [(name, node)]
  | e :: more => if e.1 = name then (name, node) :: more else e :: put name node more

/-- The entries after a change to the table at the end of a path. Tables that are missing on the
way are made with the given origin; dotted keys go through no table that a header states, and
nothing goes through a closed value. -/
def changeAt (made : Origin) (change : Origin → Entries → Option Entries) :
    List String → Origin → Entries → Option Entries
  | [], origin, entries => change origin entries
  | name :: path, _, entries =>
    match node? entries name with
    | none => do
      return put name (.table made (← changeAt made change path made [])) entries
    | some (.table origin inner) =>
      if made = .dotted ∧ origin = .stated then none
      else do return put name (.table origin (← changeAt made change path origin inner)) entries
    | some (.rows earlier last) => do
      return put name (.rows earlier (← changeAt made change path .stated last)) entries
    | some (.value _) => none

/-- A new value in a table, which a dotted key may add only to a table that dotted keys made. -/
def define (isDotted : Bool) (name : String) (j : Json) (origin : Origin) (entries : Entries) :
    Option Entries :=
  if isDotted ≠ decide (origin = .dotted) then none
  else
    match node? entries name with
    | some _ => none
    | none => some (put name (.value j) entries)

/-- The entries with a value under a key. -/
def set (path : List String) (name : String) (j : Json) (entries : Entries) : Option Entries :=
  changeAt .dotted (define (!path.isEmpty) name j) path .stated entries

/-- The entries with a table stated at the end of a path. -/
def openTable (path : List String) (name : String) (entries : Entries) : Option Entries :=
  changeAt .implied (fun _ inner =>
    match node? inner name with
    | none => some (put name (.table .stated []) inner)
    | some (.table .implied children) => some (put name (.table .stated children) inner)
    | some _ => none) path .stated entries

/-- The entries with a further table under the name at the end of a path. -/
def openRow (path : List String) (name : String) (entries : Entries) : Option Entries :=
  changeAt .implied (fun _ inner =>
    match node? inner name with
    | none => some (put name (.rows [] []) inner)
    | some (.rows earlier last) =>
      some (put name (.rows (earlier ++ [.object (fieldsOf last)]) []) inner)
    | some _ => none) path .stated entries

/-- The entries with a value under a key of the table that a header opened. -/
def setUnder (header path : List String) (name : String) (j : Json) (entries : Entries) :
    Option Entries :=
  changeAt .implied (fun _ inner => set path name j inner) header .stated entries

def toJson (entries : Entries) : Json := .object (fieldsOf entries)

theorem node?_put_self (name : String) (node : Node) (entries : Entries) :
    node? (put name node entries) name = some node := by
  induction entries with
  | nil => simp [put, node?]
  | cons e more ih =>
    by_cases h : e.1 = name
    · simp [put, node?, h]
    · simpa [put, node?, h] using ih

theorem node?_put_of_ne {name other : String} (h : other ≠ name) (node : Node)
    (entries : Entries) : node? (put name node entries) other = node? entries other := by
  induction entries with
  | nil => simp [put, node?, h.symm]
  | cons e more ih =>
    by_cases he : e.1 = name
    · simp [put, node?, he, h.symm]
    · by_cases ho : e.1 = other
      · simp [put, node?, ho, h]
      · simpa [put, node?, he, ho] using ih

end Entries

end Jukebox.Toml
