import Jukebox.Toml.Quoted
import Jukebox.Toml.Scalar
import Jukebox.Toml.Tree

/-!
# Reading TOML

A document is a list of lines, each with a header, a key and its value, or neither. Lists and
tables in brackets and braces may go over several lines, with comments and a comma behind the last
element, and lie at most eighty deep inside one another.
-/

namespace Jukebox.Toml

def skipBlank (cs : List Char) : List Char := cs.dropWhile isBlank

/-- The rest behind blanks, line ends and comments; the flag says that a comment is going on. -/
def skipLines : Bool → List Char → Option (List Char)
  | _, [] => some []
  | _, '\n' :: rest => skipLines false rest
  | _, '\r' :: '\n' :: rest => skipLines false rest
  | true, c :: rest => if isControl c then none else skipLines true rest
  | false, c :: rest =>
    if isBlank c then skipLines false rest
    else if c = '#' then skipLines true rest
    else some (c :: rest)

/-- The rest behind the end of a line, on which only a comment may still stand. -/
def endLine (cs : List Char) : Option (List Char) :=
  match skipBlank cs with
  | [] => some []
  | c :: rest => if c = '#' || c = '\n' || c = '\r' then skipLines false (c :: rest) else none

/-! ## Keys -/

def isBareChar (c : Char) : Bool := c.isAlphanum || c = '_' || c = '-'

/-- One name of a key. -/
def readName (cs : List Char) : Option (String × List Char) :=
  match cs with
  | '"' :: _ => readQuotedLine cs
  | '\'' :: _ => readQuotedLine cs
  | _ =>
    let name := cs.takeWhile isBareChar
    if name.isEmpty then none else some (String.ofList name, cs.dropWhile isBareChar)

/-- How many names a key may have in front of its last one. -/
def pathLimit : Nat := 79

/-- A key with the blanks around it: the names in front of the last one, and the last one. -/
def readKey : Nat → List String → List Char → Option ((List String × String) × List Char)
  | 0, _, _ => none
  | fuel + 1, path, cs =>
    match readName (skipBlank cs) with
    | none => none
    | some (name, rest) =>
      match skipBlank rest with
      | '.' :: rest => readKey fuel (name :: path) rest
      | rest => if pathLimit < path.length then none else some ((path.reverse, name), rest)

/-! ## Values -/

mutual

/-- One value at the front of the text. -/
def readValue : Nat → Nat → List Char → Option (Json × List Char)
  | 0, _, _ => none
  | fuel + 1, depth, cs =>
    match cs with
    | '[' :: rest =>
      match depth with
      | 0 => none
      | depth + 1 => (readElements fuel depth [] rest).map fun (js, rest) => (.list js, rest)
    | '{' :: rest =>
      match depth with
      | 0 => none
      | depth + 1 => (readFields fuel depth [] rest).map fun (es, rest) => (es.toJson, rest)
    | '"' :: _ => (readQuoted cs).map fun (s, rest) => (.text s, rest)
    | '\'' :: _ => (readQuoted cs).map fun (s, rest) => (.text s, rest)
    | _ => readScalar cs

/-- The elements of a list up to its bracket, behind those read so far in reverse. -/
def readElements : Nat → Nat → List Json → List Char → Option (List Json × List Char)
  | 0, _, _, _ => none
  | fuel + 1, depth, read, cs =>
    match skipLines false cs with
    | none => none
    | some (']' :: rest) => some (read.reverse, rest)
    | some cs =>
      match readValue fuel depth cs with
      | none => none
      | some (j, rest) =>
        match skipLines false rest with
        | some (',' :: rest) => readElements fuel depth (j :: read) rest
        | some (']' :: rest) => some ((j :: read).reverse, rest)
        | _ => none

/-- The keys and values of a table up to its brace, behind those read so far. -/
def readFields : Nat → Nat → Entries → List Char → Option (Entries × List Char)
  | 0, _, _, _ => none
  | fuel + 1, depth, read, cs =>
    match skipLines false cs with
    | none => none
    | some ('}' :: rest) => some (read, rest)
    | some cs =>
      match readKey (cs.length + 1) [] cs with
      | some ((path, name), '=' :: rest) =>
        match readValue fuel depth (skipBlank rest) with
        | none => none
        | some (j, rest) =>
          match read.set path name j with
          | none => none
          | some read =>
            match skipLines false rest with
            | some (',' :: rest) => readFields fuel depth read rest
            | some ('}' :: rest) => some (read, rest)
            | _ => none
      | _ => none

end

/-- How many lists and tables may lie inside one another. -/
def depthLimit : Nat := 80

/-! ## Lines -/

/-- What a line says. -/
inductive Line where
  | table (path : List String) (name : String)
  | row (path : List String) (name : String)
  | value (path : List String) (name : String) (j : Json)

/-- One line without its end, from its first character on. -/
def readLine (cs : List Char) : Option (Line × List Char) :=
  let fuel := cs.length + 1
  match cs with
  | '[' :: '[' :: rest =>
    match readKey fuel [] rest with
    | some ((path, name), ']' :: ']' :: rest) => some (.row path name, rest)
    | _ => none
  | '[' :: rest =>
    match readKey fuel [] rest with
    | some ((path, name), ']' :: rest) => some (.table path name, rest)
    | _ => none
  | _ =>
    match readKey fuel [] cs with
    | some ((path, name), '=' :: rest) =>
      (readValue fuel depthLimit (skipBlank rest)).map fun (j, rest) => (.value path name j, rest)
    | _ => none

/-- The lines of a document. -/
def readLines : Nat → List Char → Option (List Line)
  | 0, _ => none
  | fuel + 1, cs =>
    match skipLines false cs with
    | none => none
    | some [] => some []
    | some cs =>
      match readLine cs with
      | none => none
      | some (line, rest) => do
        return line :: (← readLines fuel (← endLine rest))

/-- The definitions after some lines, behind the header that they stand under. -/
def define : List Line → List String → Entries → Option Entries
  | [], _, entries => some entries
  | .table path name :: more, _, entries => do
    define more (path ++ [name]) (← entries.openTable path name)
  | .row path name :: more, _, entries => do
    define more (path ++ [name]) (← entries.openRow path name)
  | .value path name j :: more, header, entries => do
    define more header (← entries.setUnder header path name j)

/-- The text without a byte order mark in front. -/
def withoutMark : List Char → List Char
  | '\ufeff' :: rest => rest
  | cs => cs

/-- The record that a whole text stands for. -/
def read (text : String) : Option Json := do
  let cs := withoutMark text.toList
  let entries ← define (← readLines (cs.length + 1) cs) [] []
  return entries.toJson

end Jukebox.Toml
