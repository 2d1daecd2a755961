import Jukebox.Json.Basic
import Jukebox.Number.PowerOfTen
import Jukebox.Text.Digit

/-!
# Reading JSON

A strict reader: one value and nothing behind it, no comments, no trailing commas, no control
characters or unpaired surrogates in a text, no number beyond the floats, and no more than 127
lists and objects inside one another.
-/

namespace Jukebox.Json

def isBlank (c : Char) : Bool := c = ' ' || c = '\n' || c = '\t' || c = '\r'

def skipBlank (cs : List Char) : List Char := cs.dropWhile isBlank

/-- The character that a letter after a backslash stands for. -/
def unescape (c : Char) : Option Char :=
  if c = '"' then some '"'
  else if c = '\\' then some '\\'
  else if c = '/' then some '/'
  else if c = 'b' then some '\x08'
  else if c = 'f' then some '\x0c'
  else if c = 'n' then some '\n'
  else if c = 'r' then some '\r'
  else if c = 't' then some '\t'
  else none

/-- Whether a 16-bit unit opens a surrogate pair. -/
def opensPair (unit : Nat) : Bool := 0xD800 ≤ unit && unit < 0xDC00

/-- Whether a 16-bit unit closes a surrogate pair. -/
def closesPair (unit : Nat) : Bool := 0xDC00 ≤ unit && unit < 0xE000

/-- The text up to the closing quote, behind the characters read so far in reverse. -/
def readText : List Char → List Char → Option (String × List Char)
  | _, [] => none
  | read, '"' :: rest => some (String.ofList read.reverse, rest)
  | read, '\\' :: 'u' :: a :: b :: c :: d :: rest =>
    match Text.hexNumeral [a, b, c, d] with
    | none => none
    | some unit =>
      if opensPair unit then
        match rest with
        | '\\' :: 'u' :: e :: f :: g :: h :: rest =>
          match Text.hexNumeral [e, f, g, h] with
          | some low =>
            if closesPair low then
              let code := 0x10000 + (unit - 0xD800) * 1024 + (low - 0xDC00)
              readText (Char.ofNat code :: read) rest
            else none
          | none => none
        | _ => none
      else if closesPair unit then none
      else readText (Char.ofNat unit :: read) rest
  | read, '\\' :: c :: rest =>
    match unescape c with
    | some plain => readText (plain :: read) rest
    | none => none
  | read, c :: rest => if c.toNat < 32 then none else readText (c :: read) rest

/-- The significand and the number of digits taken into it, the number of digits left out, and
the rest: digits are taken while the significand stays a 64-bit number. -/
def readDigits : Nat → Nat → List Char → Nat × Nat × Nat × List Char
  | significand, taken, [] => (significand, taken, 0, [])
  | significand, taken, c :: rest =>
    if c.isDigit then
      let next := significand * 10 + Text.digitValue c
      if next < UInt64.size then readDigits next (taken + 1) rest
      else
        let ignored := rest.takeWhile Char.isDigit
        (significand, taken, ignored.length + 1, rest.dropWhile Char.isDigit)
    else (significand, taken, 0, c :: rest)

/-- A literal with a point or an exponent, or one too long for an integer, in parts. -/
structure Literal where
  negative : Bool
  significand : Nat
  exponent : Int

/-- The largest exponent that a literal may spell out. -/
def largestExponent : Nat := Nat.pow 2 31 - 1

/-- The exponent part of a literal after its letter. -/
def readExponent (l : Literal) (cs : List Char) : Option (Json × List Char) :=
  let (negative, cs) :=
    match cs with
    | '+' :: rest => (false, rest)
    | '-' :: rest => (true, rest)
    | _ => (false, cs)
  let digits := cs.takeWhile Char.isDigit
  let rest := cs.dropWhile Char.isDigit
  if digits.isEmpty then none
  else
    let power := Text.numeral 10 digits
    if largestExponent < power then
      if l.significand ≠ 0 ∧ !negative then none
      else some (.float (if l.negative then -0.0 else 0.0), rest)
    else
      let exponent := l.exponent + (if negative then -(power : Int) else power)
      (Number.PowerOfTen.read l.negative l.significand exponent).map fun x => (.float x, rest)

/-- What follows the digits of a float literal. -/
def readTail (l : Literal) (cs : List Char) : Option (Json × List Char) :=
  match cs with
  | 'e' :: rest => readExponent l rest
  | 'E' :: rest => readExponent l rest
  | _ => (Number.PowerOfTen.read l.negative l.significand l.exponent).map fun x => (.float x, cs)

/-- The digits behind the point; further digits of a full significand are ignored. -/
def readFraction (l : Literal) (cs : List Char) : Option (Json × List Char) :=
  match readDigits l.significand 0 cs with
  | (significand, taken, ignored, rest) =>
    if taken + ignored = 0 then none
    else readTail ⟨l.negative, significand, l.exponent - taken⟩ rest

/-- A number from its first digit on. -/
def readNumber (negative : Bool) (cs : List Char) : Option (Json × List Char) :=
  let leadingZero :=
    match cs with
    | '0' :: c :: _ => c.isDigit
    | _ => false
  match readDigits 0 0 cs with
  | (significand, taken, ignored, rest) =>
    if taken = 0 || leadingZero then none
    else
      let l : Literal := ⟨negative, significand, ignored⟩
      match rest with
      | '.' :: more => readFraction l more
      | 'e' :: more => readExponent l more
      | 'E' :: more => readExponent l more
      | _ =>
        if ignored ≠ 0 then readTail l rest
        else if !negative then some (.int significand, rest)
        else if significand = 0 ∨ Nat.pow 2 63 < significand then
          some (.float (-(significand.toUInt64.toFloat)), rest)
        else some (.int (-(significand : Int)), rest)

mutual

/-- One value at the front of the text. -/
def readValue : Nat → Nat → List Char → Option (Json × List Char)
  | 0, _, _ => none
  | fuel + 1, depth, cs =>
    match skipBlank cs with
    | 'n' :: 'u' :: 'l' :: 'l' :: rest => some (.null, rest)
    | 't' :: 'r' :: 'u' :: 'e' :: rest => some (.bool true, rest)
    | 'f' :: 'a' :: 'l' :: 's' :: 'e' :: rest => some (.bool false, rest)
    | '"' :: rest => (readText [] rest).map fun (s, rest) => (.text s, rest)
    | '-' :: rest => readNumber true rest
    | '[' :: rest =>
      if depth ≤ 1 then none
      else
        match skipBlank rest with
        | ']' :: rest => some (.list [], rest)
        | _ => (readElements fuel (depth - 1) [] rest).map fun (js, rest) => (.list js, rest)
    | '{' :: rest =>
      if depth ≤ 1 then none
      else
        match skipBlank rest with
        | '}' :: rest => some (.object [], rest)
        | _ => (readFields fuel (depth - 1) [] rest).map fun (fs, rest) => (.object fs, rest)
    | cs => readNumber false cs

/-- The elements of a list up to its bracket, behind those read so far in reverse. -/
def readElements : Nat → Nat → List Json → List Char → Option (List Json × List Char)
  | 0, _, _, _ => none
  | fuel + 1, depth, read, cs =>
    match readValue fuel depth cs with
    | none => none
    | some (j, rest) =>
      match skipBlank rest with
      | ',' :: rest => readElements fuel depth (j :: read) rest
      | ']' :: rest => some ((j :: read).reverse, rest)
      | _ => none

/-- The fields of an object up to its brace, behind those read so far in reverse. -/
def readFields :
    Nat → Nat → List (String × Json) → List Char → Option (List (String × Json) × List Char)
  | 0, _, _, _ => none
  | fuel + 1, depth, read, cs =>
    match skipBlank cs with
    | '"' :: rest =>
      match readText [] rest with
      | none => none
      | some (name, rest) =>
        match skipBlank rest with
        | ':' :: rest =>
          match readValue fuel depth rest with
          | none => none
          | some (j, rest) =>
            match skipBlank rest with
            | ',' :: rest => readFields fuel depth ((name, j) :: read) rest
            | '}' :: rest => some (((name, j) :: read).reverse, rest)
            | _ => none
        | _ => none
    | _ => none

end

/-- How many values may lie inside one another. -/
def depthLimit : Nat := 128

/-- The value that a whole text stands for. -/
def read (text : String) : Option Json :=
  let cs := text.toList
  match readValue (cs.length + 1) depthLimit cs with
  | some (j, rest) => if (skipBlank rest).isEmpty then some j else none
  | none => none

end Jukebox.Json
