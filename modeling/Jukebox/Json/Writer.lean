import Jukebox.Json.Basic
import Jukebox.Number.Shortest

/-!
# Writing JSON

The compact text of a value: no blanks, control characters escaped, floats with the fewest digits
that read back. A float that is no number is written as null.
-/

namespace Jukebox.Json

/-- A hexadecimal digit in lower case. -/
def hexDigit (n : Nat) : Char := Nat.digitChar (n % 16)

/-- A character inside a quoted text. -/
def escaped (c : Char) : List Char :=
  if c = '"' then ['\\', '"']
  else if c = '\\' then ['\\', '\\']
  else if c = '\n' then ['\\', 'n']
  else if c = '\r' then ['\\', 'r']
  else if c = '\t' then ['\\', 't']
  else if c = '\x08' then ['\\', 'b']
  else if c = '\x0c' then ['\\', 'f']
  else if c.toNat < 32 then
    ['\\', 'u', '0', '0', hexDigit (c.toNat / 16), hexDigit c.toNat]
  else [c]

/-- A text in quotes, in front of `rest`. -/
def writeText (s : String) (rest : List Char) : List Char :=
  '"' :: (s.toList.flatMap escaped ++ '"' :: rest)

/-- The layout of a decimal: positional from `10 ^ -5` below `10 ^ 16`, always with a point. -/
def layout (d : Number.Shortest.Decimal) : List Char :=
  let digits := Nat.toDigits 10 d.digits
  let point : Int := digits.length + d.exponent
  if 0 ≤ d.exponent ∧ point ≤ 16 then
    digits ++ List.replicate d.exponent.toNat '0' ++ ['.', '0']
  else if 0 < point ∧ point ≤ 16 then
    digits.take point.toNat ++ '.' :: digits.drop point.toNat
  else if -5 < point ∧ point ≤ 0 then
    '0' :: '.' :: (List.replicate (-point).toNat '0' ++ digits)
  else
    let mantissa := if digits.length = 1 then digits else digits.take 1 ++ '.' :: digits.drop 1
    let power := point - 1
    mantissa ++ 'e' :: ((if power < 0 then ['-'] else []) ++ Nat.toDigits 10 power.natAbs)

/-- The text of a float. -/
def floatText (x : Float) : List Char :=
  match Number.Binary.ofFloat x with
  | .finite negative significand exponent =>
    let body :=
      if significand = 0 then ['0', '.', '0']
      else layout (Number.Shortest.decimal significand exponent)
    if negative then '-' :: body else body
  | _ => ['n', 'u', 'l', 'l']

def intText (n : Int) : List Char :=
  if n < 0 then '-' :: Nat.toDigits 10 n.natAbs else Nat.toDigits 10 n.natAbs

mutual

/-- The text of a value in front of `rest`. -/
def write : Json → List Char → List Char
  | .null, rest => 'n' :: 'u' :: 'l' :: 'l' :: rest
  | .bool true, rest => 't' :: 'r' :: 'u' :: 'e' :: rest
  | .bool false, rest => 'f' :: 'a' :: 'l' :: 's' :: 'e' :: rest
  | .int n, rest => intText n ++ rest
  | .float x, rest => floatText x ++ rest
  | .text s, rest => writeText s rest
  | .list elements, rest => '[' :: writeElements true elements rest
  | .object fields, rest => '{' :: writeFields true fields rest

/-- The remaining elements of a list with its closing bracket. -/
def writeElements : Bool → List Json → List Char → List Char
  | _, [], rest => ']' :: rest
  | true, j :: more, rest => write j (writeElements false more rest)
  | false, j :: more, rest => ',' :: write j (writeElements false more rest)

/-- The remaining fields of an object with its closing brace. -/
def writeFields : Bool → List (String × Json) → List Char → List Char
  | _, [], rest => '}' :: rest
  | true, (name, j) :: more, rest =>
    writeText name (':' :: write j (writeFields false more rest))
  | false, (name, j) :: more, rest =>
    ',' :: writeText name (':' :: write j (writeFields false more rest))

end

/-- The text of a value. -/
def toText (j : Json) : String := String.ofList (write j [])

end Jukebox.Json
