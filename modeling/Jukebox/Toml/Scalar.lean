import Jukebox.Json.Basic
import Jukebox.Number.PowerOfTen
import Jukebox.Text.Digit

/-!
# Numbers, truth values and moments in TOML

The values that are written without quotes. Digits may be grouped by underscores, each of which
stands between two digits; a decimal number starts with no superfluous zero. A moment is a date, a
time or both; it is only recognised, since no setting is one.
-/

namespace Jukebox.Toml

/-- The characters of a value without quotes. -/
def isScalarChar (c : Char) : Bool :=
  c.isAlphanum || c = '+' || c = '-' || c = '.' || c = ':' || c = '_'

/-! ## Moments -/

/-- The number of two digits. -/
def twoDigits (a b : Char) : Option Nat :=
  if a.isDigit && b.isDigit then some (Text.numeral 10 [a, b]) else none

def isLeap (year : Nat) : Bool := year % 4 = 0 && (year % 100 != 0 || year % 400 = 0)

def daysIn (year month : Nat) : Nat :=
  if month = 2 then (if isLeap year then 29 else 28)
  else if month = 4 ∨ month = 6 ∨ month = 9 ∨ month = 11 then 30
  else 31

/-- The rest behind a date. -/
def dropDate : List Char → Option (List Char)
  | y₁ :: y₂ :: y₃ :: y₄ :: '-' :: m₁ :: m₂ :: '-' :: d₁ :: d₂ :: rest => do
    let century ← twoDigits y₁ y₂
    let year ← twoDigits y₃ y₄
    let month ← twoDigits m₁ m₂
    let day ← twoDigits d₁ d₂
    if 1 ≤ month ∧ month ≤ 12 ∧ 1 ≤ day ∧ day ≤ daysIn (century * 100 + year) month then
      some rest
    else none
  | _ => none

/-- The rest behind the part of a second. -/
def dropFraction : List Char → Option (List Char)
  | '.' :: c :: rest => if c.isDigit then some (rest.dropWhile Char.isDigit) else none
  | '.' :: [] => none
  | cs => some cs

/-- The rest behind the seconds of a time, which may be left out. -/
def dropSeconds : List Char → Option (List Char)
  | ':' :: s₁ :: s₂ :: rest => do
    if (← twoDigits s₁ s₂) ≤ 60 then dropFraction rest else none
  | ':' :: _ => none
  | cs => some cs

/-- The rest behind hours and minutes. -/
def dropMinutes : List Char → Option (List Char)
  | h₁ :: h₂ :: ':' :: m₁ :: m₂ :: rest => do
    if (← twoDigits h₁ h₂) ≤ 23 ∧ (← twoDigits m₁ m₂) ≤ 59 then some rest else none
  | _ => none

/-- The rest behind a time of day. -/
def dropTime (cs : List Char) : Option (List Char) := (dropMinutes cs).bind dropSeconds

/-- Whether the text is nothing or an offset from universal time. -/
def isOffset : List Char → Bool
  | [] => true
  | ['Z'] => true
  | ['z'] => true
  | '+' :: rest => dropMinutes rest == some []
  | '-' :: rest => dropMinutes rest == some []
  | _ => false

def isDate (cs : List Char) : Bool := dropDate cs == some []

/-- Whether the text is a date, a time, or a date and a time. -/
def isMoment (cs : List Char) : Bool :=
  match dropDate cs with
  | some [] => true
  | some (c :: rest) => (c = 'T' || c = 't' || c = ' ') && (dropTime rest).any isOffset
  | none => dropTime cs == some []

/-- What stands for a moment: a record of its text. -/
def moment (cs : List Char) : Json := .object [("moment", .text (String.ofList cs))]

/-! ## Numbers -/

/-- The digits of a group without the underscores between them. The flag says that a digit stands
in front. -/
def ungroup (base : Nat) : Bool → List Char → Option (List Char)
  | behind, [] => if behind then some [] else none
  | behind, c :: rest =>
    if c = '_' then (if behind then ungroup base false rest else none)
    else if Text.isDigitIn base c then (ungroup base true rest).map (c :: ·)
    else none

/-- The integers that can be told apart. -/
def inRange (n : Int) : Bool := -Int.ofNat (Nat.pow 2 127) ≤ n && n < Int.ofNat (Nat.pow 2 128)

/-- An integer in range. -/
def integer (n : Int) : Option Json := if inRange n then some (.int n) else none

/-- Whether no further digit follows a zero in front. -/
def isPlainStart : List Char → Bool
  | '0' :: _ :: _ => false
  | _ => true

/-- The digits that `PowerOfTen.read` takes into a significand. -/
def significandDigits : Nat := 19

/-- The float of digits and a power of ten, `none` when it is beyond the floats. -/
def scaled (negative : Bool) (digits : List Char) (exponent : Int) : Option Json :=
  let digits := digits.dropWhile (· = '0')
  let dropped : Int := digits.length - (digits.take significandDigits).length
  let significand := Text.numeral 10 (digits.take significandDigits)
  (Number.PowerOfTen.read negative significand (exponent + dropped)).map .float

/-- The exponent that the text behind its letter stands for. -/
def exponentOf : List Char → Option Int
  | '+' :: rest => (ungroup 10 false rest).map fun digits => (Text.numeral 10 digits : Int)
  | '-' :: rest => (ungroup 10 false rest).map fun digits => -(Text.numeral 10 digits : Int)
  | rest => (ungroup 10 false rest).map fun digits => (Text.numeral 10 digits : Int)

def isExponentLetter (c : Char) : Bool := c = 'e' || c = 'E'

/-- A float from the digits behind its point on, with the digits in front of it. -/
def fraction (negative : Bool) (whole : List Char) (cs : List Char) : Option Json := do
  let part ← ungroup 10 false (cs.takeWhile (!isExponentLetter ·))
  let shift : Int := part.length
  match cs.dropWhile (!isExponentLetter ·) with
  | [] => scaled negative (whole ++ part) (-shift)
  | _ :: rest => scaled negative (whole ++ part) ((← exponentOf rest) - shift)

/-- A decimal number behind its sign. -/
def decimal (negative : Bool) (cs : List Char) : Option Json := do
  let whole ← ungroup 10 false (cs.takeWhile fun c => c.isDigit || c = '_')
  if !isPlainStart whole then none
  else
    match cs.dropWhile fun c => c.isDigit || c = '_' with
    | [] =>
      let n : Int := Text.numeral 10 whole
      integer (if negative then -n else n)
    | '.' :: rest => fraction negative whole rest
    | c :: rest => if isExponentLetter c then scaled negative whole (← exponentOf rest) else none

/-- An integer in the digits of a base. -/
def inBase (base : Nat) (cs : List Char) : Option Json := do
  integer (Text.numeral base (← ungroup base false cs))

def infinity : Float := 1.0 / 0.0

def notANumber : Float := 0.0 / 0.0

/-- A number behind its sign. -/
def signed (negative : Bool) (cs : List Char) : Option Json :=
  if cs = ['i', 'n', 'f'] then some (.float (if negative then -infinity else infinity))
  else if cs = ['n', 'a', 'n'] then some (.float notANumber)
  else decimal negative cs

/-- The value of a text without quotes. -/
def scalar (cs : List Char) : Option Json :=
  if isMoment cs then some (moment cs)
  else
    match cs with
    | ['t', 'r', 'u', 'e'] => some (.bool true)
    | ['f', 'a', 'l', 's', 'e'] => some (.bool false)
    | '+' :: rest => signed false rest
    | '-' :: rest => signed true rest
    | '0' :: 'x' :: rest => inBase 16 rest
    | '0' :: 'o' :: rest => inBase 8 rest
    | '0' :: 'b' :: rest => inBase 2 rest
    | cs => signed false cs

/-- A value without quotes at the front of the text. A blank may part a date from a time. -/
def readScalar (cs : List Char) : Option (Json × List Char) :=
  let word := cs.takeWhile isScalarChar
  let rest := cs.dropWhile isScalarChar
  match rest with
  | ' ' :: c :: more =>
    if isDate word && c.isDigit then
      let time := (c :: more).takeWhile isScalarChar
      (scalar (word ++ ' ' :: time)).map fun j => (j, (c :: more).dropWhile isScalarChar)
    else (scalar word).map fun j => (j, rest)
  | _ => (scalar word).map fun j => (j, rest)

end Jukebox.Toml
