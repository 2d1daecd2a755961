/-!
# Binary floats taken apart

A finite float is a sign, a significand and a power of two. Rounding and casting are defined on
these three, in exact arithmetic.
-/

namespace Jukebox.Number

/-- A float read from its bits: the value of `finite` is `± significand * 2 ^ exponent`. -/
inductive Binary where
  | nan
  | infinite (negative : Bool)
  | finite (negative : Bool) (significand : Nat) (exponent : Int)
  deriving DecidableEq, Repr

namespace Binary

/-- The sign, significand and exponent that a bit pattern of a double stands for. -/
def ofBits (bits : Nat) : Binary :=
  let negative := decide (bits / Nat.pow 2 63 % 2 = 1)
  let field : Nat := bits / Nat.pow 2 52 % Nat.pow 2 11
  let fraction : Nat := bits % Nat.pow 2 52
  if field = 2047 then
    if fraction = 0 then .infinite negative else .nan
  else if field = 0 then .finite negative fraction (-1074)
  else .finite negative (fraction + Nat.pow 2 52) (Int.ofNat field - 1075)

def ofFloat (x : Float) : Binary := ofBits x.toBits.toNat

/-- `significand * 2 ^ exponent` as a quotient of two naturals. -/
def quotient (significand : Nat) (exponent : Int) : Nat × Nat :=
  if 0 ≤ exponent then (significand * Nat.pow 2 exponent.toNat, 1)
  else (significand, Nat.pow 2 (-exponent).toNat)

end Binary

/-- The quotient rounded to the nearest natural, a half to the even one. -/
def roundQuotient (num den : Nat) : Nat :=
  let down := num / den
  let twice := 2 * (num % den)
  if twice < den then down
  else if den < twice then down + 1
  else if down % 2 = 0 then down else down + 1

/-- The float cut off at its point and clamped into the range from `low` to `high`; no number is
zero. -/
def truncateWithin (low high : Int) (x : Float) : Int :=
  match Binary.ofFloat x with
  | .nan => 0
  | .infinite negative => if negative then low else high
  | .finite negative significand exponent =>
    let (num, den) := Binary.quotient significand exponent
    let whole : Int := ((num / den : Nat) : Int)
    max low (min high (if negative then -whole else whole))

/-- The float as a signed 64-bit integer. -/
def toSigned64 (x : Float) : Int := truncateWithin Int64.minValue.toInt Int64.maxValue.toInt x

/-- The float as an unsigned 32-bit integer. -/
def toUnsigned32 (x : Float) : UInt32 :=
  UInt32.ofNat (truncateWithin 0 (Int.ofNat UInt32.size - 1) x).toNat

/-- The float as an unsigned 64-bit integer. -/
def toUnsigned64 (x : Float) : UInt64 :=
  UInt64.ofNat (truncateWithin 0 (Int.ofNat UInt64.size - 1) x).toNat

/-- The float nearest to a natural number of at most 64 bits. -/
def floatOfNat (n : Nat) : Float := n.toUInt64.toFloat

/-- The float nearest to an integer of at most 64 bits. -/
def floatOfInt (n : Int) : Float :=
  if n < 0 then -(floatOfNat n.natAbs) else floatOfNat n.toNat

/-- The greatest whole float that is not above a float. -/
def floor (x : Float) : Float :=
  match Binary.ofFloat x with
  | .finite negative significand exponent =>
    let (num, den) := Binary.quotient significand exponent
    if num % den = 0 then x
    else if negative then -(floatOfNat (num / den + 1))
    else floatOfNat (num / den)
  | _ => x

end Jukebox.Number
