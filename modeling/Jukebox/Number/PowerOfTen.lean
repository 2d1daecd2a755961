import Jukebox.Number.Binary

/-!
# Decimals read by one scaling

A decimal literal is read as a 64-bit significand and a power of ten: the significand is taken to
the nearest float and multiplied or divided once by the power. A power beyond the largest one of
a float is reached in steps.
-/

namespace Jukebox.Number.PowerOfTen

/-- The largest power of ten that is a float. -/
def largest : Nat := 308

/-- The float nearest to `10 ^ n`. -/
def power (n : Nat) : Float := Float.ofScientific 1 false n

/-- The significand `f` scaled by `10 ^ exponent`, `none` where the result has no float. -/
def scale : Nat → Float → Int → Option Float
  | 0, _, _ => none
  | fuel + 1, f, exponent =>
    if exponent.natAbs ≤ largest then
      if 0 ≤ exponent then
        let g := f * power exponent.natAbs
        if g.isInf then none else some g
      else some (f / power exponent.natAbs)
    else if f == 0 then some f
    else if 0 ≤ exponent then none
    else scale fuel (f / power largest) (exponent + largest)

/-- The float of `± significand * 10 ^ exponent`, `none` when it is out of range. -/
def read (negative : Bool) (significand : Nat) (exponent : Int) : Option Float :=
  (scale 1000 significand.toUInt64.toFloat exponent).map fun f => if negative then -f else f

end Jukebox.Number.PowerOfTen
