import Jukebox.Number.Binary

/-!
# Fixed point text

A float written with a fixed number of decimal places. The value is rounded exactly, a half to
the even neighbour, and the sign of a negative zero is kept.
-/

namespace Jukebox.Number.FixedPoint

/-- The decimal digits of `n`, filled up with zeros on the left to at least `width` places. -/
def padded (width n : Nat) : List Char :=
  let digits := Nat.toDigits 10 n
  List.replicate (width - digits.length) '0' ++ digits

/-- `units` counted in the last of `places` decimal places. -/
def ofUnits (places units : Nat) : List Char :=
  let whole := Nat.toDigits 10 (units / Nat.pow 10 places)
  if places = 0 then whole else whole ++ '.' :: padded places (units % Nat.pow 10 places)

def text (places : Nat) (x : Float) : String :=
  match Binary.ofFloat x with
  | .nan => "NaN"
  | .infinite negative => if negative then "-inf" else "inf"
  | .finite negative significand exponent =>
    let (num, den) := Binary.quotient significand exponent
    let body := ofUnits places (roundQuotient (num * Nat.pow 10 places) den)
    String.ofList (if negative then '-' :: body else body)

end Jukebox.Number.FixedPoint
