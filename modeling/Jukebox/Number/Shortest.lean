import Jukebox.Number.Binary

/-!
# The fewest digits that read back

Every finite float lies in an interval of reals that round to it. The shortest decimal in that
interval is found grid by grid, from one digit to seventeen, in exact arithmetic: on each grid
only the two neighbours of the value can be nearest.
-/

namespace Jukebox.Number.Shortest

/-- A decimal `digits * 10 ^ exponent`. -/
structure Decimal where
  digits : Nat
  exponent : Int
  deriving DecidableEq, Repr

/-- The reals that round to a float, in units of `2 ^ exponent`. -/
structure Interval where
  low : Nat
  value : Nat
  high : Nat
  exponent : Int
  closed : Bool
  deriving Repr

/-- The interval of `significand * 2 ^ exponent`; below a power of two it is narrower. -/
def interval (significand : Nat) (exponent : Int) : Interval :=
  let narrow := significand = Nat.pow 2 52 ∧ -1074 < exponent
  { low := 4 * significand - (if narrow then 1 else 2)
    value := 4 * significand
    high := 4 * significand + 2
    exponent := exponent - 2
    closed := significand % 2 = 0 }

/-- Both sides of a comparison of `c * 10 ^ k` with `x * 2 ^ e`, as naturals. -/
def sides (c : Nat) (k : Int) (x : Nat) (e : Int) : Nat × Nat :=
  (c * Nat.pow 10 k.toNat * Nat.pow 2 (-e).toNat, x * Nat.pow 2 e.toNat * Nat.pow 10 (-k).toNat)

def Interval.contains (i : Interval) (c : Nat) (k : Int) : Bool :=
  let (a, low) := sides c k i.low i.exponent
  let (b, high) := sides c k i.high i.exponent
  if i.closed then low ≤ a && b ≤ high else low < a && b < high

/-- The point of the grid of step `10 ^ k` next below the value. -/
def Interval.below (i : Interval) (k : Int) : Nat :=
  let (step, value) := sides 1 k i.value i.exponent
  value / step

/-- Whether the value lies nearer to `c` than to `c + 1` on the grid of step `10 ^ k`; of a tie
the even one is taken. -/
def Interval.prefersLower (i : Interval) (c : Nat) (k : Int) : Bool :=
  let (a, value) := sides c k i.value i.exponent
  let (b, _) := sides (c + 1) k i.value i.exponent
  value - a < b - value || (value - a == b - value && c % 2 == 0)

/-- The nearest point in the interval on the grid of step `10 ^ k`. -/
def Interval.hit (i : Interval) (k : Int) : Option Nat :=
  let c := i.below k
  match i.contains c k && c != 0, i.contains (c + 1) k with
  | true, true => some (if i.prefersLower c k then c else c + 1)
  | true, false => some c
  | false, true => some (c + 1)
  | false, false => none

/-- The first grid with a hit, each ten times finer than the one before. -/
def Interval.search (i : Interval) : Nat → Int → Option Decimal
  | 0, _ => none
  | tries + 1, k =>
    match i.hit k with
    | some digits => some ⟨digits, k⟩
    | none => i.search tries (k - 1)

/-- A digit count moved so that the last digit is not zero. -/
def strip : Nat → Decimal → Decimal
  | 0, d => d
  | fuel + 1, d =>
    if d.digits ≠ 0 ∧ d.digits % 10 = 0 then strip fuel ⟨d.digits / 10, d.exponent + 1⟩ else d

/-- The shortest decimal that rounds to `significand * 2 ^ exponent`. -/
def decimal (significand : Nat) (exponent : Int) : Decimal :=
  if significand = 0 then ⟨0, 0⟩
  else
    let i := interval significand exponent
    let top : Int := (((exponent + 64) * 30103) / 100000) + 1
    strip 400 ((i.search 400 top).getD ⟨0, 0⟩)

end Jukebox.Number.Shortest
