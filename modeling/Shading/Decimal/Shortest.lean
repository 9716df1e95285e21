import Shading.Binary.Format

/-!
# The shortest decimal of a binary number

The decimals that read back as a binary number fill an interval around it. The shortest of them
lies on the coarsest decimal grid that meets the interval; if two points of that grid do, the
nearer one is taken, and of two equally near ones the greater.
-/
namespace Shading

/-- The number `coefficient` times ten to the power `exponent`. -/
structure Decimal where
  coefficient : Nat
  exponent : Int
  deriving DecidableEq, Repr

namespace Decimal

/-- Positive rationals around a value, all over one denominator; `closed` if the ends belong. -/
structure Interval where
  low : Nat
  value : Nat
  high : Nat
  den : Nat
  closed : Bool
  deriving DecidableEq, Repr

namespace Interval

/-- Whether the integer `n` lies in the interval. -/
def contains (i : Interval) (n : Nat) : Bool :=
  if i.closed then i.low ≤ n * i.den && n * i.den ≤ i.high
  else i.low < n * i.den && n * i.den < i.high

/-- The interval in units of ten to the power `k`. -/
def inUnits (i : Interval) (k : Int) : Interval :=
  let up := Nat.pow 10 (-k).toNat
  { i with low := i.low * up, value := i.value * up, high := i.high * up
           den := i.den * Nat.pow 10 k.toNat }

/-- The integer of the interval nearest to its value, if a neighbour of the value is in it. -/
def nearest? (i : Interval) : Option Nat :=
  let floor := i.value / i.den
  match i.contains floor, i.contains (floor + 1) with
  | true, true => some (if 2 * i.value < (2 * floor + 1) * i.den then floor else floor + 1)
  | true, false => some floor
  | false, true => some (floor + 1)
  | false, false => none

/-- The decimal on the first grid with a point in the interval, of the `steps` grids from units
of ten to the power `k` downwards. -/
def shortest? (i : Interval) : (steps : Nat) → (k : Int) → Option Decimal
  | 0, _ => none
  | steps + 1, k =>
    match (i.inUnits k).nearest? with
    | some n => some ⟨n, k⟩
    | none => i.shortest? steps (k - 1)

end Interval

/-- The rationals that round to a finite positive value. A value that begins a binade has its
lower neighbour at half the distance. -/
def readings {f : Binary.Format} (v : Binary.Value f) : Interval :=
  let unit := Nat.pow 2 v.shift
  let m := v.significand
  let below := if m = f.binade ∧ 0 < v.shift then 1 else 2
  { low := (4 * m - below) * unit
    value := 4 * m * unit
    high := (4 * m + 2) * unit
    den := 4 * Nat.pow 2 f.finest
    closed := m % 2 = 0 }

/-- The shortest decimal that reads back as the finite positive value `v`. -/
def shortest {f : Binary.Format} (v : Binary.Value f) : Decimal :=
  let i := readings v
  let top := (Nat.toDigits 10 (i.value / i.den)).length
  (i.shortest? (top + f.finest + 1) top).getD ⟨0, 0⟩

end Decimal

end Shading
