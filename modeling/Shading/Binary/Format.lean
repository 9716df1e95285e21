/-!
# Binary floating-point numbers

A format fixes the bits of the significand and of the exponent. Its non-negative numbers are
held by their bit pattern: patterns count the numbers upwards from zero in units that double at
every power of two, and the pattern after the last number stands for infinity. A quotient is
rounded to the nearest number of the format, a tie to the even pattern, with all arithmetic on
natural numbers.
-/
namespace Shading.Binary

/-- A format with `precision` bits of significand and `exponentBits` bits of exponent. -/
structure Format where
  precision : Nat
  exponentBits : Nat
  deriving DecidableEq, Repr

namespace Format

/-- Numbers of 32 bits. -/
def single : Format := { precision := 24, exponentBits := 8 }

/-- Numbers of 64 bits. -/
def double : Format := { precision := 53, exponentBits := 11 }

/-- The least positive number of the format is 1 over two to this power. -/
def finest (f : Format) : Nat :=
  Nat.pow 2 (f.exponentBits - 1) + f.precision - 3

/-- The numbers in one binade: the significands with a leading one. -/
def binade (f : Format) : Nat :=
  Nat.pow 2 (f.precision - 1)

/-- The pattern of infinity. -/
def infinityBits (f : Format) : Nat :=
  (Nat.pow 2 f.exponentBits - 1) * f.binade

end Format

/-- The integer nearest to `num / den`; of two, the even one. -/
def divNearest (num den : Nat) : Nat :=
  let floor := num / den
  let twice := 2 * (num % den)
  if den < twice ∨ (twice = den ∧ floor % 2 = 1) then floor + 1 else floor

/-- A non-negative number of a format, or infinity. -/
structure Value (f : Format) where
  bits : Nat
  deriving DecidableEq, Repr

namespace Value

variable {f : Format}

/-- Zero. -/
def zero : Value f := ⟨0⟩

/-- The number beyond all others. -/
def infinity : Value f := ⟨f.infinityBits⟩

/-- Whether the value is infinite. -/
def isInfinite (v : Value f) : Bool :=
  f.infinityBits ≤ v.bits

/-- How often the unit has doubled below the value's binade. -/
def shift (v : Value f) : Nat :=
  v.bits / f.binade - 1

/-- The value in units of its own binade. -/
def significand (v : Value f) : Nat :=
  v.bits - v.shift * f.binade

/-- The value of the format nearest to `num / den`, infinity if that lies beyond all numbers. -/
def round (num den : Nat) : Value f :=
  let scaled := num * Nat.pow 2 f.finest
  let shift := (scaled / den).log2 + 1 - f.precision
  ⟨min (shift * f.binade + divNearest scaled (den * Nat.pow 2 shift)) f.infinityBits⟩

/-- The value nearest to `coefficient` times ten to the power `exponent`. Numbers that are too
large or too small for the format whatever their digits are settled without arithmetic. -/
def ofDecimal (coefficient : Nat) (exponent : Int) : Value f :=
  let top := exponent + (Nat.toDigits 10 coefficient).length
  if coefficient = 0 ∨ top < -(f.finest : Int) then zero
  else if top > Nat.pow 2 (f.exponentBits - 1) then infinity
  else if exponent < 0 then round coefficient (Nat.pow 10 (-exponent).toNat)
  else round (coefficient * Nat.pow 10 exponent.toNat) 1

/-- The nearest value of another format. -/
def convert {g : Format} (v : Value f) : Value g :=
  if v.isInfinite then infinity
  else round (v.significand * Nat.pow 2 v.shift) (Nat.pow 2 f.finest)

end Value

end Shading.Binary
