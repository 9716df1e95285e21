import Shading.Binary.Format

/-!
# Arithmetic with binary numbers

Sums and products of finite numbers are rounded to the nearest number of the format.
-/
namespace Shading.Binary.Value

variable {f : Format}

/-- A finite value in units of the least positive number of the format. -/
def units (v : Value f) : Nat :=
  v.significand * Nat.pow 2 v.shift

/-- The sum of two finite values. -/
def add (v w : Value f) : Value f :=
  round (v.units + w.units) (Nat.pow 2 f.finest)

/-- The product of two finite values. -/
def mul (v w : Value f) : Value f :=
  round (v.units * w.units) (Nat.pow 2 f.finest * Nat.pow 2 f.finest)

end Shading.Binary.Value
