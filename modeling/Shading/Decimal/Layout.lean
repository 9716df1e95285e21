import Shading.Decimal.Shortest

/-!
# Decimals in writing

A decimal is written positionally, with at least one digit after the point, or in scientific
notation with one digit before the point. A layout says which magnitudes are positional.
-/
namespace Shading.Decimal

/-- How numbers are written: positionally from ten to the power `positionalFrom` up to below ten
to the power `scientificFrom`, scientifically elsewhere. -/
structure Layout where
  positionalFrom : Int
  scientificFrom : Int
  infinity : String
  deriving Repr

/-- The digits of `n`. -/
def digits (n : Nat) : List Char :=
  Nat.toDigits 10 n

/-- The power of ten of a decimal's first digit. -/
def magnitude (d : Decimal) : Int :=
  d.exponent + (digits d.coefficient).length - 1

/-- A decimal with its point in place and a digit on either side of it. -/
def positional (d : Decimal) : String :=
  let ds := digits d.coefficient
  let whole :=
    if d.exponent < 0 then ds.take (ds.length - (-d.exponent).toNat)
    else ds ++ List.replicate d.exponent.toNat '0'
  let fraction :=
    if d.exponent < 0 then
      List.replicate ((-d.exponent).toNat - ds.length) '0' ++
        ds.drop (ds.length - (-d.exponent).toNat)
    else []
  String.ofList (if whole.isEmpty then ['0'] else whole) ++ "." ++
    String.ofList (if fraction.isEmpty then ['0'] else fraction)

/-- A decimal as its first digit, the others after a point, and the power of ten. -/
def scientific (d : Decimal) : String :=
  let ds := digits d.coefficient
  let rest := ds.drop 1
  String.ofList (ds.take 1) ++ (if rest.isEmpty then "" else "." ++ String.ofList rest) ++
    "e" ++ toString d.magnitude

/-- The text of a decimal in a layout. -/
def Layout.text (layout : Layout) (d : Decimal) : String :=
  if layout.positionalFrom ≤ d.magnitude ∧ d.magnitude < layout.scientificFrom then d.positional
  else d.scientific

/-- The text of a binary number in a layout: zero, infinity, or its shortest decimal. -/
def Layout.textOf (layout : Layout) {f : Binary.Format} (v : Binary.Value f) : String :=
  if v.bits = 0 then Decimal.positional ⟨0, 0⟩
  else if v.isInfinite then layout.infinity
  else layout.text (shortest v)

end Shading.Decimal
