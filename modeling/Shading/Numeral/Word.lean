import Shading.Text.Ascii

/-!
# Integer constants of 32 bits

Digits are gathered into a word that is cut back to 32 bits whenever it outgrows them, so digit
strings of any length need one 64-bit register. The register remembers that it was cut.
-/
namespace Shading.Numeral

/-- The digits read so far, modulo two to the power 32, and whether anything was cut off. -/
structure Word where
  register : UInt64 := 0
  overflow : Bool := false
  deriving DecidableEq, Repr

namespace Word

/-- The greatest word. -/
def mask : UInt64 := 0xFFFFFFFF

/-- One more digit at the end. -/
def push (radix : Nat) (w : Word) (b : UInt8) : Word :=
  let next := w.register * radix.toUInt64 + (Text.digitValue b).toUInt64
  if next > mask then { register := next &&& mask, overflow := true }
  else { w with register := next }

/-- The word of a digit string. -/
def ofDigits (radix : Nat) (digits : List UInt8) : Word :=
  digits.foldl (push radix) {}

/-- The 32 bits of the word. -/
def bits (w : Word) : UInt32 :=
  w.register.toUInt32

end Word

end Shading.Numeral
