/-!
# ASCII bytes

Sources are bytes; the characters that matter to a reader of sources are all ASCII.
-/
namespace Shading

/-- The byte of an ASCII character. -/
def ascii (c : Char) : UInt8 :=
  c.toNat.toUInt8

namespace Text

/-- Whether the byte ends a line. -/
def isBreak (b : UInt8) : Bool :=
  b = ascii '\n' || b = ascii '\r'

/-- Whether the byte is a blank within a line: a space, a tab, a vertical tab or a form feed. -/
def isBlank (b : UInt8) : Bool :=
  b = ascii ' ' || b = ascii '\t' || b = ascii '\x0b' || b = ascii '\x0c'

/-- What follows the line break in front, which is a line feed, a carriage return, or both in
this order: carriage return, line feed. -/
def afterBreak? : List UInt8 → Option (List UInt8)
  | [] => none
  | b :: bs =>
    if b = ascii '\r' && bs.head? = some (ascii '\n') then some bs.tail
    else if isBreak b then some bs
    else none

theorem suffix_of_afterBreak? {bs rest : List UInt8} (h : afterBreak? bs = some rest) :
    rest <:+ bs ∧ rest.length < bs.length := by
  cases bs with
  | nil => simp [afterBreak?] at h
  | cons b bs =>
    rw [afterBreak?] at h
    split at h
    · obtain rfl : bs.tail = rest := by simpa using h
      exact ⟨(List.tail_suffix bs).trans (List.suffix_cons b bs), by
        simp only [List.length_tail, List.length_cons]
        omega⟩
    · split at h
      · obtain rfl : bs = rest := by simpa using h
        exact ⟨List.suffix_cons b bs, by simp⟩
      · simp at h

/-- The value of a digit in any radix up to sixteen; sixteen for bytes that are no digit. -/
def digitValue (b : UInt8) : Nat :=
  if ascii '0' ≤ b && b ≤ ascii '9' then b.toNat - '0'.toNat
  else if ascii 'a' ≤ b && b ≤ ascii 'f' then b.toNat - 'a'.toNat + 10
  else if ascii 'A' ≤ b && b ≤ ascii 'F' then b.toNat - 'A'.toNat + 10
  else 16

/-- Whether the byte is a digit in the radix. -/
def isDigitIn (radix : Nat) (b : UInt8) : Bool :=
  digitValue b < radix

/-- The number that digits stand for in the radix. -/
def valueIn (radix : Nat) (digits : List UInt8) : Nat :=
  digits.foldl (fun value b => value * radix + digitValue b) 0

/-- A byte as two hexadecimal digits. -/
def hexByte (b : UInt8) : String :=
  String.ofList [Nat.digitChar (b.toNat / 16), Nat.digitChar (b.toNat % 16)]

end Text

end Shading
