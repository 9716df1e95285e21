import Shading.Text.Ascii
import Shading.Text.Pad

/-!
# Locations in a source

A location counts complete lines and the bytes read on the current line, both from zero.
Readers see lines counted from one.
-/
namespace Shading

/-- A place in a source: `line` line breaks before it, then `column` bytes. -/
structure Location where
  line : Nat := 0
  column : Nat := 0
  deriving DecidableEq, Repr, Inhabited

namespace Location

/-- Locations are ordered by line, then by column. -/
instance : Ord Location where
  compare a b := (compare a.line b.line).then (compare a.column b.column)

/-- The start of a source. -/
def start : Location := {}

/-- The place `n` bytes further on the same line. -/
def right (n : Nat) (l : Location) : Location :=
  { l with column := l.column + n }

/-- The start of the next line. -/
def nextLine (l : Location) : Location :=
  { line := l.line + 1, column := 0 }

/-- The place behind the bytes `bs`. A carriage return with a line feed behind it is one line
break, alone it is one as well. -/
def after (l : Location) : List UInt8 → Location
  | [] => l
  | b :: bs =>
    if b = ascii '\r' && bs.head? = some (ascii '\n') then l.after bs
    else if Text.isBreak b then l.nextLine.after bs
    else (l.right 1).after bs

/-- The text of a location: the line counted from one, in three places, then the column in two. -/
def label (l : Location) : String :=
  Text.padLeft 3 (toString (l.line + 1)) ++ ":" ++ Text.padLeft 2 (toString l.column)

/-- A message with the place it speaks about in front. -/
def describe (l : Location) (message : String) : String :=
  l.label ++ ": " ++ message

end Location

end Shading
