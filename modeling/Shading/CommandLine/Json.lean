import Shading.Decimal.Layout

/-!
# Structured output

Nested values are written over several lines, two blanks deeper on each level, with the keys of
an object in order.
-/
namespace Shading.CommandLine

/-- A nested value. -/
inductive Json
  | null
  | bool (b : Bool)
  | number (n : Nat)
  | decimal (d : Decimal)
  | string (s : String)
  | array (items : List Json)
  | object (fields : List (String × Json))

namespace Json

/-- Four hexadecimal digits. -/
def fourDigits (n : Nat) : List Char :=
  let ds := Nat.toDigits 16 n
  List.replicate (4 - ds.length) '0' ++ ds

/-- A character of a string. Controls are escaped, by a letter where there is one. -/
def escape (c : Char) : List Char :=
  if c = '"' || c = '\\' then ['\\', c]
  else if c = '\x08' then ['\\', 'b']
  else if c = '\x0c' then ['\\', 'f']
  else if c = '\n' then ['\\', 'n']
  else if c = '\r' then ['\\', 'r']
  else if c = '\t' then ['\\', 't']
  else if c.toNat < 0x20 then ['\\', 'u'] ++ fourDigits c.toNat
  else [c]

/-- A string in double quotes. -/
def quote (s : String) : String :=
  "\"" ++ String.ofList (s.toList.flatMap escape) ++ "\""

/-- Parts on lines of their own between brackets, at a depth. -/
def enclose (opening closing : String) (depth : Nat) (parts : List String) : String :=
  let indent (n : Nat) : String := String.ofList (List.replicate (2 * n) ' ')
  if parts.isEmpty then opening ++ closing
  else
    opening ++ "\n" ++ ",\n".intercalate (parts.map (indent (depth + 1) ++ ·)) ++ "\n" ++
      indent depth ++ closing

/-- Fractions are positional from 0.00001 up to below 10000000000000000. -/
def decimalLayout : Decimal.Layout :=
  { positionalFrom := -5, scientificFrom := 16, infinity := "null" }

/-- The text of a decimal, always with a point or an exponent. -/
def decimalText (d : Decimal) : String :=
  if d.coefficient = 0 then "0.0" else decimalLayout.text d

mutual

/-- The text of a value at a depth. -/
def render (depth : Nat) : Json → String
  | null => "null"
  | bool b => toString b
  | number n => toString n
  | decimal d => decimalText d
  | string s => quote s
  | array items => enclose "[" "]" depth (renderItems (depth + 1) items)
  | object fields =>
    let ordered := (renderFields (depth + 1) fields).mergeSort fun a b => a.1 ≤ b.1
    enclose "\x7b" "\x7d" depth (ordered.map fun f => quote f.1 ++ ": " ++ f.2)

/-- The texts of values. -/
def renderItems (depth : Nat) : List Json → List String
  | [] => []
  | item :: items => render depth item :: renderItems depth items

/-- The texts of fields, with their keys. -/
def renderFields (depth : Nat) : List (String × Json) → List (String × String)
  | [] => []
  | (key, value) :: fields => (key, render depth value) :: renderFields depth fields

end

end Json

end Shading.CommandLine
