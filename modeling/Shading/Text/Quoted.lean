import Shading.Text.Printable

/-!
# Quoted text

A text is shown in double quotes, with an escape for each character that would not be told from
its picture: quotes, backslashes, line breaks, tabs, NUL, and all that is not plain.
-/
namespace Shading.Text

/-- A character by its code point. -/
def numbered (c : Char) : List Char :=
  ['\\', 'u', '\x7b'] ++ Nat.toDigits 16 c.toNat ++ ['\x7d']

/-- A character within quotes. -/
def escape (c : Char) : List Char :=
  if c = '\x00' then ['\\', '0']
  else if c = '\t' then ['\\', 't']
  else if c = '\n' then ['\\', 'n']
  else if c = '\r' then ['\\', 'r']
  else if c = '"' || c = '\\' then ['\\', c]
  else if isPlain c then [c]
  else numbered c

/-- A text in double quotes. -/
def quote (s : String) : String :=
  "\"" ++ String.ofList (s.toList.flatMap escape) ++ "\""

end Shading.Text
