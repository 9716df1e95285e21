import Shading.Text.Ascii
import Shading.Text.Utf8

/-!
# Identifiers

An identifier is a letter or underscore followed by letters, digits and underscores. Only ASCII
letters and digits count, in sources and in the names of macros alike.
-/
namespace Shading.Identifier

/-- Whether the byte is an ASCII letter. -/
def isLetter (b : UInt8) : Bool :=
  (ascii 'A' ≤ b && b ≤ ascii 'Z') || (ascii 'a' ≤ b && b ≤ ascii 'z')

/-- Whether an identifier may begin with the byte. -/
def canStart (b : UInt8) : Bool :=
  isLetter b || b = ascii '_'

/-- Whether an identifier may go on with the byte. -/
def canContinue (b : UInt8) : Bool :=
  canStart b || Text.isDigitIn 10 b

/-- Whether the bytes spell an identifier. -/
def spells : List UInt8 → Bool
  | [] => false
  | b :: bs => canStart b && bs.all canContinue

/-- Whether the name is an identifier. -/
def isValid (name : String) : Bool :=
  spells (Text.bytes name)

end Shading.Identifier
