import Shading.Decimal.Layout
import Shading.Identifier
import Shading.Location
import Shading.Punct

/-!
# Tokens

Tokens are what a source is made of, blanks and comments included. Each token has a text, in
which numbers are written anew from their value.
-/
namespace Shading

/-- A token of a source. `eof` stands for its end and `invalid` for text that is no token. -/
inductive Token
  | eof
  | newline
  | blank
  | comment
  | invalid
  | identifier (name : String)
  | int (value : Int32)
  | uint (value : UInt32)
  | float (value : Binary.Value .single)
  | double (value : Binary.Value .double)
  | string (content : String)
  | punct (p : Punct)
  deriving DecidableEq, Repr

namespace Token

/-- Whether the token carries no meaning: a blank, a comment or invalid text. -/
def isSkipped : Token → Bool
  | blank | comment | invalid => true
  | _ => false

/-- The name that an identifier spells. -/
def name? : Token → Option String
  | identifier name => some name
  | _ => none

/-- Floating-point constants are positional from 0.0001 up to below 10000000000000000. -/
def constantLayout : Decimal.Layout :=
  { positionalFrom := -4, scientificFrom := 16, infinity := "inf" }

/-- The text of a token. -/
def text : Token → String
  | eof => "<EOF>"
  | newline => "\n"
  | blank => " "
  | comment => "/* */"
  | invalid => "<error>"
  | identifier name => name
  | int value => toString value.toInt
  | uint value => toString value.toNat ++ "u"
  | float value => constantLayout.textOf value
  | double value => constantLayout.textOf value ++ "lf"
  | string content => "\"" ++ content ++ "\""
  | punct p => p.spelling

end Token

/-- A token with the place where it begins. -/
structure LocatedToken where
  location : Location
  token : Token
  deriving DecidableEq, Repr

end Shading
