import Shading.Text.Utf8

/-!
# Punctuators

Each punctuator has one spelling. A source is read greedily: the longest spelling that it begins
with is taken.
-/
namespace Shading

/-- A punctuator. -/
inductive Punct
  | leftParen | rightParen | leftBracket | rightBracket | leftBrace | rightBrace
  | dot | comma | colon | semicolon | equal | bang | dash | tilde | plus | star | slash
  | percent | leftAngle | rightAngle | verticalBar | caret | ampersand | question | hash
  | shiftLeft | shiftRight | increment | decrement | lessEqual | greaterEqual | equalTo
  | notEqualTo | andAlso | orElse | exclusiveOr
  | assignMul | assignDiv | assignAdd | assignMod | assignShiftLeft | assignShiftRight
  | assignAnd | assignXor | assignOr | assignSub
  deriving DecidableEq, Repr

namespace Punct

/-- The spelling of a punctuator. -/
def spelling : Punct → String
  | leftParen => "(" | rightParen => ")"
  | leftBracket => "[" | rightBracket => "]"
  | leftBrace => "\x7b" | rightBrace => "\x7d"
  | dot => "." | comma => "," | colon => ":" | semicolon => ";"
  | equal => "=" | bang => "!" | dash => "-" | tilde => "~" | plus => "+" | star => "*"
  | slash => "/" | percent => "%" | leftAngle => "<" | rightAngle => ">"
  | verticalBar => "|" | caret => "^" | ampersand => "&" | question => "?" | hash => "#"
  | shiftLeft => "<<" | shiftRight => ">>" | increment => "++" | decrement => "--"
  | lessEqual => "<=" | greaterEqual => ">=" | equalTo => "==" | notEqualTo => "!="
  | andAlso => "&&" | orElse => "||" | exclusiveOr => "^^"
  | assignMul => "*=" | assignDiv => "/=" | assignAdd => "+=" | assignMod => "%="
  | assignShiftLeft => "<<=" | assignShiftRight => ">>="
  | assignAnd => "&=" | assignXor => "^=" | assignOr => "|=" | assignSub => "-="

/-- All punctuators, longer spellings first. -/
def all : List Punct :=
  [assignShiftLeft, assignShiftRight,
    shiftLeft, shiftRight, increment, decrement, lessEqual, greaterEqual, equalTo, notEqualTo,
    andAlso, orElse, exclusiveOr, assignMul, assignDiv, assignAdd, assignMod, assignAnd,
    assignXor, assignOr, assignSub,
    leftParen, rightParen, leftBracket, rightBracket, leftBrace, rightBrace, dot, comma, colon,
    semicolon, equal, bang, dash, tilde, plus, star, slash, percent, leftAngle, rightAngle,
    verticalBar, caret, ampersand, question, hash]

/-- The bytes of the spelling. -/
def bytes (p : Punct) : List UInt8 :=
  Text.bytes p.spelling

/-- The punctuator with the longest spelling that the bytes begin with. -/
def ofBytes? (bs : List UInt8) : Option Punct :=
  all.find? fun p => p.bytes.isPrefixOf bs

/-- The bracket that closes an opening bracket. -/
def closer? : Punct → Option Punct
  | leftParen => some rightParen
  | leftBracket => some rightBracket
  | leftBrace => some rightBrace
  | _ => none

/-- Whether the punctuator is a closing bracket. -/
def isCloser (p : Punct) : Bool :=
  p = rightParen || p = rightBracket || p = rightBrace

theorem mem_all (p : Punct) : p ∈ all := by
  cases p <;> decide

theorem bytes_length_pos (p : Punct) : 0 < p.bytes.length := by
  cases p <;> decide

end Punct

end Shading
