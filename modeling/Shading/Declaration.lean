import Shading.Error
import Shading.Token

/-!
# Declarations

A program is a sequence of declarations. A declaration ends with the first semicolon outside all
brackets, or with a brace that closes the last open bracket. Lone semicolons count for nothing.
Where brackets do not match, the declaration is given up and text is passed over up to the next
place where a declaration could end.
-/
namespace Shading

/-- A declaration: the place of its first token, and its tokens. -/
structure Declaration where
  location : Location
  tokens : List Token
  deriving DecidableEq, Repr

namespace Declaration

/-- Whether the declaration ends with a brace and not with a semicolon. -/
def hasBody (d : Declaration) : Bool :=
  d.tokens.getLast? = some (.punct .rightBrace)

/-- Whether the token ends the part of a declaration that holds its name. -/
def endsName (t : Token) : Bool :=
  [Punct.leftParen, .leftBracket, .equal, .leftBrace, .semicolon].any fun p => t = .punct p

/-- The declared name: the last identifier before a parenthesis, bracket, brace, equals sign or
semicolon. -/
def name? (d : Declaration) : Option String :=
  ((d.tokens.takeWhile (!endsName ·)).filterMap Token.name?).getLast?

end Declaration

/-- A bracket that is open, and where it stands. -/
structure OpenBracket where
  location : Location
  bracket : Punct
  deriving DecidableEq, Repr

/-- Where the division of tokens into declarations stands: between two of them, within one with
its open brackets, the innermost first, or behind one that was given up, at some depth. -/
inductive Splitter
  | between
  | within (location : Location) (tokens : List Token) (brackets : List OpenBracket)
  | skipping (depth : Nat)
  deriving DecidableEq, Repr

namespace Splitter

/-- What one more token brings about: nothing yet, a declaration, or the end of one that is given
up, with the token that is shown for it. -/
inductive Outcome
  | none
  | declared (d : Declaration)
  | failed (t : LocatedToken) (cause : SyntaxError)
  deriving DecidableEq, Repr

/-- The end of all tokens within a declaration. -/
def atEnd (stop : Location) : List OpenBracket → Outcome
  | [] => .failed ⟨stop, .eof⟩ .missingSemicolon
  | innermost :: _ => .failed ⟨innermost.location, .eof⟩ (.unclosed innermost.bracket)

/-- A closing bracket within a declaration that began at `location`. -/
def close (location : Location) (tokens : List Token) (brackets : List OpenBracket)
    (place : Location) (p : Punct) : Splitter × Outcome :=
  let failure := (skipping 0, Outcome.failed ⟨place, .punct p⟩ (.unexpected p))
  match brackets with
  | [] => failure
  | innermost :: outer =>
    if innermost.bracket.closer? != some p then failure
    else
      let tokens := tokens ++ [.punct p]
      if p = .rightBrace && outer.isEmpty then (between, .declared ⟨location, tokens⟩)
      else (within location tokens outer, .none)

/-- One more token within a declaration that began at `location`. -/
def extend (location : Location) (tokens : List Token) (brackets : List OpenBracket)
    (t : LocatedToken) : Splitter × Outcome :=
  match t.token with
  | .eof => (between, atEnd t.location brackets)
  | .punct p =>
    if p.isCloser then close location tokens brackets t.location p
    else if p = .semicolon && brackets.isEmpty then
      (between, .declared ⟨location, tokens ++ [.punct p]⟩)
    else
      let brackets := if p.closer?.isSome then ⟨t.location, p⟩ :: brackets else brackets
      (within location (tokens ++ [.punct p]) brackets, .none)
  | token => (within location (tokens ++ [token]) brackets, .none)

/-- One more token behind a declaration that was given up. Brackets only count, whatever their
kind. -/
def skip (depth : Nat) (t : Token) : Splitter :=
  match t with
  | .eof => between
  | .punct p =>
    if p = .semicolon && depth = 0 then between
    else if p.closer?.isSome then skipping (depth + 1)
    else if p = .rightBrace && depth = 1 then between
    else if p.isCloser then skipping (depth - 1)
    else skipping depth
  | _ => skipping depth

/-- One more token. -/
def feed (s : Splitter) (t : LocatedToken) : Splitter × Outcome :=
  match s with
  | between =>
    if t.token = .eof || t.token = .punct .semicolon then (between, .none)
    else extend t.location [] [] t
  | within location tokens brackets => extend location tokens brackets t
  | skipping depth => (skip depth t.token, .none)

end Splitter

end Shading
