import Shading.Diagnostic
import Shading.Lexeme.Reading

/-!
# Lexemes

A source is a list of lexemes: tokens with the place where each begins and its fault. A cursor
stands between two of them. Reading moves it over one lexeme; at the end of the source it stays
and reads the end again.
-/
namespace Shading

/-- A token of a source, where it begins, and what is wrong with it. -/
structure Lexeme where
  location : Location
  token : Token
  fault : Option Fault := none
  deriving DecidableEq, Repr

/-- The diagnostic for a lexeme's fault, in the source of this name. -/
def Lexeme.diagnostic? (source : String) (x : Lexeme) : Option Diagnostic :=
  x.fault.map fun fault =>
    { source, location := x.location, token := x.token
      problem := match fault with
        | .error cause => .error (.lexical cause)
        | .overflow type => .warning (.constantOverflow type) }

/-- The token of a lexeme with its place. -/
def Lexeme.located (x : Lexeme) : LocatedToken :=
  ⟨x.location, x.token⟩

/-- A place in a source and what is still to be read there. -/
structure Cursor where
  location : Location := .start
  rest : List UInt8
  deriving DecidableEq, Repr

namespace Cursor

/-- The place where a reading of the bytes `bs` ends. -/
def endOf (l : Location) (bs : List UInt8) (r : Reading) : Location :=
  let consumed := bs.take (bs.length - r.rest.length)
  if r.spansLines then l.after consumed else l.right consumed.length

/-- The next lexeme, and the cursor behind it. -/
def read (c : Cursor) : Lexeme × Cursor :=
  match c.rest with
  | [] => ({ location := c.location, token := .eof }, c)
  | b :: bs =>
    let r := Reading.read b bs
    ({ location := c.location, token := r.token, fault := r.fault },
      { location := endOf c.location (b :: bs) r, rest := r.rest })

theorem read_rest_length_lt {c : Cursor} (h : c.rest ≠ []) :
    c.read.2.rest.length < c.rest.length := by
  unfold read
  split
  next hc => exact absurd hc h
  next b bs hc =>
    rw [hc]
    exact (Reading.read_rest b bs).2

end Cursor

/-- All lexemes of a source, and the place of its end. -/
structure Lexemes where
  list : List Lexeme
  stop : Location
  deriving DecidableEq, Repr

/-- The lexemes from a cursor to the end of its source. -/
def Lexemes.ofCursor (c : Cursor) : Lexemes :=
  if _h : c.rest = [] then { list := [], stop := c.location }
  else
    let reading := c.read
    let following := ofCursor reading.2
    { following with list := reading.1 :: following.list }
termination_by c.rest.length
decreasing_by exact Cursor.read_rest_length_lt _h

/-- The lexemes of a source with this content. -/
def Lexemes.ofBytes (content : List UInt8) : Lexemes :=
  ofCursor { rest := content }

end Shading
