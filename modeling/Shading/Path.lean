/-!
# Paths

A path is a text whose slashes separate components. Empty components and lone dots, apart from a
dot in front, have no meaning; they are passed over when components are counted, but the text is
kept as it was written.
-/
namespace Shading

/-- A path, as written. -/
structure Path where
  text : String
  deriving DecidableEq, Repr

namespace Path

/-- Whether a piece between slashes names no component. -/
def isVoid (piece : List Char) : Bool :=
  piece = [] || piece = ['.']

/-- The character in front that is a component of its own: a slash, or the dot of a path that
begins with a lone dot. -/
def anchor : List Char → List Char
  | '/' :: _ => ['/']
  | ['.'] => ['.']
  | '.' :: '/' :: _ => ['.']
  | _ => []

/-- The pieces between the slashes behind the anchor. -/
def pieces (p : Path) : List (List Char) :=
  let cs := p.text.toList
  (cs.drop (anchor cs).length).splitOn '/'

/-- The pieces up to the last component. -/
def trim (pieces : List (List Char)) : List (List Char) :=
  (pieces.reverse.dropWhile isVoid).reverse

/-- The last component, unless that is a step to the parent directory or none is left. -/
def fileName? (p : Path) : Option String :=
  match (trim p.pieces).getLast? with
  | some piece => if piece = ['.', '.'] then none else some (String.ofList piece)
  | none => none

/-- The path without its last component; `none` for the root and for the empty path. -/
def parent? (p : Path) : Option Path :=
  let front := anchor p.text.toList
  match trim p.pieces with
  | [] => if front = ['.'] then some ⟨""⟩ else none
  | pieces =>
    some ⟨String.ofList (front ++ ['/'].intercalate (trim pieces.dropLast))⟩

/-- Whether the path begins at the root. -/
def isAbsolute (p : Path) : Bool :=
  anchor p.text.toList = ['/']

/-- The path `q` seen from the directory `p`. An absolute `q` stands for itself. -/
def join (p q : Path) : Path :=
  if q.isAbsolute then q
  else if p.text = "" || p.text.toList.getLast? = some '/' then ⟨p.text ++ q.text⟩
  else ⟨p.text ++ "/" ++ q.text⟩

/-- The components behind the anchor, without meaningless pieces. -/
def components (p : Path) : List String :=
  (p.pieces.filter (!isVoid ·)).map String.ofList

/-- Whether two paths have the same anchor and the same components. -/
def sameComponents (p q : Path) : Bool :=
  anchor p.text.toList = anchor q.text.toList && p.components = q.components

end Path

end Shading
