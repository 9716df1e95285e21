import Shading.Condition
import Shading.Config
import Shading.Lexeme
import Shading.Preprocessor.Group
import Shading.Source

/-!
# The state of preprocessing

Preprocessing reads a stack of sources, the innermost include first, and expands a stack of
macros, the innermost expansion first. Macros are expanded only between two readings, so the
tokens that wait all stand for one token of the innermost source. Diagnostics are kept in the
order in which they arise.
-/
namespace Shading

/-- A source that is being read: what is left of it, where it ends, its open groups with the
innermost first, and whether a line has just begun. -/
structure Frame where
  source : Source
  file : Option Path
  lexemes : List Lexeme
  stop : Location
  groups : List Group := []
  atLineStart : Bool := true
  deriving DecidableEq, Repr

namespace Frame

/-- The frame at the start of a source with this content. -/
def ofContent (fs : FileSystem) (source : Source) (content : List UInt8) : Frame :=
  let lexemes := Lexemes.ofBytes content
  { source, file := source.path?.map fs.canonical, lexemes := lexemes.list, stop := lexemes.stop }

/-- Whether the current text counts: it stands in no group, or in a selected branch. -/
def isActive (f : Frame) : Bool :=
  match f.groups with
  | [] => true
  | g :: _ => g.active

end Frame

/-- A macro that is being expanded, the place it was called from, and what is left of it. -/
structure Expansion where
  name : String
  location : Location
  rest : List Token
  deriving DecidableEq, Repr

/-- The state of preprocessing. -/
structure Preprocessor where
  limits : Limits
  mainName : String
  defines : DefineTable
  frames : List Frame := []
  expansions : List Expansion := []
  lookahead : Option LocatedToken := none
  finished : Bool := false
  log : Array Diagnostic := #[]
  deriving DecidableEq, Repr

/-- Why a directive is refused, and the token that is shown for it. -/
structure Rejection where
  token : LocatedToken
  cause : CompileError
  deriving DecidableEq, Repr

/-- A directive refused at a token. -/
def Rejection.directive (location : Location) (token : Token) (cause : DirectiveError) :
    Rejection :=
  { token := ⟨location, token⟩, cause := .directive cause }

namespace Preprocessor

/-- The display name of the source that is being read. -/
def currentName (p : Preprocessor) : String :=
  match p.frames with
  | [] => p.mainName
  | f :: _ => f.source.name

/-- The state after a diagnostic. -/
def note (p : Preprocessor) (d : Diagnostic) : Preprocessor :=
  { p with log := p.log.push d }

/-- The state after a problem with a token of the current source. -/
def report (p : Preprocessor) (t : LocatedToken) (problem : Problem) : Preprocessor :=
  p.note { source := p.currentName, location := t.location, token := t.token, problem }

/-- The state after an error. -/
def error (p : Preprocessor) (t : LocatedToken) (cause : CompileError) : Preprocessor :=
  p.report t (.error cause)

/-- The state after a warning. -/
def warn (p : Preprocessor) (t : LocatedToken) (cause : Warning) : Preprocessor :=
  p.report t (.warning cause)

/-- The state after a rejection. -/
def reject (p : Preprocessor) (r : Rejection) : Preprocessor :=
  p.error r.token r.cause

/-- The state after the faults of lexemes of the current source. -/
def noteFaults (p : Preprocessor) (xs : List Lexeme) : Preprocessor :=
  { p with log := p.log ++ (xs.filterMap (·.diagnostic? p.currentName)).toArray }

/-- All diagnostics so far. -/
def diagnostics (p : Preprocessor) : List Diagnostic :=
  p.log.toList

/-- Whether an error has arisen. -/
def hasFatalError (p : Preprocessor) : Bool :=
  p.diagnostics.any (·.isFatal)

/-- Whether the current text counts. -/
def isActive (p : Preprocessor) : Bool :=
  match p.frames with
  | [] => true
  | f :: _ => f.isActive

/-- The open groups of the current source, the innermost first. -/
def groups (p : Preprocessor) : List Group :=
  match p.frames with
  | [] => []
  | f :: _ => f.groups

/-- The state with the current source changed. -/
def mapTop (change : Frame → Frame) (p : Preprocessor) : Preprocessor :=
  match p.frames with
  | [] => p
  | f :: outer => { p with frames := change f :: outer }

/-- The state with other open groups in the current source. -/
def setGroups (p : Preprocessor) (groups : List Group) : Preprocessor :=
  p.mapTop fun f => { f with groups }

/-- The state before a source is read, with these macros. A source that cannot be read is
reported at its start. -/
def start (fs : FileSystem) (limits : Limits) (defines : DefineTable) (source : Source) :
    Preprocessor :=
  let p : Preprocessor := { limits, mainName := source.name, defines }
  match source.load fs with
  | (.ok content, loaded) => { p with frames := [Frame.ofContent fs loaded content] }
  | (.error cause, _) => p.error ⟨.start, .eof⟩ (.file cause)

end Preprocessor

end Shading
