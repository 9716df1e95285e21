import Shading.Error
import Shading.Token

/-!
# Diagnostics

A diagnostic says what is wrong with which token of which source. Errors are fatal, warnings are
not; of a run of diagnostics the first fatal one stands for the whole.
-/
namespace Shading

/-- An error or a warning. -/
inductive Problem
  | error (cause : CompileError)
  | warning (cause : Warning)
  deriving DecidableEq, Repr

/-- The message of a problem. -/
def Problem.message : Problem → String
  | error cause => cause.message
  | warning cause => cause.message

/-- A problem with a token at a place of a source, which is given by its display name. -/
structure Diagnostic where
  source : String
  location : Location
  token : Token
  problem : Problem
  deriving DecidableEq, Repr

namespace Diagnostic

/-- Whether the diagnostic is an error. -/
def isFatal (d : Diagnostic) : Bool :=
  match d.problem with
  | .error _ => true
  | .warning _ => false

/-- The text of a diagnostic: its place and its message. -/
def text (d : Diagnostic) : String :=
  d.location.describe d.problem.message

/-- The error of a fatal diagnostic, wrapped in its place. -/
def error? (d : Diagnostic) : Option CompileError :=
  match d.problem with
  | .error cause => some (.located d.location cause)
  | .warning _ => none

/-- The error of the first fatal diagnostic. -/
def firstError? (ds : List Diagnostic) : Option CompileError :=
  ds.findSome? error?

end Diagnostic

end Shading
