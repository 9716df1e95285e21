import Shading.Declaration
import Shading.Preprocessor.Stream

/-!
# Programs

A program is read from the tokens that preprocessing delivers. Errors of its declarations are
reported in the source that is being read when they are noticed.
-/
namespace Shading

/-- The declarations of a program, in order. -/
structure Program where
  declarations : List Declaration := []
  deriving DecidableEq, Repr

namespace Program

/-- The first declaration of this name. -/
def find? (program : Program) (name : String) : Option Declaration :=
  program.declarations.find? fun d => d.name? = some name

/-- The program and the state of preprocessing after an outcome of the splitter. -/
def record (program : Program) (p : Preprocessor) :
    Splitter.Outcome → Program × Preprocessor
  | .none => (program, p)
  | .declared d => ({ declarations := program.declarations ++ [d] }, p)
  | .failed t cause => (program, p.error t (.syntactic cause))

theorem record_log (program : Program) (p : Preprocessor) (outcome : Splitter.Outcome) :
    ∃ log, (program.record p outcome).2 = { p with log } := by
  cases outcome with
  | none => exact ⟨p.log, rfl⟩
  | declared d => exact ⟨p.log, rfl⟩
  | failed t cause => exact ⟨_, rfl⟩

/-- The program with the declarations of all further tokens, with the splitter where it stands,
and the state behind them. -/
def readFrom (fs : FileSystem) (splitter : Splitter) (program : Program) (p : Preprocessor) :
    Program × Preprocessor :=
  let taken := p.next fs
  let fed := splitter.feed taken.1
  let recorded := program.record taken.2 fed.2
  if _h : taken.1.token = .eof then recorded
  else readFrom fs fed.1 recorded.1 recorded.2
termination_by p
decreasing_by
  obtain ⟨log, hlog⟩ := record_log program taken.2 fed.2
  have hsmaller := Preprocessor.next_smaller _h
  show Relation.TransGen _ (program.record taken.2 fed.2).2 p
  rw [hlog]
  exact Preprocessor.Smaller.withLog log hsmaller

/-- The program with the declarations of all further tokens. -/
def read (fs : FileSystem) (program : Program) (p : Preprocessor) : Program × Preprocessor :=
  readFrom fs .between program p

end Program

end Shading
