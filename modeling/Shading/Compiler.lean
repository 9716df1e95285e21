import Shading.Program

/-!
# Compilers

A compiler keeps macros and settings between compilations. Macros given from outside are read
like those in a source, and a definition with an error in it changes nothing.
-/
namespace Shading

/-- The words in front of a cursor, or the first error among them. -/
def Definition.capture (c : Cursor) : Except CompileError (List LocatedToken) :=
  if _h : c.rest = [] then .ok []
  else
    let reading := c.read
    match reading.1.fault with
    | some (.error cause) => .error (.located reading.1.location (.lexical cause))
    | _ =>
      (capture reading.2).map fun body =>
        if reading.1.token.isSkipped then body else reading.1.located :: body
termination_by c.rest.length
decreasing_by exact Cursor.read_rest_length_lt _h

/-- A compiler: its macros and its settings. -/
structure Compiler where
  defines : DefineTable := {}
  config : Config := {}
  deriving DecidableEq, Repr

/-- What a compilation yields: the program, unless there was an error, and all diagnostics. -/
structure Compilation where
  program : Option Program
  diagnostics : List Diagnostic
  deriving DecidableEq, Repr

namespace Compiler

/-- The text of a macro that is defined without one. -/
def defaultBody : String := "1"

/-- The display name of a program that is not in a file. -/
def programName : String := "<program>"

/-- The compiler with one more macro, in place of any other of its name. -/
def addDefine (c : Compiler) (name : String) (body : Option String) :
    Except CompileError Compiler :=
  if Identifier.isValid name then
    (Definition.capture { rest := Text.bytes (body.getD defaultBody) }).map fun body =>
      { c with defines := c.defines.insert name { name, body } }
  else .error (.invalidName name)

/-- The compiler without the macro of this name. -/
def removeDefine (c : Compiler) (name : String) : Compiler :=
  { c with defines := c.defines.erase name }

/-- The state in which the compiler begins to read a source. -/
def preprocessor (fs : FileSystem) (c : Compiler) (source : Source) : Preprocessor :=
  .start fs c.config.limits c.defines source

/-- The program in a source. -/
def compile (fs : FileSystem) (c : Compiler) (source : Source) : Compilation :=
  let result := Program.read fs {} (c.preprocessor fs source)
  { program := if result.2.hasFatalError then none else some result.1
    diagnostics := result.2.diagnostics }

/-- The program in a file. -/
def compileFile (fs : FileSystem) (c : Compiler) (path : Path) : Compilation :=
  c.compile fs (.ofFile path)

/-- The program in bytes. -/
def compileBytes (fs : FileSystem) (c : Compiler) (content : List UInt8) : Compilation :=
  c.compile fs (.ofBytes programName content)

/-- The diagnostics that a listener hears of. -/
def heard (c : Compiler) (diagnostics : List Diagnostic) : List Diagnostic :=
  if c.config.listening then diagnostics else []

end Compiler

end Shading
