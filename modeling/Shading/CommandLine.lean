import Shading.CommandLine.Arguments
import Shading.CommandLine.Duration
import Shading.CommandLine.Json
import Shading.CommandLine.Style
import Shading.Compiler
import Shading.Text.Pad

/-!
# The command

A run compiles one input and reports what it finds. The log and the diagnostics go to the error
stream, a summary goes to the output, and the exit code tells success, shown warnings, a missing
input, errors in the program and errors in the arguments apart.
-/
namespace Shading.CommandLine

/-- What a run can see: files, the text on its input, whether its errors are shown on a terminal,
and by the clock how long the compilation takes. The logger writes on the error stream until then,
which depends on its filter and on whether colours are used; a filter may be given from outside. -/
structure Environment where
  files : FileSystem
  stdin : List UInt8 := []
  terminal : Bool := false
  elapsed : Duration := {}
  filter : Option String := none
  log : (filter : String) → (useColor : Bool) → String := fun _ _ => ""

/-- What a run leaves behind. `unread` lists files that it asked for before anybody had looked at
them. -/
structure Outcome where
  exitCode : Nat
  stdout : String := ""
  stderr : String := ""
  unread : List Path := []
  deriving DecidableEq, Repr

/-- Why a run fails. -/
inductive Failure
  | argument (message : String)
  | inputNotFound (input : Path)
  | definition (name : String) (cause : CompileError)
  | compilation (errors : Nat)
  deriving DecidableEq, Repr

namespace Failure

/-- The message of a failure. -/
def message : Failure → String
  | argument message => message
  | inputNotFound input => "input file not found: " ++ input.text
  | definition name cause => "Invalid definition for " ++ name ++ ": " ++ cause.message
  | compilation errors => "compilation failed with " ++ toString errors ++ " error(s)"

/-- The exit code of a failure. -/
def exitCode : Failure → Nat
  | argument _ => 4
  | inputNotFound _ => 2
  | definition _ _ => 3
  | compilation _ => 3

/-- The last line of a run that fails. -/
def line (useColor : Bool) (f : Failure) : String :=
  Style.failure.paint useColor "Error:" ++ " " ++ f.message ++ "\n"

end Failure

/-- Whether the path stands for the text on the input. -/
def isStdin (input : Path) : Bool :=
  input.sameComponents ⟨"-"⟩

/-- How the input is shown. -/
def inputName (input : Path) : String :=
  if isStdin input then "stdin" else input.text

/-- A macro of the command line: a name, and its text behind an equals sign. -/
def splitDefine (define : String) : String × Option String :=
  Parsing.splitValue define.toList

namespace Arguments

/-- Whether output is coloured. -/
def useColor (a : Arguments) (terminal : Bool) : Bool :=
  if a.has .noColor || a.has .plain then false else a.has .forceColor || terminal

/-- The filter of the log, where none is given from outside. -/
def standardFilter (a : Arguments) : String :=
  if a.has .verbose then "slc=debug" else "slc=warn"

/-- The limits of a run. -/
def limits (a : Arguments) : Limits :=
  let standard : Limits := {}
  { expansion := a.expansionLimit.getD standard.expansion
    includeDepth := a.includeDepth.getD standard.includeDepth }

/-- What is wrong with the arguments. -/
def problem? (a : Arguments) : Option Failure :=
  if a.has .noColor && a.has .forceColor then
    some (.argument "--no-color and --force-color are mutually exclusive")
  else if a.has .verbose && a.has .quiet then
    some (.argument "--verbose and --quiet are mutually exclusive")
  else if a.limits.expansion = 0 then
    some (.argument "Recursion limit must be greater than 0")
  else
    (a.defines.map fun d => (splitDefine d).1).find? (!Identifier.isValid ·) |>.map
      fun name => .argument ("Invalid define name: " ++ name)

/-- The lines that say what a run would do. -/
def dryRun (a : Arguments) (input : Path) : List String :=
  ["Dry run: would compile " ++ inputName input,
    "Recursion limit: " ++ toString a.limits.expansion,
    "Include depth limit: " ++ toString a.limits.includeDepth] ++
  (if a.defines.isEmpty then []
    else "Defines:" :: a.defines.map fun d =>
      let (name, value) := splitDefine d
      "  " ++ name ++ " = " ++ value.getD Compiler.defaultBody) ++
  (if a.undefines.isEmpty then [] else ["Undefines: " ++ ", ".intercalate a.undefines]) ++
  (if a.has .json then ["Output format: JSON"]
    else if a.has .plain then ["Output format: Plain text"] else [])

/-- The compiler of a run. All definitions are made before any is removed. -/
def compiler (a : Arguments) : Except Failure Compiler := do
  let start : Compiler := { config := { limits := a.limits, listening := true } }
  let defined ← a.defines.foldlM (fun (c : Compiler) d =>
    let (name, value) := splitDefine d
    (c.addDefine name value).mapError (.definition name)) start
  return a.undefines.foldl Compiler.removeDefine defined

/-- Whether warnings are shown. -/
def showsWarnings (a : Arguments) : Bool :=
  a.has .warnings && !a.has .quiet

/-- The exit code of a run that succeeds. -/
def successCode (a : Arguments) (diagnostics : List Diagnostic) : Nat :=
  if a.showsWarnings && diagnostics.any (!·.isFatal) then 1 else 0

end Arguments

/-- The severity of a diagnostic. -/
def severity (d : Diagnostic) : String :=
  if d.isFatal then "error" else "warning"

/-- A diagnostic on a line, with lines counted from one and columns from zero. -/
def reportLine (useColor : Bool) (d : Diagnostic) : String :=
  let style : Style := if d.isFatal then .failure else .caution
  Style.bold.paint useColor d.source ++ ":" ++ toString (d.location.line + 1) ++ ":" ++
    toString d.location.column ++ ": " ++ style.paint useColor (severity d) ++ ": " ++
    d.problem.message

/-- The line of a declaration: its place, whether it has a body, and its name. -/
def declarationLine (useColor : Bool) (d : Declaration) : String :=
  let kind := Text.padRight 9 (if d.hasBody then "block" else "statement")
  "  " ++ Text.padLeft 4 (toString (d.location.line + 1)) ++ ":" ++
    Text.padRight 3 (toString d.location.column) ++ " " ++ Style.dimmed.paint useColor kind ++
    " " ++ d.name?.getD "<anonymous>"

/-- The lines that sum a program up. -/
def summary (a : Arguments) (useColor : Bool) (input : Path) (program : Program) :
    List String :=
  if a.has .plain then program.declarations.map fun d => d.name?.getD "-"
  else
    (Style.bold.paint useColor (inputName input) ++ " " ++
        toString program.declarations.length ++ " declaration(s)") ::
      program.declarations.map (declarationLine useColor)

/-- A declaration as a value. -/
def declarationJson (d : Declaration) : Json :=
  .object [("name", d.name?.elim .null .string), ("line", .number (d.location.line + 1)),
    ("column", .number d.location.column), ("has_body", .bool d.hasBody)]

/-- A diagnostic as a value. -/
def diagnosticJson (d : Diagnostic) : Json :=
  .object [("source", .string d.source), ("line", .number (d.location.line + 1)),
    ("column", .number d.location.column), ("severity", .string (severity d)),
    ("message", .string d.problem.message)]

/-- A compilation as a value, with the time that it has taken. -/
def compilationJson (a : Arguments) (input : Path) (elapsed : Duration) (c : Compilation) : Json :=
  .object [("success", .bool c.program.isSome), ("input_file", .string (inputName input)),
    ("defines", .array (a.defines.map .string)),
    ("declarations", .array ((c.program.elim [] (·.declarations)).map declarationJson)),
    ("diagnostics", .array (c.diagnostics.map diagnosticJson)),
    ("processing_time_ms", .decimal elapsed.milliseconds)]

/-- Lines as a text. -/
def unlines (lines : List String) : String :=
  String.join (lines.map (· ++ "\n"))

/-- The compilation of the input. -/
def compileInput (env : Environment) (compiler : Compiler) (input : Path) :
    Except Failure Compilation :=
  if isStdin input then .ok (compiler.compileBytes env.files env.stdin)
  else if env.files.exists? input then .ok (compiler.compileFile env.files input)
  else .error (.inputNotFound input)

/-- The file that a diagnostic asks for, if nobody has looked at it. -/
def unread? (d : Diagnostic) : Option Path :=
  match d.problem with
  | .error (.file (.unread path)) => some path
  | .error (.includeNotFound _ (.unread path)) => some path
  | _ => none

/-- The line that tells how long a compilation has taken. -/
def timeLine (useColor : Bool) (input : Path) (elapsed : Duration) : String :=
  Style.success.paint useColor "\u2713" ++ " Compiled " ++ inputName input ++ " in " ++ elapsed.text

/-- The outcome of a compilation, but for what has been logged. -/
def report (a : Arguments) (useColor : Bool) (input : Path) (elapsed : Duration)
    (c : Compilation) : Outcome :=
  let shown := c.diagnostics.filter fun d => d.isFatal || a.showsWarnings
  let lines := unlines (shown.map (reportLine useColor))
  let json := if a.has .json then (compilationJson a input elapsed c).render 0 ++ "\n" else ""
  let unread := c.diagnostics.filterMap unread?
  match c.program with
  | none =>
    let failure : Failure := .compilation (c.diagnostics.filter (·.isFatal)).length
    { exitCode := failure.exitCode, stdout := json
      stderr := lines ++ failure.line useColor, unread }
  | some program =>
    let text := if a.has .json then json
      else if a.has .quiet then "" else unlines (summary a useColor input program)
    let time := if a.has .verbose && !a.has .quiet && !a.has .json then
      [timeLine useColor input elapsed] else []
    { exitCode := a.successCode c.diagnostics, stdout := text, stderr := lines ++ unlines time
      unread }

/-- An outcome with the log in front of its messages. -/
def Outcome.behindLog (log : String) (o : Outcome) : Outcome :=
  { o with stderr := log ++ o.stderr }

/-- The outcome of arguments that can be understood. Whatever is logged has been written when the
compilation has ended. -/
def execute (env : Environment) (input : Path) (a : Arguments) : Outcome :=
  let useColor := a.useColor env.terminal
  let log := env.log (env.filter.getD a.standardFilter) useColor
  let fail (f : Failure) : Outcome :=
    { exitCode := f.exitCode, stderr := f.line useColor }
  match a.problem? with
  | some f => fail f
  | none =>
    if a.has .dryRun then { exitCode := 0, stderr := unlines (a.dryRun input) }
    else
      match a.compiler with
      | .error f => (fail f).behindLog log
      | .ok compiler =>
        match compileInput env compiler input with
        | .error f => (fail f).behindLog log
        | .ok c => (report a useColor input env.elapsed c).behindLog log

/-- The word that calls the command. -/
def commandName : String := "slc"

/-- The version of the command. -/
def version : String := "0.1.0"

/-- How the command is called. -/
def usage : String := unlines
  ["Usage: " ++ commandName ++ " [OPTIONS] <INPUT>",
    "",
    "Preprocesses a shading language source and lists its declarations. The input - stands for",
    "the standard input.",
    "",
    "  -D, --define <NAME[=VALUE]>      Define NAME as VALUE, or as 1 without a value",
    "  -U, --undefine <NAME>            Remove a definition given on the command line",
    "      --recursion-limit <N>        Greatest depth of macro expansion",
    "      --max-include-depth <N>      Greatest depth of includes",
    "      --json                       Write a structured summary",
    "      --plain                      Write names only",
    "  -v, --verbose                    Write more",
    "  -q, --quiet                      Write errors only",
    "  -W, --warnings                   Show warnings",
    "  -n, --dry-run                    Say what would be done",
    "      --no-color                   Write without colours",
    "      --force-color                Write with colours",
    "  -h, --help                       Show this text",
    "  -V, --version                    Show the version"]

/-- The outcome of a run with these arguments. -/
def run (env : Environment) (args : List String) : Outcome :=
  match Arguments.ofList args with
  | .ok (input, a) => execute env input a
  | .error .usage => { exitCode := 2, stderr := usage }
  | .error .help => { exitCode := 0, stdout := usage }
  | .error .version => { exitCode := 0, stdout := unlines [commandName ++ " " ++ version] }

end Shading.CommandLine
