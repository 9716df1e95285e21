import Shading.Path
import Shading.Text.Ascii
import Shading.Text.Utf8

/-!
# Arguments

Arguments are an input and options in any order. Long options take their value behind an equals
sign or as the next argument, short ones also directly behind their letter, and letters of
options without a value may stand together. Behind two lone dashes nothing is an option.
-/
namespace Shading.CommandLine

/-- An option without a value. -/
inductive Flag
  | json | plain | verbose | quiet | warnings | dryRun | noColor | forceColor
  deriving DecidableEq, Repr

/-- An option with a value. -/
inductive Setting
  | define | undefine | expansionLimit | includeDepth
  deriving DecidableEq, Repr

/-- What an option asks for. -/
inductive Switch
  | flag (f : Flag)
  | setting (s : Setting)
  | help
  | version
  deriving DecidableEq, Repr

/-- The option with a long name. -/
def Switch.ofLong? : String → Option Switch
  | "json" => some (flag .json)
  | "plain" => some (flag .plain)
  | "verbose" => some (flag .verbose)
  | "quiet" => some (flag .quiet)
  | "warnings" => some (flag .warnings)
  | "dry-run" => some (flag .dryRun)
  | "no-color" => some (flag .noColor)
  | "force-color" => some (flag .forceColor)
  | "define" => some (setting .define)
  | "undefine" => some (setting .undefine)
  | "recursion-limit" => some (setting .expansionLimit)
  | "max-include-depth" => some (setting .includeDepth)
  | "help" => some help
  | "version" => some version
  | _ => none

/-- The option with a letter. -/
def Switch.ofShort? : Char → Option Switch
  | 'v' => some (flag .verbose)
  | 'q' => some (flag .quiet)
  | 'W' => some (flag .warnings)
  | 'n' => some (flag .dryRun)
  | 'D' => some (setting .define)
  | 'U' => some (setting .undefine)
  | 'h' => some help
  | 'V' => some version
  | _ => none

/-- Why arguments are not carried out: they are wrong, or they ask for information only. -/
inductive Stop
  | usage
  | help
  | version
  deriving DecidableEq, Repr

/-- The arguments of a run. -/
structure Arguments where
  input : Option Path := none
  defines : List String := []
  undefines : List String := []
  expansionLimit : Option Nat := none
  includeDepth : Option Nat := none
  flags : List Flag := []
  deriving DecidableEq, Repr

/-- Where the reading of arguments stands: what has been given, the option that waits for its
value, and whether options are still read. -/
structure Parsing where
  given : Arguments := {}
  waiting : Option Setting := none
  inputOnly : Bool := false
  deriving DecidableEq, Repr

/-- A number of at most 64 bits in decimal digits, with an optional plus sign. -/
def number? (s : String) : Option Nat :=
  let bytes := Text.bytes s
  let digits := if bytes.head? = some (ascii '+') then bytes.tail else bytes
  let value := Text.valueIn 10 digits
  if !digits.isEmpty && digits.all (Text.isDigitIn 10) && value < UInt64.size then some value
  else none

namespace Arguments

/-- Whether a flag is given. -/
def has (a : Arguments) (f : Flag) : Bool :=
  a.flags.contains f

/-- One more flag. None may be given twice. -/
def setFlag (a : Arguments) (f : Flag) : Except Stop Arguments :=
  if a.has f then .error .usage else .ok { a with flags := f :: a.flags }

/-- A limit that has not been given yet. -/
def limit (earlier : Option Nat) (value : String) : Except Stop (Option Nat) :=
  match earlier, number? value with
  | none, some n => .ok (some n)
  | _, _ => .error .usage

/-- One more option with its value. Macros may be given any number of times, limits once. -/
def set (a : Arguments) (s : Setting) (value : String) : Except Stop Arguments :=
  match s with
  | .define => .ok { a with defines := a.defines ++ [value] }
  | .undefine => .ok { a with undefines := a.undefines ++ [value] }
  | .expansionLimit =>
    (limit a.expansionLimit value).map fun n => { a with expansionLimit := n }
  | .includeDepth => (limit a.includeDepth value).map fun n => { a with includeDepth := n }

/-- The input, which may not be empty and may be given only once. -/
def setInput (a : Arguments) (value : String) : Except Stop Arguments :=
  if a.input.isSome || value = "" then .error .usage else .ok { a with input := some ⟨value⟩ }

end Arguments

namespace Parsing

/-- The options behind a single dash. -/
def readLetters (p : Parsing) : List Char → Except Stop Parsing
  | [] => .ok p
  | c :: rest =>
    match Switch.ofShort? c with
    | none => .error .usage
    | some .help => .error .help
    | some .version => .error .version
    | some (.flag f) =>
      match p.given.setFlag f with
      | .error stop => .error stop
      | .ok given => readLetters { p with given } rest
    | some (.setting s) =>
      match rest with
      | [] => .ok { p with waiting := some s }
      | '=' :: value => (p.given.set s (String.ofList value)).map fun given => { p with given }
      | value => (p.given.set s (String.ofList value)).map fun given => { p with given }

/-- The option behind two dashes, with the value behind its equals sign. -/
def readLong (p : Parsing) (name : String) (value : Option String) : Except Stop Parsing :=
  match Switch.ofLong? name, value with
  | some (.setting s), some value => (p.given.set s value).map fun given => { p with given }
  | some (.setting s), none => .ok { p with waiting := some s }
  | some (.flag f), none => (p.given.setFlag f).map fun given => { p with given }
  | some .help, none => .error .help
  | some .version, none => .error .version
  | _, _ => .error .usage

/-- The part of a text in front of its first equals sign, and the part behind it. -/
def splitValue (cs : List Char) : String × Option String :=
  let name := String.ofList (cs.takeWhile (· != '='))
  match cs.dropWhile (· != '=') with
  | [] => (name, none)
  | _ :: value => (name, some (String.ofList value))

/-- One more argument. An option that waits for its value does not take an option for it. -/
def read (p : Parsing) (arg : String) : Except Stop Parsing :=
  let noneWaits (next : Except Stop Parsing) : Except Stop Parsing :=
    if p.waiting.isSome then .error .usage else next
  let plain : Except Stop Parsing :=
    noneWaits ((p.given.setInput arg).map fun given => { p with given })
  if p.inputOnly then plain
  else
    match arg.toList with
    | ['-', '-'] => noneWaits (.ok { p with inputOnly := true })
    | '-' :: '-' :: cs =>
      let (name, value) := splitValue cs
      noneWaits (p.readLong name value)
    | '-' :: c :: cs => noneWaits (p.readLetters (c :: cs))
    | _ =>
      match p.waiting with
      | some s => (p.given.set s arg).map fun given => { p with given, waiting := none }
      | none => plain

end Parsing

/-- The input and the options that arguments give. There has to be an input. -/
def Arguments.ofList (args : List String) : Except Stop (Path × Arguments) := do
  let p ← args.foldlM Parsing.read {}
  match p.waiting, p.given.input with
  | none, some input => return (input, p.given)
  | _, _ => throw .usage

end Shading.CommandLine
