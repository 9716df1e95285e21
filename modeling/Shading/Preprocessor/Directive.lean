import Shading.Preprocessor.Basic

/-!
# Directives

A directive is the line behind a hash at the start of a line. Directives that open, divide and
close groups are obeyed in all text; the others only in text that counts. A directive is either
obeyed or rejected, and a rejection leaves nothing behind but its report.
-/
namespace Shading

/-- A directive: the place of its hash, its name and the place of that, and what follows. -/
structure Directive where
  hash : Location
  name : String
  location : Location
  args : List LocatedToken
  deriving DecidableEq, Repr

/-- What a directive's name asks for. -/
inductive Keyword
  | ifDefined | ifNotDefined | ifHolds | elseIf | otherwise | endIf
  | define | undefine | includeFile | raise | warn
  | ignored
  | unknown
  deriving DecidableEq, Repr

/-- The keyword that a directive's name spells. -/
def Keyword.ofName : String → Keyword
  | "ifdef" => ifDefined
  | "ifndef" => ifNotDefined
  | "if" => ifHolds
  | "elif" => elseIf
  | "else" => otherwise
  | "endif" => endIf
  | "define" => define
  | "undef" => undefine
  | "include" => includeFile
  | "error" => raise
  | "warning" => warn
  | "version" | "extension" | "pragma" | "line" => ignored
  | _ => unknown

/-- The texts of tokens with blanks between them. -/
def spaced (ts : List LocatedToken) : String :=
  " ".intercalate (ts.map (·.token.text))

namespace Directive

/-- The name of a macro, which has to come first. -/
def macroName (d : Directive) : Except Rejection String :=
  match d.args with
  | ⟨_, .identifier name⟩ :: _ => .ok name
  | t :: _ => .error (.directive t.location t.token (.expectedName d.name))
  | [] => .error (.directive d.location (.identifier d.name) (.expectedName d.name))

/-- The file that an include names, and whether it is looked for beside the including one. -/
def includedName (d : Directive) : Except Rejection (Bool × String) :=
  match d.args with
  | [⟨_, .string name⟩] => .ok (true, name)
  | first :: second :: rest =>
    let last := (second :: rest).getLast (by simp)
    if first.token = .punct .leftAngle && last.token = .punct .rightAngle then
      .ok (false, String.join ((second :: rest).dropLast.map (·.token.text)))
    else .error (.directive d.location (.identifier "include") .malformedInclude)
  | _ => .error (.directive d.location (.identifier "include") .malformedInclude)

/-- The macro that a line defines. A parenthesis directly behind the name would be the start of
parameters, which macros do not have. -/
def definition (d : Directive) : Except Rejection Definition := do
  let name ← d.macroName
  let nameEnd := match d.args with
    | t :: _ => t.location.right name.utf8ByteSize
    | [] => d.location
  match d.args.drop 1 with
  | ⟨location, .punct .leftParen⟩ :: rest =>
    if location = nameEnd then
      throw (.directive location (.punct .leftParen) (.functionLike name))
    else return { name, body := ⟨location, .punct .leftParen⟩ :: rest }
  | body => return { name, body }

/-- Whether the macro that a line asks for is there, or is not. -/
def asksForMacro (table : DefineTable) (wanted : Bool) (d : Directive) :
    Except Rejection Bool := do
  return table.contains (← d.macroName) == wanted

/-- Whether the condition of a line holds. -/
def asksForTruth (table : DefineTable) (limit : Nat) (d : Directive) : Except Rejection Bool :=
  match Condition.value table limit (d.args.map (·.token)) with
  | .ok value => .ok (value != 0)
  | .error cause => .error { token := ⟨d.location, .identifier "if"⟩, cause }

end Directive

namespace Preprocessor

/-- The state after a question, and its answer. A question that is rejected is reported and
answered in the negative. -/
def ask (p : Preprocessor) (question : Except Rejection Bool) : Preprocessor × Bool :=
  match question with
  | .ok answer => (p, answer)
  | .error r => (p.reject r, false)

/-- A new group, whose first branch is selected if the question is answered in the positive. In
text that does not count it is not asked. -/
def openGroup (p : Preprocessor) (question : Except Rejection Bool) : Preprocessor :=
  let asked := if p.isActive then p.ask question else (p, false)
  asked.1.setGroups (Group.opened p.isActive asked.2 :: p.groups)

/-- A further branch of the innermost group. -/
def openBranch (p : Preprocessor) (d : Directive) : Except Rejection Preprocessor :=
  match p.groups with
  | [] => .error (.directive d.location (.identifier "elif") (.withoutIf "elif"))
  | g :: outer =>
    if g.elseSeen then
      .error (.directive d.location (.identifier "elif") (.afterElse "elif"))
    else
      let asked :=
        if g.isOpenToBranch then p.ask (d.asksForTruth p.defines p.limits.expansion)
        else (p, false)
      .ok (asked.1.setGroups (g.branch asked.2 :: outer))

/-- The last branch of the innermost group. -/
def openLastBranch (p : Preprocessor) (d : Directive) : Except Rejection Preprocessor :=
  match p.groups with
  | [] => .error (.directive d.location (.identifier "else") (.withoutIf "else"))
  | g :: outer =>
    if g.elseSeen then
      .error (.directive d.location (.identifier "else") (.afterElse "else"))
    else .ok (p.setGroups (g.lastBranch :: outer))

/-- The end of the innermost group. -/
def closeGroup (p : Preprocessor) (d : Directive) : Except Rejection Preprocessor :=
  match p.groups with
  | [] => .error (.directive d.location (.identifier "endif") (.withoutIf "endif"))
  | _ :: outer => .ok (p.setGroups outer)

/-- The frame of an included source. -/
def includedFrame (fs : FileSystem) (base : Source) (isLocal : Bool) (name : String) :
    Except CompileError Frame := do
  let source ← Source.resolveInclude fs base isLocal name
  match source.load fs with
  | (.ok content, loaded) => return Frame.ofContent fs loaded content
  | (.error cause, _) => throw (.file cause)

/-- The state at the start of an included source. Includes may not be nested too deep, and no
file may include itself on any way. -/
def enter (fs : FileSystem) (p : Preprocessor) (location : Location) (isLocal : Bool)
    (name : String) : Except Rejection Preprocessor :=
  let refuse (cause : CompileError) : Rejection := { token := ⟨location, .string name⟩, cause }
  match p.frames with
  | [] => .ok p
  | f :: _ =>
    if p.limits.includeDepth < p.frames.length then
      .error (refuse (.includeTooDeep name p.limits.includeDepth))
    else
      match includedFrame fs f.source isLocal name with
      | .error cause => .error (refuse cause)
      | .ok frame =>
        match frame.file with
        | some file =>
          if p.frames.any (·.file == some file) then .error (refuse (.includeCycle file))
          else .ok { p with frames := frame :: p.frames }
        | none => .ok { p with frames := frame :: p.frames }

/-- The state after a directive, or why it is rejected. -/
def obey (fs : FileSystem) (p : Preprocessor) (d : Directive) : Except Rejection Preprocessor :=
  match Keyword.ofName d.name with
  | .ifDefined => .ok (p.openGroup (d.asksForMacro p.defines true))
  | .ifNotDefined => .ok (p.openGroup (d.asksForMacro p.defines false))
  | .ifHolds => .ok (p.openGroup (d.asksForTruth p.defines p.limits.expansion))
  | .elseIf => p.openBranch d
  | .otherwise => p.openLastBranch d
  | .endIf => p.closeGroup d
  | keyword =>
    if !p.isActive then .ok p
    else
      match keyword with
      | .define => d.definition.map fun m => { p with defines := p.defines.insert m.name m }
      | .undefine => d.macroName.map fun name => { p with defines := p.defines.erase name }
      | .includeFile => do
        let (isLocal, name) ← d.includedName
        p.enter fs d.location isLocal name
      | .raise => .error (.directive d.hash (.identifier d.name) (.raised (spaced d.args)))
      | .warn => .ok (p.warn ⟨d.hash, .identifier d.name⟩ (.directive (spaced d.args)))
      | .ignored => .ok p
      | _ => .error (.directive d.location (.identifier d.name) (.unknown d.name))

/-- The directive behind a hash at `hash`, if there is more than the hash. -/
def parseDirective (hash : Location) : List LocatedToken → Option (Except Rejection Directive)
  | [] => none
  | ⟨location, .identifier name⟩ :: args => some (.ok { hash, name, location, args })
  | t :: _ => some (.error (.directive t.location t.token .noName))

/-- The state after the line behind a hash. -/
def obeyLine (fs : FileSystem) (p : Preprocessor) (hash : Location) (line : List LocatedToken) :
    Preprocessor :=
  match parseDirective hash line with
  | none => p
  | some (.error r) => if p.isActive then p.reject r else p
  | some (.ok d) =>
    match p.obey fs d with
    | .ok p => p
    | .error r => p.reject r

end Preprocessor

end Shading
