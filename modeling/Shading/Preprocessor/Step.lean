import Shading.Preprocessor.Directive

/-!
# One step of preprocessing

A step takes one token from the innermost expansion, or one lexeme or one directive line from
the innermost source. It either delivers a token or only changes the state.
-/
namespace Shading.Preprocessor

/-- What a step does. -/
inductive Step
  | deliver (token : LocatedToken) (next : Preprocessor)
  | proceed (next : Preprocessor)

/-- The state after a step. -/
def Step.next : Step → Preprocessor
  | deliver _ p => p
  | proceed p => p

/-- Whether the name's macro is being expanded. -/
def isExpanding (p : Preprocessor) (name : String) : Bool :=
  p.expansions.any (·.name == name)

/-- The macro that a token calls for. A macro that is being expanded is not called again. -/
def calledMacro? (p : Preprocessor) : Token → Option (String × Definition)
  | .identifier name =>
    if p.isExpanding name then none else (p.defines.get? name).map fun d => (name, d)
  | _ => none

/-- A token in text that counts: it is delivered, unless it calls for a macro. A call beyond the
limit is an error and is left out. -/
def place (p : Preprocessor) (t : LocatedToken) : Step :=
  match p.calledMacro? t.token with
  | none => .deliver t p
  | some (name, d) =>
    if p.limits.expansion ≤ p.expansions.length then
      .proceed (p.error t (.expansionTooDeep name p.limits.expansion))
    else
      let body := d.body.map (·.token)
      .proceed { p with expansions := ⟨name, t.location, body⟩ :: p.expansions }

/-- A step within the innermost expansion `e`. Line breaks in macros count for nothing. -/
def stepExpansion (p : Preprocessor) (e : Expansion) (outer : List Expansion) : Step :=
  match e.rest with
  | [] => .proceed { p with expansions := outer }
  | t :: rest =>
    let p := { p with expansions := { e with rest } :: outer }
    if t = .newline then .proceed p else p.place ⟨e.location, t⟩

/-- A step at the end of the innermost source `f`. Open groups are reported. Behind an include
its includer goes on; the end of the main source is delivered, and reported only once. -/
def stepEnd (p : Preprocessor) (f : Frame) (outer : List Frame) : Step :=
  let stop : LocatedToken := ⟨f.stop, .eof⟩
  if p.finished then .deliver stop p
  else
    let p := if f.groups.isEmpty then p else p.error stop (.directive .unterminatedIf)
    if outer.isEmpty then .deliver stop { p with finished := true }
    else .proceed { p with frames := outer }

/-- A step over the lexeme `x` of the innermost source `f`, which goes on with `rest`. -/
def stepLexeme (fs : FileSystem) (p : Preprocessor) (f : Frame) (outer : List Frame)
    (x : Lexeme) (rest : List Lexeme) : Step :=
  let p := p.noteFaults [x]
  let move (atLineStart : Bool) (lexemes : List Lexeme) : Preprocessor :=
    { p with frames := { f with lexemes, atLineStart } :: outer }
  if x.token.isSkipped then .proceed (move f.atLineStart rest)
  else if x.token = .newline then .proceed (move true rest)
  else if x.token = .punct .hash && f.atLineStart then
    let line := rest.takeWhile (·.token != .newline)
    let following := (rest.dropWhile (·.token != .newline)).drop 1
    let words := (line.filter (!·.token.isSkipped)).map (·.located)
    .proceed (((move true following).noteFaults line).obeyLine fs x.location words)
  else if f.isActive then (move false rest).place x.located
  else .proceed (move false rest)

/-- One step. -/
def step (fs : FileSystem) (p : Preprocessor) : Step :=
  match p.expansions with
  | e :: outer => p.stepExpansion e outer
  | [] =>
    match p.frames with
    | [] => .deliver ⟨.start, .eof⟩ { p with finished := true }
    | f :: outer =>
      match f.lexemes with
      | [] => p.stepEnd f outer
      | x :: rest => p.stepLexeme fs f outer x rest

end Shading.Preprocessor
