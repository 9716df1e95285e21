import Shading.Preprocessor.Step

/-!
# What directives and steps can do

For each part of a step, all the ways in which it can go. What holds of each of them holds of the step.
-/

namespace Shading

/-- Whether a line begins behind a lexeme. -/
def Lexeme.startsLineBehind (atLineStart : Bool) (x : Lexeme) : Bool :=
  if x.token.isSkipped then atLineStart else x.token = .newline

namespace Preprocessor

def afterLexeme (p : Preprocessor) (f : Frame) (outer : List Frame) (x : Lexeme)
    (lexemes : List Lexeme) (atLineStart : Bool) : Preprocessor :=
  { p.noteFaults [x] with frames := { f with lexemes, atLineStart } :: outer }

section Directives

variable {motive : Except Rejection Preprocessor → Prop} (fs : FileSystem) (p : Preprocessor)

/-- An included source is entered, unless sources are nested too deep, it cannot be found or read, or its
file is being read already. -/
theorem enter_cases (location : Location) (isLocal : Bool) (name : String)
    (nothing : p.frames = [] → motive (.ok p))
    (tooDeep : ∀ f outer, p.frames = f :: outer → p.limits.includeDepth < p.frames.length →
      motive (.error ⟨⟨location, .string name⟩, .includeTooDeep name p.limits.includeDepth⟩))
    (unresolved : ∀ f outer, p.frames = f :: outer → p.frames.length ≤ p.limits.includeDepth →
      ∀ cause, includedFrame fs f.source isLocal name = .error cause →
        motive (.error ⟨⟨location, .string name⟩, cause⟩))
    (cyclic : ∀ f outer, p.frames = f :: outer → p.frames.length ≤ p.limits.includeDepth →
      ∀ frame, includedFrame fs f.source isLocal name = .ok frame →
        ∀ file, frame.file = some file → (∃ g ∈ p.frames, g.file = some file) →
          motive (.error ⟨⟨location, .string name⟩, .includeCycle file⟩))
    (entered : ∀ f outer, p.frames = f :: outer → p.frames.length ≤ p.limits.includeDepth →
      ∀ frame, includedFrame fs f.source isLocal name = .ok frame →
        (∀ file, frame.file = some file → ∀ g ∈ p.frames, g.file ≠ some file) →
          motive (.ok { p with frames := frame :: p.frames })) :
    motive (p.enter fs location isLocal name) := by
  unfold enter
  dsimp only
  split
  next hp => exact nothing hp
  next f outer hp =>
    split
    next hdepth => exact tooDeep f outer hp hdepth
    next hdepth =>
      have hroom := Nat.le_of_not_lt hdepth
      split
      next cause hframe => exact unresolved f outer hp hroom cause hframe
      next frame hframe =>
        have hentered := entered f outer hp hroom frame hframe
        split
        next file hfile =>
          split
          next hcycle => exact cyclic f outer hp hroom frame hframe file hfile (by simpa using hcycle)
          next hfresh =>
            refine hentered fun file' hfile' => ?_
            obtain rfl : file = file' := Option.some.inj (hfile.symm.trans hfile')
            simpa using hfresh
        next hnone =>
          refine hentered fun file hfile => ?_
          rw [hnone] at hfile
          cases hfile

/-- A directive does what its keyword says, and only those of groups do anything in text that does not
count. What stands behind its name can be refused. -/
theorem obey_cases (d : Directive)
    (ifDefined : Keyword.ofName d.name = .ifDefined →
      motive (.ok (p.openGroup (d.asksForMacro p.defines true))))
    (ifNotDefined : Keyword.ofName d.name = .ifNotDefined →
      motive (.ok (p.openGroup (d.asksForMacro p.defines false))))
    (ifHolds : Keyword.ofName d.name = .ifHolds →
      motive (.ok (p.openGroup (d.asksForTruth p.defines p.limits.expansion))))
    (elseIf : Keyword.ofName d.name = .elseIf → motive (p.openBranch d))
    (otherwise : Keyword.ofName d.name = .otherwise → motive (p.openLastBranch d))
    (endIf : Keyword.ofName d.name = .endIf → motive (p.closeGroup d))
    (inactive : p.isActive = false → motive (.ok p))
    (ignored : Keyword.ofName d.name = .ignored → motive (.ok p))
    (define : Keyword.ofName d.name = .define → p.isActive = true →
      ∀ m, d.definition = .ok m → motive (.ok { p with defines := p.defines.insert m.name m }))
    (undefine : Keyword.ofName d.name = .undefine → p.isActive = true →
      ∀ name, d.macroName = .ok name → motive (.ok { p with defines := p.defines.erase name }))
    (includeFile : Keyword.ofName d.name = .includeFile → p.isActive = true →
      ∀ isLocal name, d.includedName = .ok (isLocal, name) → motive (p.enter fs d.location isLocal name))
    (noDefinition : Keyword.ofName d.name = .define → p.isActive = true →
      ∀ r, d.definition = .error r → motive (.error r))
    (noMacro : Keyword.ofName d.name = .undefine → p.isActive = true →
      ∀ r, d.macroName = .error r → motive (.error r))
    (noFile : Keyword.ofName d.name = .includeFile → p.isActive = true →
      ∀ r, d.includedName = .error r → motive (.error r))
    (raise : Keyword.ofName d.name = .raise → p.isActive = true →
      motive (.error (.directive d.hash (.identifier d.name) (.raised (spaced d.args)))))
    (warn : Keyword.ofName d.name = .warn → p.isActive = true →
      motive (.ok (p.warn ⟨d.hash, .identifier d.name⟩ (.directive (spaced d.args)))))
    (unknown : Keyword.ofName d.name = .unknown → p.isActive = true →
      motive (.error (.directive d.location (.identifier d.name) (.unknown d.name)))) :
    motive (p.obey fs d) := by
  have hcounts {outcome : Except Rejection Preprocessor} (h : p.isActive = true → motive outcome) :
      motive (if !p.isActive then .ok p else outcome) := by
    cases hactive : p.isActive with
    | true => exact h hactive
    | false => exact inactive hactive
  unfold obey
  cases hk : Keyword.ofName d.name with
  | ifDefined => exact ifDefined hk
  | ifNotDefined => exact ifNotDefined hk
  | ifHolds => exact ifHolds hk
  | elseIf => exact elseIf hk
  | otherwise => exact otherwise hk
  | endIf => exact endIf hk
  | define =>
    refine hcounts fun hactive => ?_
    cases hd : d.definition with
    | error r => exact noDefinition hk hactive r hd
    | ok m => exact define hk hactive m hd
  | undefine =>
    refine hcounts fun hactive => ?_
    cases hd : d.macroName with
    | error r => exact noMacro hk hactive r hd
    | ok name => exact undefine hk hactive name hd
  | includeFile =>
    refine hcounts fun hactive => ?_
    cases hd : d.includedName with
    | error r => exact noFile hk hactive r hd
    | ok included => exact includeFile hk hactive included.1 included.2 hd
  | raise => exact hcounts (raise hk)
  | warn => exact hcounts (warn hk)
  | ignored => exact hcounts fun _ => ignored hk
  | unknown => exact hcounts (unknown hk)

end Directives

section Steps

variable (fs : FileSystem) (p : Preprocessor)

/-- A line behind a hash that is no directive is rejected in text that counts, and a directive is obeyed or
rejected. -/
theorem obeyLine_cases {motive : Preprocessor → Prop} (hash : Location) (line : List LocatedToken)
    (same : motive p)
    (noName : ∀ t args, line = t :: args → motive (p.reject (.directive t.location t.token .noName)))
    (obeyed : ∀ location name args q, line = ⟨location, .identifier name⟩ :: args →
      p.obey fs { hash, name, location, args } = .ok q → motive q)
    (rejected : ∀ location name args r, line = ⟨location, .identifier name⟩ :: args →
      p.obey fs { hash, name, location, args } = .error r → motive (p.reject r)) :
    motive (p.obeyLine fs hash line) := by
  unfold obeyLine
  rcases line with _ | ⟨⟨location, token⟩, args⟩
  · exact same
  cases token with
  | identifier name =>
    simp only [parseDirective]
    split
    next q h => exact obeyed location name args q rfl h
    next r h => exact rejected location name args r rfl h
  | _ =>
    simp only [parseDirective]
    split
    · exact noName _ _ rfl
    · exact same

/-- A lexeme is passed over, begins the line of a directive, or is placed. -/
theorem stepLexeme_cases {motive : Step → Prop} (f : Frame) (outer : List Frame) (x : Lexeme)
    (rest : List Lexeme)
    (passed : ¬(x.token = .punct .hash && f.atLineStart) = true →
      motive (.proceed (p.afterLexeme f outer x rest (x.startsLineBehind f.atLineStart))))
    (directive : x.token = .punct .hash → f.atLineStart = true →
      motive (.proceed (((p.afterLexeme f outer x ((rest.dropWhile (·.token != .newline)).drop 1) true).noteFaults
        (rest.takeWhile (·.token != .newline))).obeyLine fs x.location
          (((rest.takeWhile (·.token != .newline)).filter (!·.token.isSkipped)).map (·.located)))))
    (placed : x.token ≠ .newline → x.token.isSkipped = false →
      ¬(x.token = .punct .hash && f.atLineStart) = true → f.isActive = true →
      motive ((p.afterLexeme f outer x rest false).place x.located)) :
    motive (p.stepLexeme fs f outer x rest) := by
  unfold stepLexeme
  dsimp only
  by_cases hskipped : x.token.isSkipped = true
  · have hhash : ¬(x.token = .punct .hash && f.atLineStart) = true := by
      intro hhash
      rw [of_decide_eq_true (Bool.and_eq_true_iff.1 hhash).1] at hskipped
      cases hskipped
    rw [Lexeme.startsLineBehind, if_pos hskipped] at passed
    rw [if_pos hskipped]
    exact passed hhash
  rw [Lexeme.startsLineBehind, if_neg hskipped] at passed
  rw [if_neg hskipped]
  by_cases hnewline : x.token = .newline
  · rw [decide_eq_true hnewline] at passed
    rw [if_pos hnewline]
    exact passed (by simp [hnewline])
  rw [decide_eq_false hnewline] at passed
  rw [if_neg hnewline]
  split
  next hhash =>
    obtain ⟨htoken, hstart⟩ := Bool.and_eq_true_iff.1 hhash
    exact directive (of_decide_eq_true htoken) hstart
  next hhash =>
    split
    next hactive => exact placed hnewline (by simpa using hskipped) hhash hactive
    · exact passed hhash

end Steps

end Preprocessor

end Shading
