import Mathlib
import Shading.Preprocessor.Stream

/-!
# Preprocessing in disguise

Preprocessing passes on the names of its sources and adds to its diagnostics, but looks at neither, and
what a source is taken from matters only where an include is resolved. So from a state in disguise, with
other sources in place of its own and other diagnostics before it, the steps are the same in disguise.
-/

namespace Shading

/-- The file that a directive asks to include from beside the current source. -/
def Directive.localName? (d : Directive) : Option String :=
  if Keyword.ofName d.name = .includeFile then
    match d.includedName with
    | .ok (true, name) => some name
    | _ => none
  else none

namespace Preprocessor

lemma drain_of_eof {fs : FileSystem} {p q : Preprocessor} {t : LocatedToken} (h : p.next fs = (t, q))
    (ht : t.token = .eof) : p.drain fs = ([t], q) := by
  rw [drain, h]
  simp only
  rw [dif_pos ht]

lemma drain_of_ne_eof {fs : FileSystem} {p q : Preprocessor} {t : LocatedToken} (h : p.next fs = (t, q))
    (ht : t.token ≠ .eof) : p.drain fs = (t :: (q.drain fs).1, (q.drain fs).2) := by
  rw [drain, h]
  simp only
  rw [dif_neg ht]

def Step.map (f : Preprocessor → Preprocessor) : Step → Step
  | deliver t p => deliver t (f p)
  | proceed p => proceed (f p)

lemma Step.next_map (f : Preprocessor → Preprocessor) (s : Step) : (s.map f).next = f s.next := by
  cases s <;> rfl

/-- Other sources, with their names and files, and diagnostics from before. -/
structure Disguise where
  name : String → String := id
  source : Source → Source := id
  file : Option Path → Option Path := id
  earlier : Array Diagnostic := #[]
  source_name : ∀ s, (source s).name = name s.name := by intro s; rfl

/-- The file that the next step asks to include from beside the current source, if it does. -/
def localInclude? (p : Preprocessor) : Option String :=
  match p.expansions, p.frames with
  | [], f :: _ =>
    match f.lexemes with
    | [] => none
    | x :: rest =>
      let line := (rest.takeWhile (·.token != .newline)).filter (!·.token.isSkipped)
      if x.token = .punct .hash && f.atLineStart && f.isActive then
        match parseDirective x.location (line.map (·.located)) with
        | some (.ok d) => d.localName?
        | _ => none
      else none
  | _, _ => none

namespace Disguise

def frame (D : Disguise) (f : Frame) : Frame :=
  { f with source := D.source f.source, file := D.file f.file }

def diagnostic (D : Disguise) (d : Diagnostic) : Diagnostic :=
  { d with source := D.name d.source }

/-- The state in disguise. -/
def state (D : Disguise) (p : Preprocessor) : Preprocessor :=
  { p with
    mainName := D.name p.mainName
    frames := p.frames.map D.frame
    log := D.earlier ++ p.log.map D.diagnostic }

/-- Local includes do not tell the source from the one in its place: there is no other, or neither is a
file. -/
def Conceals (D : Disguise) (s : Source) : Prop :=
  D.source = id ∧ D.file = id ∨ s.path? = none ∧ (D.source s).path? = none

/-- The next step does not see through the disguise. -/
def Withstands (D : Disguise) (p : Preprocessor) : Prop :=
  p.localInclude? ≠ none → ∀ f ∈ p.frames.head?, D.Conceals f.source

section State

variable (D : Disguise) (p : Preprocessor)

lemma currentName_state : (D.state p).currentName = D.name p.currentName := by
  obtain ⟨limits, mainName, defines, _ | ⟨f, outer⟩, expansions, lookahead, finished, log⟩ := p
  · rfl
  · exact D.source_name f.source

lemma isActive_state : (D.state p).isActive = p.isActive := by
  obtain ⟨limits, mainName, defines, _ | ⟨f, outer⟩, expansions, lookahead, finished, log⟩ := p <;> rfl

lemma groups_state : (D.state p).groups = p.groups := by
  obtain ⟨limits, mainName, defines, _ | ⟨f, outer⟩, expansions, lookahead, finished, log⟩ := p <;> rfl

lemma report_state (t : LocatedToken) (problem : Problem) :
    (D.state p).report t problem = D.state (p.report t problem) := by
  unfold report note
  rw [currentName_state]
  simp only [state, Array.map_push, Array.append_push]
  rfl

lemma reject_state (r : Rejection) : (D.state p).reject r = D.state (p.reject r) :=
  D.report_state p _ _

lemma noteFaults_state (xs : List Lexeme) :
    (D.state p).noteFaults xs = D.state (p.noteFaults xs) := by
  have hmap : xs.filterMap (·.diagnostic? (D.name p.currentName)) =
      (xs.filterMap (·.diagnostic? p.currentName)).map D.diagnostic := by
    rw [List.map_filterMap]
    congr 1
    funext x
    simp only [Lexeme.diagnostic?, Option.map_map]
    rfl
  unfold noteFaults
  rw [currentName_state, hmap]
  simp only [state, Array.map_append, Array.append_assoc, List.map_toArray]

lemma setGroups_state (groups : List Group) :
    (D.state p).setGroups groups = D.state (p.setGroups groups) := by
  obtain ⟨limits, mainName, defines, _ | ⟨f, outer⟩, expansions, lookahead, finished, log⟩ := p <;> rfl

lemma ask_state (question : Except Rejection Bool) :
    (D.state p).ask question = (D.state (p.ask question).1, (p.ask question).2) := by
  cases question with
  | ok answer => rfl
  | error r => rw [ask, ask, reject_state]

lemma setGroups_ask_state (question : Except Rejection Bool) (groups : Bool → List Group) :
    ((D.state p).ask question).1.setGroups (groups ((D.state p).ask question).2) =
      D.state ((p.ask question).1.setGroups (groups (p.ask question).2)) := by
  rw [ask_state]
  exact D.setGroups_state _ _

lemma openGroup_state (question : Except Rejection Bool) :
    (D.state p).openGroup question = D.state (p.openGroup question) := by
  unfold openGroup
  rw [isActive_state, groups_state]
  cases p.isActive with
  | true => exact D.setGroups_ask_state _ question (Group.opened true · :: p.groups)
  | false => exact D.setGroups_state _ _

lemma openBranch_state (d : Directive) :
    (D.state p).openBranch d = (p.openBranch d).map D.state := by
  unfold openBranch
  rw [groups_state]
  cases p.groups with
  | nil => rfl
  | cons g outer =>
    dsimp only
    cases g.elseSeen with
    | true => rfl
    | false =>
      cases g.isOpenToBranch with
      | true => exact congrArg Except.ok (D.setGroups_ask_state _ _ (g.branch · :: outer))
      | false => exact congrArg Except.ok (D.setGroups_state _ _)

lemma openLastBranch_state (d : Directive) :
    (D.state p).openLastBranch d = (p.openLastBranch d).map D.state := by
  unfold openLastBranch
  rw [groups_state]
  cases p.groups with
  | nil => rfl
  | cons g outer =>
    dsimp only
    cases g.elseSeen with
    | true => rfl
    | false => exact congrArg Except.ok (D.setGroups_state _ _)

lemma closeGroup_state (d : Directive) :
    (D.state p).closeGroup d = (p.closeGroup d).map D.state := by
  unfold closeGroup
  rw [groups_state]
  cases p.groups with
  | nil => rfl
  | cons g outer => exact congrArg Except.ok (D.setGroups_state _ _)

variable (fs : FileSystem)

lemma includedFrame_none {s : Source} (h : s.path? = none) (name : String) :
    includedFrame fs s true name = .error (.noParentDirectory name) := by
  simp [includedFrame, Source.resolveInclude, Source.relativePath?, h, bind, Except.bind]

lemma enter_state (location : Location) (isLocal : Bool) (name : String)
    (h : isLocal = true → ∀ f ∈ p.frames.head?, D.Conceals f.source) :
    (D.state p).enter fs location isLocal name =
      (p.enter fs location isLocal name).map D.state := by
  obtain ⟨limits, mainName, defines, frames, expansions, lookahead, finished, log⟩ := p
  unfold enter
  cases frames with
  | nil => rfl
  | cons f outer =>
    simp only [state, List.map_cons, List.length_cons, List.length_map]
    split
    · rfl
    cases isLocal with
    | false => rfl
    | true =>
      rcases h rfl f rfl with ⟨hsource, hfile⟩ | ⟨hnone, hnone'⟩
      · have hframe : D.frame = id := by
          funext f
          simp [frame, hsource, hfile]
        simp only [hframe, List.map_id, id_eq]
        cases includedFrame fs f.source true name with
        | error cause => rfl
        | ok frame =>
          dsimp only
          split
          · split
            · rfl
            · simp [state, hframe, Except.map]
          · simp [state, hframe, Except.map]
      · simp only [includedFrame_none fs hnone, frame, includedFrame_none fs hnone']
        rfl

lemma obey_state (d : Directive)
    (h : p.isActive = true → d.localName? ≠ none → ∀ f ∈ p.frames.head?, D.Conceals f.source) :
    (D.state p).obey fs d = (p.obey fs d).map D.state := by
  unfold obey
  rw [isActive_state]
  cases hkeyword : Keyword.ofName d.name
  case ifDefined => exact congrArg Except.ok (D.openGroup_state _ _)
  case ifNotDefined => exact congrArg Except.ok (D.openGroup_state _ _)
  case ifHolds => exact congrArg Except.ok (D.openGroup_state _ _)
  case elseIf => exact D.openBranch_state _ _
  case otherwise => exact D.openLastBranch_state _ _
  case endIf => exact D.closeGroup_state _ _
  all_goals
    cases hactive : p.isActive
    case false => rfl
  case define.true => cases d.definition <;> rfl
  case undefine.true => cases d.macroName <;> rfl
  case includeFile.true =>
    cases hname : d.includedName with
    | error r => rfl
    | ok included =>
      obtain ⟨isLocal, name⟩ := included
      refine D.enter_state p fs d.location isLocal name ?_
      rintro rfl
      exact h hactive (by simp [Directive.localName?, hkeyword, hname])
  case raise.true => rfl
  case warn.true => exact congrArg Except.ok (D.report_state _ _ _)
  case ignored.true => rfl
  case unknown.true => rfl

lemma obeyLine_state (hash : Location) (line : List LocatedToken)
    (h : p.isActive = true → ∀ d, parseDirective hash line = some (.ok d) → d.localName? ≠ none →
      ∀ f ∈ p.frames.head?, D.Conceals f.source) :
    (D.state p).obeyLine fs hash line = D.state (p.obeyLine fs hash line) := by
  unfold obeyLine
  rw [isActive_state]
  split
  · rfl
  · split
    · exact D.reject_state _ _
    · rfl
  next d hparse =>
    rw [D.obey_state p fs d fun hactive => h hactive d hparse]
    cases p.obey fs d with
    | ok q => rfl
    | error r => exact D.reject_state _ _

lemma place_state (t : LocatedToken) : (D.state p).place t = (p.place t).map D.state := by
  have hcalled : (D.state p).calledMacro? t.token = p.calledMacro? t.token := rfl
  unfold place
  rw [hcalled]
  cases p.calledMacro? t.token with
  | none => rfl
  | some called =>
    dsimp only
    split
    next h =>
      rw [if_pos (show p.limits.expansion ≤ p.expansions.length from h)]
      exact congrArg Step.proceed (D.report_state _ _ _)
    next h =>
      rw [if_neg (show ¬p.limits.expansion ≤ p.expansions.length from h)]
      rfl

lemma stepExpansion_state (e : Expansion) (outer : List Expansion) :
    (D.state p).stepExpansion e outer = (p.stepExpansion e outer).map D.state := by
  unfold stepExpansion
  split
  · rfl
  · dsimp only
    split
    · rfl
    · exact D.place_state { p with expansions := _ } _

lemma stepEnd_state (f : Frame) (outer : List Frame) :
    (D.state p).stepEnd (D.frame f) (outer.map D.frame) = (p.stepEnd f outer).map D.state := by
  have hfinished : (D.state p).finished = p.finished := rfl
  have hstop : (D.frame f).stop = f.stop := rfl
  have hgroups : (D.frame f).groups = f.groups := rfl
  have herror : (D.state p).error ⟨f.stop, .eof⟩ (.directive .unterminatedIf) =
      D.state (p.error ⟨f.stop, .eof⟩ (.directive .unterminatedIf)) := D.report_state _ _ _
  unfold stepEnd
  rw [hfinished, hstop, hgroups]
  dsimp only
  rw [herror]
  split
  · rfl
  · cases f.groups.isEmpty <;> cases outer <;> rfl

lemma stepLexeme_state {f : Frame} {outer : List Frame} {x : Lexeme} {rest : List Lexeme}
    (hexpansions : p.expansions = []) (hframes : p.frames = f :: outer) (hlexemes : f.lexemes = x :: rest)
    (h : p.localInclude? ≠ none → D.Conceals f.source) :
    (D.state p).stepLexeme fs (D.frame f) (outer.map D.frame) x rest =
      (p.stepLexeme fs f outer x rest).map D.state := by
  have hmove (atLineStart : Bool) (lexemes : List Lexeme) :
      { D.state (p.noteFaults [x]) with
        frames := { D.frame f with lexemes, atLineStart } :: outer.map D.frame } =
      D.state { p.noteFaults [x] with frames := { f with lexemes, atLineStart } :: outer } := rfl
  have hstart : (D.frame f).atLineStart = f.atLineStart := rfl
  have hactive : (D.frame f).isActive = f.isActive := rfl
  unfold stepLexeme
  rw [noteFaults_state]
  dsimp only
  rw [hmove, hmove, hmove, hmove, hstart, hactive]
  split
  · rfl
  split
  · rfl
  split
  next hhash =>
    rw [noteFaults_state, obeyLine_state]
    · rfl
    · intro hcounts d hparse hlocal f' hf'
      obtain rfl : { f with lexemes := _, atLineStart := true } = f' := Option.some.inj hf'
      apply h
      have hcounts' : f.isActive = true := hcounts
      simpa [localInclude?, hexpansions, hframes, hlexemes, Bool.and_eq_true_iff.1 hhash, hcounts', hparse]
        using hlocal
  split
  · exact D.place_state _ _
  · rfl

lemma step_state (h : D.Withstands p) :
    (D.state p).step fs = (p.step fs).map D.state := by
  have hexpansions : (D.state p).expansions = p.expansions := rfl
  have hframes : (D.state p).frames = p.frames.map D.frame := rfl
  unfold step
  rw [hexpansions, hframes]
  split
  · exact D.stepExpansion_state _ _ _
  next hnone =>
    cases hp : p.frames with
    | nil => rfl
    | cons f outer =>
      have hlexemes : (D.frame f).lexemes = f.lexemes := rfl
      rw [List.map_cons]
      dsimp only
      rw [hlexemes]
      split
      · exact D.stepEnd_state _ _ _
      next hf => exact D.stepLexeme_state p fs hnone hp hf fun hlocal => h hlocal f (by rw [hp]; rfl)

end State

/-! ### Tokens -/

section Tokens

variable {D : Disguise} {fs : FileSystem} {p : Preprocessor} {I : Preprocessor → Prop}
  (hstep : ∀ p, I p → (D.state p).step fs = (p.step fs).map D.state ∧ I (p.step fs).next)
include hstep

lemma produce_state (hp : I p) :
    (D.state p).produce fs = ((p.produce fs).1, D.state (p.produce fs).2) ∧ I (p.produce fs).2 := by
  fun_induction produce fs p with
  | case1 p t q h =>
    obtain ⟨hsame, hnext⟩ := hstep p hp
    rw [h] at hsame hnext
    rw [produce, hsame]
    exact ⟨rfl, hnext⟩
  | case2 p q h ih =>
    obtain ⟨hsame, hnext⟩ := hstep p hp
    rw [h] at hsame hnext
    rw [produce, hsame]
    exact ih hnext

variable (hpeek : ∀ p lookahead, I p → I { p with lookahead })
include hpeek

theorem next_state (hp : I p) :
    (D.state p).next fs = ((p.next fs).1, D.state (p.next fs).2) ∧ I (p.next fs).2 := by
  have hlookahead : (D.state p).lookahead = p.lookahead := rfl
  unfold next
  rw [hlookahead]
  cases p.lookahead with
  | some t => exact ⟨rfl, hpeek p none hp⟩
  | none => exact produce_state hstep hp

/-- The tokens in disguise are the same, as long as all steps are. -/
theorem drain_state (hp : I p) :
    (D.state p).drain fs = ((p.drain fs).1, D.state (p.drain fs).2) := by
  fun_induction drain fs p with
  | case1 p taken h => exact drain_of_eof (next_state hstep hpeek hp).1 h
  | case2 p taken h following ih =>
    obtain ⟨hnext, hfollowing⟩ := next_state hstep hpeek hp
    rw [drain_of_ne_eof hnext h, ih hfollowing]

end Tokens

end Disguise

end Preprocessor

end Shading
