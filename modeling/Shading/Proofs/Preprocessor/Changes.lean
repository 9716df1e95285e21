import Shading.Proofs.Preprocessor.Causes
import Shading.Proofs.Preprocessor.Log

/-!
# The changes that steps are made of

A step changes the state in a few single ways. What each of them keeps, all of preprocessing
keeps.
-/

namespace Shading.Preprocessor

/-- What is left of the current source. -/
def lexemes (p : Preprocessor) : List Lexeme :=
  match p.frames with
  | [] => []
  | f :: _ => f.lexemes

/-- The single changes within a step from the state `r`. -/
inductive Change (fs : FileSystem) (r : Preprocessor) : Preprocessor → Preprocessor → Prop
  | report (p : Preprocessor) (t : LocatedToken) {problem : Problem}
      (h : ∀ cause, problem ≠ .error (.syntactic cause)) : Change fs r p (p.report t problem)
  | noteFaults (p : Preprocessor) (xs : List Lexeme) : Change fs r p (p.noteFaults xs)
  | regroup (p : Preprocessor) (groups : List Group) : Change fs r p (p.setGroups groups)
  | read {p : Preprocessor} {f : Frame} {outer : List Frame} (hp : p.frames = f :: outer)
      {lexemes : List Lexeme} (h : lexemes <:+ f.lexemes) (atLineStart : Bool) :
      Change fs r p { p with frames := { f with lexemes, atLineStart } :: outer }
  | leave {p : Preprocessor} {f : Frame} {outer : List Frame} (hp : p.frames = f :: outer)
      (houter : outer ≠ []) : Change fs r p { p with frames := outer }
  | enter (p : Preprocessor) (source : Source) (content : List UInt8)
      (h : p.frames.length ≤ p.limits.includeDepth) :
      Change fs r p { p with frames := Frame.ofContent fs source content :: p.frames }
  | define (p : Preprocessor) {d : Directive} {m : Definition} (h : d.definition = .ok m)
      (hargs : ∀ t ∈ d.args, ∃ x ∈ r.lexemes,
        x.located = t ∧ x.token.isSkipped = false ∧ x.token ≠ .newline) :
      Change fs r p { p with defines := p.defines.insert m.name m }
  | undefine (p : Preprocessor) (name : String) :
      Change fs r p { p with defines := p.defines.erase name }
  | call {p : Preprocessor} {name : String} {d : Definition} {t : Token}
      (h : p.calledMacro? t = some (name, d))
      (hroom : p.expansions.length < p.limits.expansion) (location : Location) :
      Change fs r p
        { p with expansions := ⟨name, location, d.body.map (·.token)⟩ :: p.expansions }
  | advance {p : Preprocessor} {e : Expansion} {outer : List Expansion} {t : Token}
      {rest : List Token} (hp : p.expansions = e :: outer) (he : e.rest = t :: rest) :
      Change fs r p { p with expansions := { e with rest } :: outer }
  | endExpansion {p : Preprocessor} {e : Expansion} {outer : List Expansion}
      (hp : p.expansions = e :: outer) (he : e.rest = []) :
      Change fs r p { p with expansions := outer }
  | finish (p : Preprocessor) : Change fs r p { p with finished := true }

def Changes (fs : FileSystem) (r : Preprocessor) : Preprocessor → Preprocessor → Prop :=
  Relation.ReflTransGen (Change fs r)

/-- What a directive leads to: some changes, or a rejection that is no syntax error. -/
def ChangesTo (fs : FileSystem) (r p : Preprocessor) : Except Rejection Preprocessor → Prop
  | .ok q => Changes fs r p q
  | .error rejection => ¬rejection.cause.IsSyntactic

section Changes

variable (fs : FileSystem) (r p : Preprocessor)

lemma change_reject {rejection : Rejection} (h : ¬rejection.cause.IsSyntactic) :
    Change fs r p (p.reject rejection) := by
  apply Change.report p rejection.token
  intro cause hcause
  rw [Problem.error.inj hcause] at h
  exact h trivial

lemma changes_ask {question : Except Rejection Bool}
    (h : ∀ rejection, question = .error rejection → ¬rejection.cause.IsSyntactic) :
    Changes fs r p (p.ask question).1 := by
  cases question with
  | ok answer => exact .refl
  | error rejection => exact .single (change_reject fs r p (h rejection rfl))

lemma changes_openGroup {question : Except Rejection Bool}
    (h : ∀ rejection, question = .error rejection → ¬rejection.cause.IsSyntactic) :
    Changes fs r p (p.openGroup question) := by
  refine .tail ?_ (.regroup _ _)
  split
  · exact changes_ask fs r p h
  · exact .refl

lemma changes_openBranch (d : Directive) : ChangesTo fs r p (p.openBranch d) := by
  unfold openBranch
  split
  · exact id
  · split
    · exact id
    · refine .tail ?_ (.regroup _ _)
      split
      · exact changes_ask fs r p (fun _ h => (Directive.asksForTruth_cause h).syntactic)
      · exact .refl

lemma changes_openLastBranch (d : Directive) : ChangesTo fs r p (p.openLastBranch d) := by
  unfold openLastBranch
  split
  · exact id
  · split
    · exact id
    · exact .single (.regroup p _)

lemma changes_closeGroup (d : Directive) : ChangesTo fs r p (p.closeGroup d) := by
  unfold closeGroup
  split
  · exact id
  · exact .single (.regroup p _)

lemma includedFrame_ofContent {base : Source} {isLocal : Bool} {name : String} {frame : Frame}
    (h : includedFrame fs base isLocal name = .ok frame) :
    ∃ source content, frame = Frame.ofContent fs source content := by
  unfold includedFrame at h
  cases hsource : base.resolveInclude fs isLocal name with
  | error e =>
    rw [hsource] at h
    cases h
  | ok source =>
    rw [hsource] at h
    simp only [bind, Except.bind] at h
    split at h
    next content loaded _ => exact ⟨loaded, content, (Except.ok.inj h).symm⟩
    · cases h

lemma changes_enter (location : Location) (isLocal : Bool) (name : String) :
    ChangesTo fs r p (p.enter fs location isLocal name) := by
  apply enter_cases (motive := ChangesTo fs r p)
  case nothing => exact fun _ => .refl
  case tooDeep => exact fun _ _ _ _ => id
  case unresolved => exact fun _ _ _ _ _ hframe => (includedFrame_cause hframe).syntactic
  case cyclic => exact fun _ _ _ _ _ _ _ _ _ => id
  case entered =>
    intro f _ _ hroom frame hframe _
    obtain ⟨source, content, rfl⟩ := includedFrame_ofContent fs hframe
    exact .single (.enter p source content hroom)

lemma changes_obey {d : Directive} (hargs : ∀ t ∈ d.args, ∃ x ∈ r.lexemes,
      x.located = t ∧ x.token.isSkipped = false ∧ x.token ≠ .newline) :
    ChangesTo fs r p (p.obey fs d) := by
  apply obey_cases (motive := ChangesTo fs r p)
  case ifDefined | ifNotDefined =>
    exact fun _ => changes_openGroup fs r p fun _ h => (Directive.asksForMacro_cause h).syntactic
  case ifHolds =>
    exact fun _ => changes_openGroup fs r p fun _ h => (Directive.asksForTruth_cause h).syntactic
  case elseIf => exact fun _ => changes_openBranch fs r p d
  case otherwise => exact fun _ => changes_openLastBranch fs r p d
  case endIf => exact fun _ => changes_closeGroup fs r p d
  case inactive | ignored => exact fun _ => .refl
  case define => exact fun _ _ m hd => .single (.define p hd hargs)
  case undefine => exact fun _ _ name _ => .single (.undefine p name)
  case includeFile => exact fun _ _ isLocal name _ => changes_enter fs r p d.location isLocal name
  case noDefinition => exact fun _ _ _ hd => (Directive.definition_cause hd).syntactic
  case noMacro => exact fun _ _ _ hd => (Directive.macroName_cause hd).syntactic
  case noFile => exact fun _ _ _ hd => (Directive.includedName_cause hd).syntactic
  case raise | unknown => exact fun _ _ => id
  case warn => exact fun _ _ => .single (.report p _ (by simp))

lemma changes_obeyLine (hash : Location) {line : List LocatedToken}
    (hline : ∀ t ∈ line, ∃ x ∈ r.lexemes,
      x.located = t ∧ x.token.isSkipped = false ∧ x.token ≠ .newline) :
    Changes fs r p (p.obeyLine fs hash line) := by
  have hobey {location : Location} {name : String} {args : List LocatedToken}
      (h : line = ⟨location, .identifier name⟩ :: args) :
      ChangesTo fs r p (p.obey fs { hash, name, location, args }) := by
    rw [h] at hline
    exact changes_obey fs r p fun t ht => hline t (List.mem_cons_of_mem _ ht)
  apply obeyLine_cases (motive := Changes fs r p)
  case same => exact .refl
  case noName => exact fun _ _ _ => .single (change_reject fs r p id)
  case obeyed =>
    intro location name args q hargs hq
    have hchanges := hobey hargs
    rwa [hq] at hchanges
  case rejected =>
    intro location name args rejection hargs hrejection
    have hcause := hobey hargs
    rw [hrejection] at hcause
    exact .single (change_reject fs r p hcause)

lemma changes_place (t : LocatedToken) : Changes fs r p (p.place t).next := by
  unfold place
  cases hcall : p.calledMacro? t.token with
  | none => exact .refl
  | some called =>
    dsimp only
    split
    · exact .single (.report p t (by simp))
    next hroom => exact .single (.call hcall (by omega) t.location)

lemma changes_stepExpansion {e : Expansion} {outer : List Expansion}
    (hp : p.expansions = e :: outer) : Changes fs r p (p.stepExpansion e outer).next := by
  unfold stepExpansion
  split
  next he => exact .single (.endExpansion hp he)
  next t rest he =>
    dsimp only
    split
    · exact .single (.advance hp he)
    · exact (Relation.ReflTransGen.single (.advance hp he)).trans (changes_place fs r _ _)

lemma changes_stepEnd {f : Frame} {outer : List Frame} (hp : p.frames = f :: outer) :
    Changes fs r p (p.stepEnd f outer).next := by
  have hend (q : Preprocessor) (hq : q.frames = f :: outer) : Changes fs r q
      (if outer.isEmpty then Step.deliver ⟨f.stop, .eof⟩ { q with finished := true }
        else .proceed { q with frames := outer }).next := by
    split
    · exact .single (.finish q)
    next houter => exact .single (.leave hq (by simpa using houter))
  unfold stepEnd
  dsimp only
  split
  · exact .refl
  · cases f.groups.isEmpty with
    | true => exact hend p hp
    | false => exact .head (.report p _ (by simp)) (hend _ hp)

lemma changes_stepLexeme {f : Frame} {outer : List Frame} (hp : p.frames = f :: outer)
    {x : Lexeme} {rest : List Lexeme} (hf : f.lexemes = x :: rest) :
    Changes fs p p (p.stepLexeme fs f outer x rest).next := by
  have hrest : rest <:+ f.lexemes := by
    rw [hf]
    exact List.suffix_cons x rest
  have hmove {lexemes : List Lexeme} (h : lexemes <:+ f.lexemes) (atLineStart : Bool) :
      Changes fs p p (p.afterLexeme f outer x lexemes atLineStart) := by
    have hnoted : (p.noteFaults [x]).frames = f :: outer := hp
    exact .tail (.single (.noteFaults p [x])) (.read hnoted h atLineStart)
  apply stepLexeme_cases (motive := fun s => Changes fs p p s.next)
  case passed => exact fun _ => hmove hrest _
  case directive =>
    intro _ _
    have hline : ∀ t ∈ ((rest.takeWhile (·.token != .newline)).filter
        (!·.token.isSkipped)).map (·.located), ∃ x ∈ p.lexemes,
          x.located = t ∧ x.token.isSkipped = false ∧ x.token ≠ .newline := by
      intro t ht
      obtain ⟨y, hy, rfl⟩ := List.mem_map.1 ht
      obtain ⟨hytake, hyskip⟩ := List.mem_filter.1 hy
      have hyrest : y ∈ p.lexemes := by
        rw [lexemes, hp]
        exact hrest.subset ((List.takeWhile_prefix _).subset hytake)
      have hynewline := List.mem_takeWhile_imp hytake
      exact ⟨y, hyrest, rfl, by simpa using hyskip, by simpa using hynewline⟩
    have hfollowing : (rest.dropWhile (·.token != .newline)).drop 1 <:+ f.lexemes :=
      (List.drop_suffix _ _).trans ((List.dropWhile_suffix _).trans hrest)
    have hfaults := (hmove hfollowing true).tail
      (.noteFaults _ (rest.takeWhile (·.token != .newline)))
    exact hfaults.trans (changes_obeyLine fs p _ x.location hline)
  case placed => exact fun _ _ _ _ => (hmove hrest false).trans (changes_place fs p _ _)

theorem changes_step : Changes fs p p (p.step fs).next := by
  unfold step
  split
  next hp => exact changes_stepExpansion fs p p hp
  · split
    · exact .single (.finish p)
    next hp =>
      split
      · exact changes_stepEnd fs p p hp
      next hf => exact changes_stepLexeme fs p hp hf

end Changes

section Kept

variable {fs : FileSystem} {r p q : Preprocessor}

/-- Steps leave the settings and the token that is looked at as they are. -/
theorem changes_keep (h : Changes fs r p q) :
    q.limits = p.limits ∧ q.mainName = p.mainName ∧ q.lookahead = p.lookahead := by
  induction h with
  | refl => exact ⟨rfl, rfl, rfl⟩
  | tail _ hlast ih =>
    cases hlast with
    | regroup groups =>
      unfold setGroups mapTop
      split <;> exact ih
    | _ => exact ih

/-- What all changes within a step keep, the step keeps. -/
theorem step_keeps {I : Preprocessor → Prop} (hI : ∀ q r, Change fs p q r → I q → I r) (hp : I p) :
    I (p.step fs).next := by
  have hkeep {q : Preprocessor} (h : Changes fs p p q) : I q := by
    induction h with
    | refl => exact hp
    | tail _ hlast ih => exact hI _ _ hlast ih
  exact hkeep (changes_step fs p)

def SyntaxFree (p : Preprocessor) : Prop :=
  ∀ d ∈ p.log, d.syntaxError? = none

lemma syntaxFree_changes (h : Changes fs r p q) (hp : SyntaxFree p) : SyntaxFree q := by
  induction h with
  | refl => exact hp
  | tail _ hlast ih =>
    cases hlast with
    | report t hproblem =>
      intro d hd
      rcases Array.mem_push.1 hd with hd | rfl
      · exact ih d hd
      · exact syntaxError?_eq_none hproblem
    | noteFaults xs =>
      intro d hd
      rcases Array.mem_append.1 hd with hd | hd
      · exact ih d hd
      · obtain ⟨x, _, hx⟩ := List.mem_filterMap.1 (List.mem_toArray.1 hd)
        obtain ⟨fault, _, rfl⟩ := Option.map_eq_some_iff.1 hx
        apply syntaxError?_eq_none
        intro cause
        cases fault <;> simp
    | regroup groups =>
      unfold setGroups mapTop
      split <;> exact ih
    | _ => exact ih

/-- What every step keeps, taking a token keeps. -/
theorem produce_induction {I : Preprocessor → Prop} (hI : ∀ p, I p → I (p.step fs).next)
    (hp : I p) : I (p.produce fs).2 := by
  fun_induction produce fs p with
  | case1 p t q hstep =>
    have hq := hI p hp
    rw [hstep] at hq
    exact hq
  | case2 p q hstep ih =>
    have hq := hI p hp
    rw [hstep] at hq
    exact ih hq

lemma syntaxFree_next (h : SyntaxFree p) : SyntaxFree (p.next fs).2 := by
  unfold next
  split
  · exact h
  · exact produce_induction (fun p hp => syntaxFree_changes (changes_step fs p) hp) h

def syntaxErrors (p : Preprocessor) : List (LocatedToken × SyntaxError) :=
  p.diagnostics.filterMap (·.syntaxError?)

lemma next_syntaxErrors (fs : FileSystem) (p : Preprocessor) :
    (p.next fs).2.syntaxErrors = p.syntaxErrors := by
  have hfree : SyntaxFree (({ p with log := #[] } : Preprocessor).next fs).2 := by
    apply syntaxFree_next
    simp [SyntaxFree]
  have hnone : (({ p with log := #[] } : Preprocessor).next fs).2.syntaxErrors = [] := by
    apply List.filterMap_eq_nil_iff.2
    intro d hd
    exact hfree d (Array.mem_toList_iff.1 hd)
  have hnext := next_precededBy p.log { p with log := #[] } fs
  rw [← precededBy_log] at hnext
  rw [hnext]
  simp only [syntaxErrors, diagnostics, precededBy, Array.toList_append, List.filterMap_append]
  exact (congrArg _ hnone).trans (List.append_nil _)

end Kept

end Shading.Preprocessor
