import Shading.Proofs.Preprocessor.Depth
import Shading.Proofs.Preprocessor.Expanding
import Shading.Proofs.Preprocessor.GroupFaults
import Shading.Proofs.Preprocessor.Origins

/-!
# Reports about groups

Directives that are out of place among the open groups are reported in all text, selected or not. Reading a
source reports the faults of its groups, and nothing else about groups: what has been reported, together
with what is still to come, stays the same from step to step.
-/

namespace Shading

/-! ### What directives report -/

/-- The directives of a source that are still to come. -/
def Frame.directives (f : Frame) : List Directive :=
  Line.directives (Line.upcoming f.atLineStart f.lexemes)

/-- What is still to be reported about the groups of a source. -/
def Frame.groupFaults (f : Frame) : List Diagnostic :=
  Shading.groupFaults f.source.name f.stop (f.groups.map (·.elseSeen)) f.directives

namespace Preprocessor

/-- What has been reported about groups. -/
def groupReports (p : Preprocessor) : List Diagnostic :=
  p.diagnostics.filter (·.isGroupFault)

/-- Of each open group, whether its last branch has begun. -/
def opened (p : Preprocessor) : List Bool :=
  p.groups.map (·.elseSeen)

/-- A directive leaves these groups open, and this is reported about groups. -/
structure Judges (p q : Preprocessor) (opened : List Bool) (fault? : Option Rejection) : Prop where
  groups : ∃ groups, q.frames = (p.setGroups groups).frames ∧ groups.map (·.elseSeen) = opened
  reports : q.groupReports = p.groupReports ++ (fault?.map (·.diagnostic p.currentName)).toList

/-- What a directive leads to, also if it is rejected. -/
def JudgesTo (p : Preprocessor) (opened : List Bool) (fault? : Option Rejection) :
    Except Rejection Preprocessor → Prop
  | .ok q => Judges p q opened fault?
  | .error r => Judges p (p.reject r) opened fault?

section Directives

variable {fs : FileSystem} {p q : Preprocessor} {r : Rejection}

lemma groupReports_report {t : LocatedToken} {problem : Problem}
    (h : Diagnostic.isGroupFault ⟨p.currentName, t.location, t.token, problem⟩ = false) :
    (p.report t problem).groupReports = p.groupReports := by
  simp [groupReports, diagnostics, report, note, h]

lemma groupReports_reject (h : r.cause.isOfGroup = true) :
    (p.reject r).groupReports = p.groupReports ++ [r.diagnostic p.currentName] := by
  have hfault : (r.diagnostic p.currentName).isGroupFault = true := h
  simp only [groupReports, diagnostics, reject, error, report, note, Array.toList_push, List.filter_append]
  exact congrArg _ (List.filter_cons_of_pos hfault)

lemma groupReports_noteFaults (p : Preprocessor) (xs : List Lexeme) :
    (p.noteFaults xs).groupReports = p.groupReports := by
  have hnone : (xs.filterMap (·.diagnostic? p.currentName)).filter (·.isGroupFault) = [] := by
    apply List.filter_eq_nil_iff.2
    intro d hd
    obtain ⟨x, -, hx⟩ := List.mem_filterMap.1 hd
    obtain ⟨fault, -, rfl⟩ := Option.map_eq_some_iff.1 hx
    cases fault <;> simp [Diagnostic.isGroupFault, CompileError.isOfGroup]
  simp only [groupReports, diagnostics, noteFaults, Array.toList_append, List.filter_append, hnone,
    List.append_nil]

lemma judges_same (hframes : q.frames = p.frames) (hreports : q.groupReports = p.groupReports) :
    Judges p q p.opened none :=
  ⟨⟨p.groups, hframes.trans (frames_setGroups_groups p).symm, rfl⟩, by simp [hreports]⟩

lemma judges_refused (h : r.cause.IsPlain) : Judges p (p.reject r) p.opened none :=
  judges_same rfl (groupReports_report h.ofGroup)

lemma judges_misplaced (h : r.cause.isOfGroup = true) : Judges p (p.reject r) p.opened (some r) :=
  ⟨⟨p.groups, (frames_setGroups_groups p).symm, rfl⟩, groupReports_reject h⟩

lemma judges_regrouped (hframes : q.frames = p.frames) (hreports : q.groupReports = p.groupReports)
    (groups : List Group) : Judges p (q.setGroups groups) (groups.map (·.elseSeen)) none := by
  refine ⟨⟨groups, frames_setGroups hframes groups, rfl⟩, ?_⟩
  rw [groupReports, diagnostics_setGroups, ← groupReports, hreports]
  exact (List.append_nil _).symm

lemma groupReports_ask {question : Except Rejection Bool}
    (h : ∀ r, question = .error r → r.cause.IsPlain) : (p.ask question).1.groupReports = p.groupReports := by
  cases question with
  | ok answer => rfl
  | error r => exact groupReports_report (h r rfl).ofGroup

lemma judges_openGroup {question : Except Rejection Bool} (h : ∀ r, question = .error r → r.cause.IsPlain) :
    Judges p (p.openGroup question) (false :: p.opened) none := by
  unfold openGroup
  cases p.isActive with
  | true => exact judges_regrouped (frames_ask p question) (groupReports_ask h) _
  | false => exact judges_regrouped rfl rfl _

lemma judges_branchError {d : Directive} {name : String} {cause : DirectiveError}
    (h : branchError? name p.opened = some cause) :
    JudgesTo p p.opened ((branchError? name p.opened).map (.directive d.location (.identifier name)))
      (.error (.directive d.location (.identifier name) cause)) := by
  rw [h]
  apply judges_misplaced
  unfold branchError? at h
  split at h
  · obtain rfl := Option.some.inj h
    rfl
  · obtain rfl := Option.some.inj h
    rfl
  · cases h

lemma judges_openBranch (d : Directive) : JudgesTo p (Keyword.elseIf.openedBehind p.opened)
    ((Keyword.elseIf.groupError? p.opened).map (.directive d.location (.identifier "elif")))
    (p.openBranch d) := by
  unfold openBranch
  split
  next hgroups =>
    have hopened : p.opened = [] := by rw [opened, hgroups, List.map_nil]
    exact judges_branchError (by rw [hopened]; rfl)
  next g outer hgroups =>
    have hopened : p.opened = g.elseSeen :: outer.map (·.elseSeen) := by rw [opened, hgroups, List.map_cons]
    cases helse : g.elseSeen with
    | true => exact judges_branchError (by rw [hopened, helse]; rfl)
    | false =>
      have hbranch {asked : Preprocessor × Bool} (hframes : asked.1.frames = p.frames)
          (hreports : asked.1.groupReports = p.groupReports) :
          Judges p (asked.1.setGroups (g.branch asked.2 :: outer)) p.opened none := by
        rw [hopened]
        exact judges_regrouped hframes hreports _
      have hnone : branchError? "elif" p.opened = none := by rw [hopened, helse]; rfl
      rw [Keyword.groupError?, hnone]
      cases g.isOpenToBranch with
      | true => exact hbranch (frames_ask p _) (groupReports_ask fun _ h => Directive.asksForTruth_cause h)
      | false => exact hbranch rfl rfl

lemma judges_openLastBranch (d : Directive) : JudgesTo p (Keyword.otherwise.openedBehind p.opened)
    ((Keyword.otherwise.groupError? p.opened).map (.directive d.location (.identifier "else")))
    (p.openLastBranch d) := by
  unfold openLastBranch
  split
  next hgroups =>
    have hopened : p.opened = [] := by rw [opened, hgroups, List.map_nil]
    have hsame : Keyword.otherwise.openedBehind p.opened = p.opened := by rw [hopened]; rfl
    rw [hsame]
    exact judges_branchError (by rw [hopened]; rfl)
  next g outer hgroups =>
    have hopened : p.opened = g.elseSeen :: outer.map (·.elseSeen) := by rw [opened, hgroups, List.map_cons]
    cases helse : g.elseSeen with
    | true =>
      have hsame : Keyword.otherwise.openedBehind p.opened = p.opened := by rw [hopened, helse]; rfl
      rw [hsame]
      exact judges_branchError (by rw [hopened, helse]; rfl)
    | false =>
      have hnone : branchError? "else" p.opened = none := by rw [hopened, helse]; rfl
      rw [Keyword.groupError?, hnone, hopened]
      exact judges_regrouped rfl rfl (g.lastBranch :: outer)

lemma judges_closeGroup (d : Directive) : JudgesTo p (Keyword.endIf.openedBehind p.opened)
    ((Keyword.endIf.groupError? p.opened).map (.directive d.location (.identifier "endif")))
    (p.closeGroup d) := by
  unfold closeGroup
  split
  next hgroups =>
    have hopened : p.opened = [] := by rw [opened, hgroups, List.map_nil]
    have hjudges := judges_misplaced (p := p)
      (r := .directive d.location (.identifier "endif") (.withoutIf "endif")) rfl
    rw [hopened] at hjudges ⊢
    exact hjudges
  next g outer hgroups =>
    have hopened : p.opened = g.elseSeen :: outer.map (·.elseSeen) := by rw [opened, hgroups, List.map_cons]
    rw [hopened]
    exact judges_regrouped rfl rfl outer

/-- A directive that is no include does with the open groups what its keyword says, and reports what is out
of place. -/
theorem judges_obey (fs : FileSystem) (p : Preprocessor) {d : Directive}
    (hinclude : Keyword.ofName d.name ≠ .includeFile) :
    JudgesTo p ((Keyword.ofName d.name).openedBehind p.opened)
      (((Keyword.ofName d.name).groupError? p.opened).map (.directive d.location (.identifier d.name)))
      (p.obey fs d) := by
  obtain ⟨helif, helse, hendif⟩ := Keyword.spelling (k := Keyword.ofName d.name) rfl
  unfold obey
  cases hk : Keyword.ofName d.name with
  | ifDefined => exact judges_openGroup fun _ h => Directive.asksForMacro_cause h
  | ifNotDefined => exact judges_openGroup fun _ h => Directive.asksForMacro_cause h
  | ifHolds => exact judges_openGroup fun _ h => Directive.asksForTruth_cause h
  | elseIf =>
    rw [helif hk]
    exact judges_openBranch d
  | otherwise =>
    rw [helse hk]
    exact judges_openLastBranch d
  | endIf =>
    rw [hendif hk]
    exact judges_closeGroup d
  | includeFile => exact absurd hk hinclude
  | define =>
    dsimp only
    split
    · exact judges_same rfl rfl
    · cases hd : d.definition with
      | error r => exact judges_refused (Directive.definition_cause hd)
      | ok m => exact judges_same rfl rfl
  | undefine =>
    dsimp only
    split
    · exact judges_same rfl rfl
    · cases hd : d.macroName with
      | error r => exact judges_refused (Directive.macroName_cause hd)
      | ok name => exact judges_same rfl rfl
  | raise =>
    dsimp only
    split
    · exact judges_same rfl rfl
    · exact judges_refused ⟨id, rfl⟩
  | warn =>
    dsimp only
    split
    · exact judges_same rfl rfl
    · exact judges_same rfl (groupReports_report rfl)
  | ignored =>
    dsimp only
    split <;> exact judges_same rfl rfl
  | unknown =>
    dsimp only
    split
    · exact judges_same rfl rfl
    · exact judges_refused ⟨id, rfl⟩

lemma judges_obeyLine (fs : FileSystem) (p : Preprocessor) {hash : Location} {line : List LocatedToken}
    {d : Directive} (hd : (parseDirective hash line).bind (·.toOption) = some d)
    (hinclude : Keyword.ofName d.name ≠ .includeFile) :
    Judges p (p.obeyLine fs hash line) ((Keyword.ofName d.name).openedBehind p.opened)
      (((Keyword.ofName d.name).groupError? p.opened).map (.directive d.location (.identifier d.name))) := by
  unfold obeyLine
  rcases hparse : parseDirective hash line with _ | r | d'
  · rw [hparse] at hd
    cases hd
  · rw [hparse] at hd
    cases hd
  · rw [hparse] at hd
    obtain rfl := Option.some.inj hd
    have hjudges := judges_obey fs p hinclude
    dsimp only
    cases hobey : p.obey fs d' with
    | ok q =>
      rw [hobey] at hjudges
      exact hjudges
    | error r =>
      rw [hobey] at hjudges
      exact hjudges

lemma judges_obeyLine_none (fs : FileSystem) (p : Preprocessor) {hash : Location} {line : List LocatedToken}
    (hd : (parseDirective hash line).bind (·.toOption) = none) :
    Judges p (p.obeyLine fs hash line) p.opened none := by
  unfold obeyLine
  rcases hparse : parseDirective hash line with _ | r | d
  · exact judges_same rfl rfl
  · dsimp only
    split
    · exact judges_refused (parseDirective_cause hparse)
    · exact judges_same rfl rfl
  · rw [hparse] at hd
    cases hd

end Directives

/-! ### Steps -/

/-- All that is reported about groups: what has been reported, and what is still to come. -/
def verdict (p : Preprocessor) : List Diagnostic :=
  p.groupReports ++ if p.finished then [] else p.frames.flatMap (·.groupFaults)

/-- The state reads one source without includes, and these are the reports about its groups. -/
structure Judged (faults : List Diagnostic) (p : Preprocessor) : Prop where
  single : p.frames.tail = []
  includes : ∀ f ∈ p.frames, ∀ d ∈ f.directives, Keyword.ofName d.name ≠ .includeFile
  finished : p.finished = true → p.lexemes = []
  verdict : p.verdict = faults

section Steps

variable {fs : FileSystem} {p q : Preprocessor} {f f' : Frame} {faults : List Diagnostic}

lemma Judged.same (h : Judged faults p) (hframes : q.frames = p.frames) (hfinished : q.finished = p.finished)
    (hreports : q.groupReports = p.groupReports) : Judged faults q := by
  refine ⟨by rw [hframes]; exact h.single, by rw [hframes]; exact h.includes, ?_, ?_⟩
  · rw [hfinished, lexemes, hframes]
    exact h.finished
  · rw [← h.verdict, Preprocessor.verdict, Preprocessor.verdict, hframes, hfinished, hreports]

lemma Judged.read (h : Judged faults p) (hp : p.frames = [f]) (hq : q.frames = [f'])
    (hunfinished : p.finished = false) (hfinished : q.finished = p.finished)
    (hdirectives : f'.directives <:+ f.directives)
    (hreports : q.groupReports ++ f'.groupFaults = p.groupReports ++ f.groupFaults) : Judged faults q := by
  refine ⟨by rw [hq]; rfl, ?_, by simp [hfinished, hunfinished], ?_⟩
  · have hincludes := h.includes
    rw [hp, List.forall_mem_singleton] at hincludes
    rw [hq, List.forall_mem_singleton]
    exact fun d hd => hincludes d (hdirectives.subset hd)
  · have hverdict := h.verdict
    rw [Preprocessor.verdict, hp, hunfinished] at hverdict
    rw [← hverdict, Preprocessor.verdict, hq, hfinished, hunfinished]
    simpa using hreports

lemma groupReports_place (p : Preprocessor) (t : LocatedToken) :
    (p.place t).next.groupReports = p.groupReports := by
  unfold place
  split
  · rfl
  · split
    · exact groupReports_report rfl
    · rfl

lemma Judged.place (h : Judged faults p) (t : LocatedToken) : Judged faults (p.place t).next :=
  h.same (place_isPlaced p t).frames (place_isPlaced p t).finished (groupReports_place p t)

lemma judged_stepExpansion (h : Judged faults p) (e : Expansion) (outer : List Expansion) :
    Judged faults (p.stepExpansion e outer).next := by
  unfold stepExpansion
  split
  · exact h.same rfl rfl rfl
  next t rest _ =>
    dsimp only
    have hadvanced : Judged faults { p with expansions := { e with rest } :: outer } := h.same rfl rfl rfl
    split
    · exact hadvanced
    · exact hadvanced.place _

lemma judged_stepEnd (h : Judged faults p) (hp : p.frames = [f]) (hf : f.lexemes = []) :
    Judged faults (p.stepEnd f []).next := by
  have hdirectives : f.directives = [] := by
    rw [Frame.directives, hf]
    cases f.atLineStart <;> rfl
  unfold stepEnd
  dsimp only
  split
  · exact h
  next hunfinished =>
    have hverdict := h.verdict
    rw [verdict, if_neg hunfinished, hp, List.flatMap_singleton, Frame.groupFaults, hdirectives,
      groupFaults] at hverdict
    have hend {q : Preprocessor} (hq : q.frames = [f]) (hreports : q.groupReports = faults) :
        Judged faults { q with finished := true } := by
      refine ⟨by rw [hq]; rfl, ?_, ?_, ?_⟩
      · rw [hq, List.forall_mem_singleton, hdirectives]
        simp
      · exact fun _ => (lexemes_eq hq).trans hf
      · rw [← hreports]
        exact List.append_nil _
    cases hgroups : f.groups with
    | nil =>
      rw [hgroups] at hverdict
      exact hend hp (by simpa using hverdict)
    | cons g groups =>
      rw [hgroups] at hverdict
      have hname : p.currentName = f.source.name := by rw [currentName, hp]
      have hreported := groupReports_reject (p := p) (r := .directive f.stop .eof .unterminatedIf) rfl
      rw [hname] at hreported
      exact hend hp (hreported.trans hverdict)

lemma directives_hash {x : Lexeme} {rest : List Lexeme} (hf : f.lexemes = x :: rest)
    (hstart : f.atLineStart = true) (hx : x.token = .punct .hash) :
    f.directives = ((parseDirective x.location (((rest.takeWhile (·.token != .newline)).filter
        (!·.token.isSkipped)).map (·.located))).bind (·.toOption)).toList ++
      Frame.directives
        { f with lexemes := (rest.dropWhile (·.token != .newline)).drop 1, atLineStart := true } := by
  have hnewline : x.token ≠ .newline := by simp [hx]
  have hsplit := Line.split_eq (List.cons_ne_nil x rest)
  rw [List.dropWhile_cons, if_pos (by simpa using hnewline)] at hsplit
  have hdirective : (Line.first (x :: rest)).directive? = parseDirective x.location
      (((rest.takeWhile (·.token != .newline)).filter (!·.token.isSkipped)).map (·.located)) := by
    rw [Line.directive?, Line.words_first_hash hx]
    rfl
  rw [Frame.directives, hf, hstart, Line.upcoming, if_pos rfl, hsplit, Frame.directives, Line.upcoming,
    if_pos rfl, Line.directives, Line.directives, List.filterMap_cons, hdirective]
  rcases parseDirective x.location _ with _ | _ | d <;> rfl

lemma judged_obeyLine (fs : FileSystem) (h : Judged faults p) (hp : p.frames = [f])
    (hunfinished : p.finished = false) {r : Preprocessor} {lexemes : List Lexeme}
    (hr : r.frames = [{ f with lexemes, atLineStart := true }]) (hfinished : r.finished = p.finished)
    (hreports : r.groupReports = p.groupReports) {hash : Location} {line : List LocatedToken}
    (hdirectives : f.directives = ((parseDirective hash line).bind (·.toOption)).toList ++
      Frame.directives { f with lexemes, atLineStart := true }) :
    Judged faults (r.obeyLine fs hash line) := by
  have hopened : r.opened = f.groups.map (·.elseSeen) := by rw [opened, Preprocessor.groups, hr]
  have hname : r.currentName = f.source.name := by rw [currentName, hr]
  have hbehind : Frame.directives { f with lexemes, atLineStart := true } <:+ f.directives := by
    rw [hdirectives]
    exact List.suffix_append _ _
  have hobeyed {opened : List Bool} {fault? : Option Rejection}
      (hjudges : Judges r (r.obeyLine fs hash line) opened fault?)
      (hfaults : f.groupFaults = (fault?.map (·.diagnostic r.currentName)).toList ++
        Shading.groupFaults f.source.name f.stop opened
          (Frame.directives { f with lexemes, atLineStart := true })) :
      Judged faults (r.obeyLine fs hash line) := by
    obtain ⟨⟨groups, hq, rfl⟩, hqreports⟩ := hjudges
    rw [setGroups, mapTop, hr] at hq
    refine h.read hp hq hunfinished ((obeys_obeyLine fs r hash line).finished.trans hfinished) hbehind ?_
    rw [hqreports, hreports, hfaults, List.append_assoc]
    rfl
  cases hd : (parseDirective hash line).bind (·.toOption) with
  | none =>
    refine hobeyed (judges_obeyLine_none fs r hd) ?_
    rw [Frame.groupFaults, hdirectives, hd, hopened]
    rfl
  | some d =>
    have hinclude : Keyword.ofName d.name ≠ .includeFile :=
      h.includes f (by simp [hp]) d (by rw [hdirectives, hd]; exact List.mem_cons_self)
    refine hobeyed (judges_obeyLine fs r hd hinclude) ?_
    rw [Frame.groupFaults, hdirectives, hd, hopened, hname, Option.map_map]
    rfl

lemma judged_stepLexeme (fs : FileSystem) (h : Judged faults p) (hp : p.frames = [f]) {x : Lexeme}
    {rest : List Lexeme} (hf : f.lexemes = x :: rest) : Judged faults (p.stepLexeme fs f [] x rest).next := by
  have hunfinished : p.finished = false := by
    by_contra hfinished
    have hnone := h.finished (Bool.eq_true_of_not_eq_false hfinished)
    rw [lexemes_eq hp, hf] at hnone
    cases hnone
  have hpassed (hhash : ¬(x.token = .punct .hash && f.atLineStart) = true) :
      Judged faults (p.afterLexeme f [] x rest (x.startsLineBehind f.atLineStart)) := by
    have hdirectives : Frame.directives
        { f with lexemes := rest, atLineStart := x.startsLineBehind f.atLineStart } = f.directives := by
      rw [Frame.directives, Frame.directives, hf, Line.directives, Line.directives,
        Line.upcoming_passed hhash]
    refine h.read hp rfl hunfinished rfl (by rw [hdirectives]) ?_
    rw [Frame.groupFaults, Frame.groupFaults, hdirectives]
    exact congrArg (· ++ _) (groupReports_noteFaults p [x])
  apply stepLexeme_cases (motive := fun s => Judged faults s.next)
  case passed => exact hpassed
  case directive =>
    intro hhash hstart
    refine judged_obeyLine fs h hp hunfinished ?_ ?_ ?_ (directives_hash hf hstart hhash)
    · rfl
    · rfl
    · rw [groupReports_noteFaults]
      exact groupReports_noteFaults p [x]
  case placed =>
    intro hnewline hskipped hhash _
    have hstart : x.startsLineBehind f.atLineStart = false := by
      simp [Lexeme.startsLineBehind, hskipped, hnewline]
    have hread := hpassed hhash
    rw [hstart] at hread
    exact hread.place _

/-- A step changes nothing about what is reported about groups in the end. -/
theorem judged_step (fs : FileSystem) (h : Judged faults p) : Judged faults (p.step fs).next := by
  unfold step
  split
  · exact judged_stepExpansion h _ _
  · split
    next hp =>
      refine ⟨by rw [Step.next, hp]; rfl, ?_, ?_, ?_⟩
      · simp [Step.next, hp]
      · simp [Step.next, hp, lexemes]
      · have hverdict := h.verdict
        rw [verdict, hp] at hverdict
        rw [verdict, ← hverdict]
        simp [Step.next, hp, groupReports, diagnostics]
    next f outer hp =>
      obtain rfl : outer = [] := by
        have hsingle := h.single
        rwa [hp] at hsingle
      split
      next hf => exact judged_stepEnd h hp hf
      next hf => exact judged_stepLexeme fs h hp hf

/-- All of it is reported once preprocessing is finished. -/
theorem Judged.drain (h : Judged faults p) (hsignificant : Significant p) (hlookahead : p.lookahead = none) :
    (p.drain fs).2.groupReports = faults := by
  obtain ⟨hjudged, hfinished⟩ := drain_keeps (fun _ hq => judged_step fs hq) h hsignificant hlookahead
  rw [← hjudged.verdict, Preprocessor.verdict, if_pos hfinished, List.append_nil]

end Steps

end Preprocessor

/-! ### Sources -/

/-- What a source holds; one that cannot be read holds nothing. -/
def Source.lexemes (fs : FileSystem) (source : Source) : Lexemes :=
  match (source.load fs).1 with
  | .ok content => .ofBytes content
  | .error _ => { list := [], stop := .start }

namespace Preprocessor

lemma judged_start (c : Compiler) (fs : FileSystem) (source : Source)
    (hincludes : ∀ l ∈ Line.split (source.lexemes fs).list, l.keyword? ≠ some .includeFile) :
    Judged (groupFaults source.name (source.lexemes fs).stop []
      (Line.directives (Line.split (source.lexemes fs).list))) (c.preprocessor fs source) := by
  have hname := (source.load_backing fs).1
  unfold Source.lexemes at *
  unfold Compiler.preprocessor start
  rcases hload : source.load fs with ⟨_ | content, loaded⟩
  · refine ⟨rfl, by simp [error, report, note], fun _ => rfl, rfl⟩
  · rw [hload] at hincludes hname
    refine ⟨rfl, ?_, by simp, ?_⟩
    · rw [List.forall_mem_singleton]
      intro d hd
      obtain ⟨parsed, hparsed, hd⟩ := List.mem_filterMap.1 hd
      obtain ⟨l, hl, hdirective⟩ := List.mem_filterMap.1 hparsed
      cases parsed with
      | error r => cases hd
      | ok d' =>
        obtain rfl := Option.some.inj hd
        have hkeyword := hincludes l hl
        rw [Line.keyword?, hdirective] at hkeyword
        exact fun hinclude => hkeyword (congrArg some hinclude)
    · rw [← hname]
      simp [verdict, Frame.groupFaults, Frame.directives, Frame.ofContent, Line.upcoming, groupReports,
        diagnostics]

/-- In a source without includes the reports about groups are those that its directives lead to, whatever
macros and limits there are and whatever conditions hold. There are none of them exactly if the source is a
section with well nested groups. -/
theorem groupReports_drain {c : Compiler} (hc : c.Reachable) (fs : FileSystem) (source : Source)
    (hincludes : ∀ l ∈ Line.split (source.lexemes fs).list, l.keyword? ≠ some .includeFile) :
    let reports := fun c : Compiler => ((c.preprocessor fs source).drain fs).2.groupReports
    reports c = groupFaults source.name (source.lexemes fs).stop []
        (Line.directives (Line.split (source.lexemes fs).list)) ∧
      (reports c = [] ↔ ∃ s : Section, s.lines = Line.split (source.lexemes fs).list) ∧
      ∀ c' : Compiler, c'.Reachable → reports c' = reports c := by
  intro reports
  have hreports {c : Compiler} (hc : c.Reachable) : reports c = groupFaults source.name
      (source.lexemes fs).stop [] (Line.directives (Line.split (source.lexemes fs).list)) :=
    (judged_start c fs source hincludes).drain (significant_start hc fs source)
      (preprocessor_start c fs source).1
  refine ⟨hreports hc, ?_, fun c' hc' => (hreports hc').trans (hreports hc).symm⟩
  rw [hreports hc]
  exact groupFaults_eq_nil_iff hincludes

/-- A branch without a group, and within a branch that is not selected a group with two last branches. Neither
of the two groups ends. -/
def misplacedBranches : Source :=
  .ofBytes "s" (Text.bytes "#elif 1\n#if 0\n#ifdef A\n#else\n#else\n")

theorem groupReports_drain_misplacedBranches :
    let p := ({} : Compiler).preprocessor .empty misplacedBranches
    Compiler.Reachable {} ∧
      (∀ l ∈ Line.split (misplacedBranches.lexemes .empty).list, l.keyword? ≠ some .includeFile) ∧
      (p.drain .empty).2.groupReports =
        [⟨"s", ⟨0, 1⟩, .identifier "elif", .error (.directive (.withoutIf "elif"))⟩,
          ⟨"s", ⟨4, 1⟩, .identifier "else", .error (.directive (.afterElse "else"))⟩,
          ⟨"s", ⟨5, 0⟩, .eof, .error (.directive .unterminatedIf)⟩] := by
  have hincludes : ∀ l ∈ Line.split (misplacedBranches.lexemes .empty).list,
      l.keyword? ≠ some .includeFile := by
    decide +kernel
  refine ⟨.new {}, hincludes, ?_⟩
  exact (groupReports_drain (.new {}) .empty misplacedBranches hincludes).1.trans (by decide +kernel)

end Preprocessor

end Shading
