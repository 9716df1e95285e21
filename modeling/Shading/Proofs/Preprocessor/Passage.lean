import Shading.Proofs.Preprocessor.Expanding
import Shading.Proofs.Preprocessor.Nesting

/-!
# Passages over lines

The macros and the open groups before a line and the line itself decide what the line delivers and
reports and which macros and groups there are behind it, whatever follows.
-/

namespace Shading.Preprocessor

/-! ### Lines on which nothing is delivered -/

section Silent

variable {fs : FileSystem} {p : Preprocessor}

/-- Skipped tokens, and all words where the text does not count, only have their faults noted. -/
theorem silent_run (fs : FileSystem) (hexpansions : p.expansions = []) {f : Frame}
    {outer : List Frame} (hframes : p.frames = f :: outer) {line rest : List Lexeme}
    (hlexemes : f.lexemes = line ++ rest) (hbreaks : ∀ x ∈ line, x.token ≠ .newline)
    (hhash : NoHash f.atLineStart line)
    (hsilent : f.isActive = false ∨ ∀ x ∈ line, x.token.isSkipped = true) :
    Run fs p [] (p.afterLine line rest (line.filterMap (·.diagnostic? p.currentName))) := by
  induction line generalizing p f with
  | nil =>
    rw [List.filterMap_nil, afterLine_nil hframes hlexemes]
    exact .done p
  | cons x line ih =>
    have hproceed : p.step fs = .proceed
        (p.afterLexeme f outer x (line ++ rest) (f.atLineStart && x.token.isSkipped)) := by
      rw [step_eq_stepLexeme fs hexpansions hframes hlexemes, stepLexeme]
      by_cases hskipped : x.token.isSkipped = true
      · rw [if_pos hskipped, hskipped, Bool.and_true]
        rfl
      · have hinactive : ¬f.isActive = true := by
          rcases hsilent with h | h
          · simp [h]
          · exact absurd (h x List.mem_cons_self) hskipped
        rw [if_neg hskipped, if_neg (hbreaks x List.mem_cons_self), if_neg (hhash.head hskipped),
          if_neg hinactive, Bool.eq_false_of_not_eq_true hskipped, Bool.and_false]
        rfl
    have hbreaks' : ∀ y ∈ line, y.token ≠ .newline := by
      intro y hy
      exact hbreaks y (List.mem_cons_of_mem x hy)
    have hline := ih (p := (p.afterLexeme f outer x (line ++ rest)
        (f.atLineStart && x.token.isSkipped)).noteAll []) hexpansions rfl rfl hbreaks' hhash.tail
      (hsilent.imp id fun h y hy => h y (List.mem_cons_of_mem x hy))
    have hname : ((p.afterLexeme f outer x (line ++ rest)
        (f.atLineStart && x.token.isSkipped)).noteAll []).currentName = p.currentName := by
      unfold currentName
      rw [hframes]
      rfl
    have hfaults : (x :: line).filterMap (·.diagnostic? p.currentName) =
        (x.diagnostic? p.currentName).toList ++ [] ++
          line.filterMap (·.diagnostic? p.currentName) := by
      cases hx : x.diagnostic? p.currentName <;> simp [hx]
    rw [hname, afterLine_afterLexeme hframes, noteAll_nil] at hline
    rw [hfaults]
    exact .proceed hproceed hline

lemma hash_step (fs : FileSystem) (hexpansions : p.expansions = []) {f : Frame}
    {outer : List Frame} (hframes : p.frames = f :: outer) (hstart : f.atLineStart = true)
    {x : Lexeme} (hx : x.token = .punct .hash) {args rest : List Lexeme} {stop : Option Lexeme}
    (hlexemes : f.lexemes = x :: (args ++ (stop.toList ++ rest)))
    (hargs : ∀ y ∈ args, y.token ≠ .newline) (hstop : ∀ y ∈ stop, y.token = .newline)
    (hrest : stop = none → rest = []) :
    p.step fs = .proceed (((p.afterLexeme f outer x rest true).noteFaults args).obeyLine fs
      x.location ((args.filter (!·.token.isSkipped)).map (·.located))) := by
  have htake : (args ++ (stop.toList ++ rest)).takeWhile (·.token != .newline) = args ∧
      ((args ++ (stop.toList ++ rest)).dropWhile (·.token != .newline)).drop 1 = rest := by
    have hall : ∀ y ∈ args, (y.token != .newline) = true := by
      intro y hy
      simpa using hargs y hy
    rw [List.takeWhile_append_of_pos hall, List.dropWhile_append_of_pos hall]
    cases stop with
    | none => simp [hrest rfl]
    | some y => simp [hstop y rfl]
  have hhash : (x.token = .punct .hash && f.atLineStart) = true := by simp [hx, hstart]
  rw [step_eq_stepLexeme fs hexpansions hframes hlexemes, stepLexeme, if_neg (by simp [hx]; rfl),
    if_neg (by simp [hx]), if_pos hhash]
  simp only [htake.1, htake.2]
  rfl

/-- The state behind a line whose tokens have been skipped: only their faults are reported. -/
def skipLine (p : Preprocessor) (l : Line) (rest : List Lexeme) : Preprocessor :=
  (p.mapTop fun f => { f with lexemes := rest, atLineStart := true }).noteAll (l.faults p.currentName)

/-- A line with a directive is read before the directive is obeyed. -/
lemma hashLine_run (fs : FileSystem) (hexpansions : p.expansions = []) {f : Frame} {outer : List Frame}
    (hframes : p.frames = f :: outer) (hstart : f.atLineStart = true) {l : Line} (hl : l.IsLine)
    {hash : Location} {args : List LocatedToken} (hwords : l.words = ⟨hash, .punct .hash⟩ :: args)
    {rest : List Lexeme} (hlexemes : f.lexemes = l.lexemes ++ rest) (hrest : l.stop = none → rest = []) :
    Run fs p [] ((p.skipLine l rest).obeyLine fs hash args) := by
  obtain ⟨x, later, hfilter, hx, rfl⟩ := List.map_eq_cons_iff.1 hwords
  obtain ⟨skipped, tail, hcontent, hskipped, _, rfl⟩ := List.filter_eq_cons_iff.1 hfilter
  obtain ⟨rfl, htoken⟩ := LocatedToken.mk.inj hx
  have hsplit : f.lexemes = skipped ++ (x :: (tail ++ (l.stop.toList ++ rest))) := by
    simp [hlexemes, Line.lexemes, hcontent]
  have hbreaks (y : Lexeme) (hy : y ∈ l.content) := hl.content y hy
  rw [hcontent] at hbreaks
  have hskipped' : ∀ y ∈ skipped, y.token.isSkipped = true := by simpa using hskipped
  have hnohash : NoHash f.atLineStart skipped := by
    intro _
    rw [List.filter_eq_nil_iff.2 (by simpa using hskipped)]
    simp
  have hfront := silent_run fs hexpansions hframes hsplit
    (fun y hy => hbreaks y (List.mem_append_left _ hy)) hnohash (.inr hskipped')
  have hline : (f.atLineStart && skipped.all (·.token.isSkipped)) = true := by
    rw [hstart, List.all_eq_true.2 hskipped', Bool.and_self]
  let between := p.afterLine skipped (x :: (tail ++ (l.stop.toList ++ rest)))
    (skipped.filterMap (·.diagnostic? p.currentName))
  let g : Frame := { f with lexemes := x :: (tail ++ (l.stop.toList ++ rest)), atLineStart := true }
  have hbetween : between.expansions = [] ∧ between.frames = g :: outer := by
    simp [between, g, afterLine, mapTop, noteAll, hframes, hline, hexpansions]
  have hstep := hash_step fs (p := between) hbetween.1 hbetween.2 rfl htoken rfl
    (fun y hy => hbreaks y (by simp [hy])) (fun y hy => (hl.stop y hy).1) hrest
  have hbehind : (between.afterLexeme g outer x rest true).noteFaults tail = p.skipLine l rest := by
    have hfaults : l.faults p.currentName = skipped.filterMap (·.diagnostic? p.currentName) ++
        ([x].filterMap (·.diagnostic? p.currentName) ++ tail.filterMap (·.diagnostic? p.currentName)) := by
      rw [Line.faults, hcontent, ← List.filterMap_append, ← List.filterMap_append]
      rfl
    rw [skipLine, hfaults]
    simp [between, g, afterLexeme, noteFaults, afterLine, mapTop, noteAll, hframes, currentName]
  rw [hbehind] at hstep
  exact hfront.trans (.proceed hstep (.done _))

lemma newline_step (fs : FileSystem) (hexpansions : p.expansions = []) {f : Frame} {outer : List Frame}
    (hframes : p.frames = f :: outer) {x : Lexeme} {rest : List Lexeme} (hlexemes : f.lexemes = x :: rest)
    (hx : x.token = .newline ∧ x.fault = none) :
    p.step fs =
      .proceed { p with frames := { f with lexemes := rest, atLineStart := true } :: outer } := by
  rw [step_eq_stepLexeme fs hexpansions hframes hlexemes, stepLexeme, if_neg (by simp [hx.1]; rfl),
    if_pos hx.1]
  simp [noteFaults, Lexeme.diagnostic?, hx.2]

end Silent

/-! ### States that read the lines of a source -/

/-- The macros and the open groups before a line. -/
structure Stage where
  table : DefineTable
  groups : List Group

def Stage.within (s : Stage) (g : Group) : Stage :=
  { s with groups := g :: s.groups }

def Stage.isActive (s : Stage) : Bool :=
  match s.groups with
  | [] => true
  | g :: _ => g.active

/-- The state at a stage of the source `f`. -/
def reading (base : Preprocessor) (f : Frame) (s : Stage) (lexemes : List Lexeme)
    (atLineStart : Bool) : Preprocessor :=
  { base with
    defines := s.table
    frames := [{ f with lexemes, groups := s.groups, atLineStart }]
    expansions := [] }

/-- The state `q` is at a stage before these lexemes, at the start of a line, and has added these
diagnostics to those of the state `base`. -/
structure Reads (base : Preprocessor) (f : Frame) (q : Preprocessor) (s : Stage)
    (lexemes : List Lexeme) (ds : List Diagnostic) : Prop where
  sound : q.IsSound
  lookahead : q.lookahead = none
  state : ∃ atLineStart, (lexemes ≠ [] → atLineStart = true) ∧
    q = (reading base f s lexemes atLineStart).noteAll ds

/-- Lines lead from one stage to another, deliver these tokens and add these diagnostics. -/
def Passage (fs : FileSystem) (base : Preprocessor) (f : Frame) (s : Stage) (ls : List Line)
    (ts : List LocatedToken) (ds : List Diagnostic) (s' : Stage) : Prop :=
  ∀ rest earlier q, Line.Separated ls rest →
    Reads base f q s (ls.flatMap Line.lexemes ++ rest) earlier →
      ∃ q', Run fs q ts q' ∧ (∀ t ∈ ts, t.token ≠ .eof) ∧ Reads base f q' s' rest (earlier ++ ds)

section Passage

variable {fs : FileSystem} {base : Preprocessor} {f : Frame} {s s' s'' : Stage}

lemma Run.keeps {p q : Preprocessor} {ts : List LocatedToken} (h : Run fs p ts q)
    (hp : p.IsSound) (hlookahead : p.lookahead = none) : q.IsSound ∧ q.lookahead = none := by
  induction h with
  | done => exact ⟨hp, hlookahead⟩
  | @deliver p q r t ts hstep _ ih =>
    have hq := isSound_step fs hp
    have hkept := step_lookahead fs (p := p) rfl
    rw [hstep] at hq hkept
    exact ih hq (hkept.trans hlookahead)
  | @proceed p q r ts hstep _ ih =>
    have hq := isSound_step fs hp
    have hkept := step_lookahead fs (p := p) rfl
    rw [hstep] at hq hkept
    exact ih hq (hkept.trans hlookahead)

lemma Passage.nil : Passage fs base f s [] [] [] s := by
  intro rest earlier q _ hq
  rw [List.append_nil]
  exact ⟨q, .done q, by simp, hq⟩

lemma Passage.append {ls ls' : List Line} {ts ts' : List LocatedToken}
    {ds ds' : List Diagnostic} (h : Passage fs base f s ls ts ds s')
    (h' : Passage fs base f s' ls' ts' ds' s'') :
    Passage fs base f s (ls ++ ls') (ts ++ ts') (ds ++ ds') s'' := by
  intro rest earlier q hseparated hq
  obtain ⟨hfirst, hsecond⟩ := (Line.separated_append ls ls' rest).1 hseparated
  rw [List.flatMap_append, List.append_assoc] at hq
  obtain ⟨q', hrun, hts, hq'⟩ := h _ earlier q hfirst hq
  obtain ⟨q'', hrun', hts', hq''⟩ := h' rest _ q' hsecond hq'
  rw [List.append_assoc] at hq''
  refine ⟨q'', hrun.trans hrun', ?_, hq''⟩
  intro t ht
  exact (List.mem_append.1 ht).elim (hts t) (hts' t)

lemma afterLine_reading (line lexemes rest : List Lexeme) (atLineStart : Bool)
    (earlier reports : List Diagnostic) :
    ((reading base f s lexemes atLineStart).noteAll earlier).afterLine line rest reports =
      (reading base f s rest (atLineStart && line.all (·.token.isSkipped))).noteAll
        (earlier ++ reports) := by
  simp [afterLine, mapTop, reading, noteAll]

lemma stop_run (fs : FileSystem) {l : Line} (hl : l.IsLine) {rest : List Lexeme}
    (hrest : l.stop = none → rest = []) (atLineStart : Bool) (ds : List Diagnostic) :
    ∃ atLineStart', (rest ≠ [] → atLineStart' = true) ∧
      Run fs ((reading base f s (l.stop.toList ++ rest) atLineStart).noteAll ds) []
        ((reading base f s rest atLineStart').noteAll ds) := by
  cases hstop : l.stop with
  | none =>
    rw [hrest hstop]
    exact ⟨atLineStart, by simp, .done _⟩
  | some x =>
    have hstep := newline_step fs (p := (reading base f s (x :: rest) atLineStart).noteAll ds) rfl rfl rfl
      (hl.stop x hstop)
    exact ⟨true, by simp, .proceed hstep (.done _)⟩

lemma separated_singleton {l : Line} {rest : List Lexeme} (h : Line.Separated [l] rest) :
    l.stop = none → rest = [] := by
  simpa [Line.Separated] using h

lemma text_passage {l : Line} (hl : l.IsLine) {ts : List LocatedToken} {ds : List Diagnostic}
    (h : ∀ lexemes atLineStart earlier q,
      q = (reading base f s (l.content ++ lexemes) atLineStart).noteAll earlier →
        q.IsSound → q.lookahead = none →
          Run fs q ts (q.afterLine l.content lexemes ds) ∧ ∀ t ∈ ts, t.token ≠ .eof) :
    Passage fs base f s [l] ts ds s := by
  intro rest earlier q hseparated hq
  obtain ⟨atLineStart, _, hstate⟩ := hq.state
  rw [List.flatMap_singleton, Line.lexemes, List.append_assoc] at hstate
  obtain ⟨hcontent, hts⟩ := h _ atLineStart earlier q hstate hq.sound hq.lookahead
  have hafter : q.afterLine l.content (l.stop.toList ++ rest) ds = (reading base f s
      (l.stop.toList ++ rest) (atLineStart && l.content.all (·.token.isSkipped))).noteAll
        (earlier ++ ds) := by
    rw [hstate]
    exact afterLine_reading _ _ _ _ _ _
  rw [hafter] at hcontent
  obtain ⟨atLineStart', hstart, hstop⟩ :=
    stop_run fs hl (separated_singleton hseparated) _ (earlier ++ ds)
  have hrun := hcontent.trans hstop
  rw [List.append_nil] at hrun
  obtain ⟨hsound, hlookahead⟩ := hrun.keeps hq.sound hq.lookahead
  exact ⟨_, hrun, hts, hsound, hlookahead, atLineStart', hstart, rfl⟩

lemma hash_run (fs : FileSystem) {l : Line} (hl : l.IsLine) {hash : Location}
    {args : List LocatedToken} (hwords : l.words = ⟨hash, .punct .hash⟩ :: args)
    {rest : List Lexeme} (hrest : l.stop = none → rest = []) (earlier : List Diagnostic) :
    Run fs ((reading base f s (l.lexemes ++ rest) true).noteAll earlier) []
      (((reading base f s rest true).noteAll (earlier ++ l.faults f.source.name)).obeyLine fs
        hash args) := by
  have hskip : ((reading base f s (l.lexemes ++ rest) true).noteAll earlier).skipLine l rest =
      (reading base f s rest true).noteAll (earlier ++ l.faults f.source.name) := by
    rw [skipLine, ← noteAll_noteAll]
    rfl
  have hrun := hashLine_run fs (p := (reading base f s (l.lexemes ++ rest) true).noteAll earlier) rfl rfl rfl
    hl hwords rfl hrest
  rwa [hskip] at hrun

lemma directive_passage {l : Line} (hl : l.IsLine) {hash : Location} {args : List LocatedToken}
    (hwords : l.words = ⟨hash, .punct .hash⟩ :: args) {reports : List Diagnostic}
    (hobey : ∀ rest ds, ((reading base f s rest true).noteAll ds).obeyLine fs hash args =
      (reading base f s' rest true).noteAll (ds ++ reports)) :
    Passage fs base f s [l] [] (l.faults f.source.name ++ reports) s' := by
  intro rest earlier q hseparated hq
  obtain ⟨atLineStart, hstart, hstate⟩ := hq.state
  have hne : [l].flatMap Line.lexemes ++ rest ≠ [] := by
    intro hnil
    rw [List.flatMap_singleton, Line.lexemes, List.append_assoc] at hnil
    rw [Line.words, (List.append_eq_nil_iff.1 hnil).1] at hwords
    cases hwords
  obtain rfl := hstart hne
  rw [List.flatMap_singleton] at hstate
  have hrun : Run fs ((reading base f s (l.lexemes ++ rest) true).noteAll earlier) [] _ :=
    hash_run fs hl hwords (separated_singleton hseparated) earlier
  rw [← hstate, hobey, List.append_assoc] at hrun
  obtain ⟨hsound, hlookahead⟩ := hrun.keeps hq.sound hq.lookahead
  exact ⟨_, hrun, by simp, hsound, hlookahead, true, by simp, rfl⟩

end Passage

/-! ### Directives -/

section Directives

variable (fs : FileSystem) (base : Preprocessor) (f : Frame) (s : Stage) (rest : List Lexeme)
  (ds : List Diagnostic)

lemma reject_reading (r : Rejection) :
    ((reading base f s rest true).noteAll ds).reject r =
      (reading base f s rest true).noteAll (ds ++ [r.diagnostic f.source.name]) := by
  rw [reject, error, report_eq_noteAll, noteAll_noteAll]
  rfl

lemma ask_reading {question : Except Rejection Bool} {answer : Bool} {reports : List Diagnostic}
    (h : (question = .ok answer ∧ reports = []) ∨
      ∃ r, question = .error r ∧ answer = false ∧ reports = [r.diagnostic f.source.name]) :
    ((reading base f s rest true).noteAll ds).ask question =
      ((reading base f s rest true).noteAll (ds ++ reports), answer) := by
  rcases h with ⟨rfl, rfl⟩ | ⟨r, rfl, rfl, rfl⟩
  · rw [List.append_nil]
    rfl
  · rw [ask, reject_reading]

lemma answer_cases (limit : Nat) (table : DefineTable) (l : Line) :
    (l.answer limit table = .ok (l.holds limit table) ∧
        l.conditionReports f.source.name limit table = []) ∨
      ∃ r, l.answer limit table = .error r ∧ l.holds limit table = false ∧
        l.conditionReports f.source.name limit table = [r.diagnostic f.source.name] := by
  unfold Line.holds Line.conditionReports
  cases l.answer limit table with
  | ok answer => exact .inl ⟨rfl, rfl⟩
  | error r => exact .inr ⟨r, rfl, rfl, rfl⟩

lemma isActive_reading : ((reading base f s rest true).noteAll ds).isActive = s.isActive :=
  rfl

lemma openGroup_active (hs : s.isActive = true) (l : Line) :
    ((reading base f s rest true).noteAll ds).openGroup (l.answer base.limits.expansion s.table) =
      (reading base f (s.within (.opened true (l.holds base.limits.expansion s.table))) rest
        true).noteAll (ds ++ l.conditionReports f.source.name base.limits.expansion s.table) := by
  unfold openGroup
  rw [isActive_reading, hs, if_pos rfl, ask_reading base f s rest ds (answer_cases f _ _ l)]
  rfl

lemma openGroup_inactive (hs : s.isActive = false) (question : Except Rejection Bool) :
    ((reading base f s rest true).noteAll ds).openGroup question =
      (reading base f (s.within (.opened false false)) rest true).noteAll ds := by
  unfold openGroup
  rw [isActive_reading, hs, if_neg Bool.false_ne_true]
  rfl

end Directives

section Groups

variable {fs : FileSystem} {base : Preprocessor} {f : Frame} {s s' : Stage} {l : Line}

lemma words_of_directive {r : Except Rejection Directive} (h : l.directive? = some r) :
    ∃ hash args, l.words = ⟨hash, .punct .hash⟩ :: args ∧ parseDirective hash args = some r := by
  unfold Line.directive? at h
  split at h
  next hash args hwords => exact ⟨hash, args, hwords, h⟩
  · cases h

lemma directive_of_keyword {k : Keyword} (h : l.keyword? = some k) :
    ∃ d, l.directive? = some (.ok d) ∧ Keyword.ofName d.name = k := by
  unfold Line.keyword? at h
  split at h
  next d hd => exact ⟨d, hd, Option.some.inj h⟩
  · cases h

lemma obey_passage (hl : l.IsLine) {d : Directive} (hd : l.directive? = some (.ok d))
    {reports : List Diagnostic}
    (hobey : ∀ rest ds, ((reading base f s rest true).noteAll ds).obey fs d =
      .ok ((reading base f s' rest true).noteAll (ds ++ reports))) :
    Passage fs base f s [l] [] (l.faults f.source.name ++ reports) s' := by
  obtain ⟨hash, args, hwords, hparse⟩ := words_of_directive hd
  apply directive_passage hl hwords
  intro rest ds
  rw [obeyLine, hparse]
  simp only
  rw [hobey]

lemma obey_opener (fs : FileSystem) (h : l.opens = true) :
    ∃ d, l.directive? = some (.ok d) ∧ ∀ p : Preprocessor,
      p.obey fs d = .ok (p.openGroup (l.answer p.limits.expansion p.defines)) := by
  have hkeyword : l.keyword? = some .ifDefined ∨ l.keyword? = some .ifNotDefined ∨
      l.keyword? = some .ifHolds := by
    simpa [Line.opens, or_assoc] using h
  obtain ⟨k, hk, hcases⟩ : ∃ k, l.keyword? = some k ∧
      (k = .ifDefined ∨ k = .ifNotDefined ∨ k = .ifHolds) := by
    rcases hkeyword with hk | hk | hk <;> exact ⟨_, hk, by simp⟩
  obtain ⟨d, hd, hname⟩ := directive_of_keyword hk
  refine ⟨d, hd, ?_⟩
  intro p
  rcases hcases with rfl | rfl | rfl <;> simp only [obey, Line.answer, hd, hname]

lemma opener_active (hl : l.IsLine) (h : l.opens = true) (hs : s.isActive = true) :
    Passage fs base f s [l] []
      (l.faults f.source.name ++ l.conditionReports f.source.name base.limits.expansion s.table)
      (s.within (.opened true (l.holds base.limits.expansion s.table))) := by
  obtain ⟨d, hd, hobey⟩ := obey_opener fs h
  apply obey_passage hl hd
  intro rest ds
  rw [hobey]
  exact congrArg Except.ok (openGroup_active base f s rest ds hs l)

lemma opener_inactive (hl : l.IsLine) (h : l.opens = true) (hs : s.isActive = false) :
    Passage fs base f s [l] [] (l.faults f.source.name) (s.within (.opened false false)) := by
  obtain ⟨d, hd, hobey⟩ := obey_opener fs h
  rw [← List.append_nil (l.faults f.source.name)]
  apply obey_passage hl hd
  intro rest ds
  rw [hobey, List.append_nil]
  exact congrArg Except.ok (openGroup_inactive base f s rest ds hs _)

variable {g : Group}

lemma branch_open (hl : l.IsLine) (h : l.keyword? = some .elseIf)
    (hopen : g.isOpenToBranch = true) (hseen : g.elseSeen = false) :
    Passage fs base f (s.within g) [l] []
      (l.faults f.source.name ++ l.conditionReports f.source.name base.limits.expansion s.table)
      (s.within (g.branch (l.holds base.limits.expansion s.table))) := by
  obtain ⟨d, hd, hname⟩ := directive_of_keyword h
  apply obey_passage hl hd
  intro rest ds
  have hanswer : l.answer base.limits.expansion s.table =
      d.asksForTruth s.table base.limits.expansion := by
    simp only [Line.answer, hd, hname]
  have hask := ask_reading base f (s.within g) rest ds
    (answer_cases f base.limits.expansion s.table l)
  rw [hanswer] at hask
  have hgroups : ((reading base f (s.within g) rest true).noteAll ds).groups = g :: s.groups := rfl
  simp only [obey, hname, openBranch, hgroups, hseen, Bool.false_eq_true, if_false, hopen, if_true]
  exact congrArg Except.ok (congrArg (fun asked : Preprocessor × Bool =>
    asked.1.setGroups (g.branch asked.2 :: s.groups)) hask)

lemma branch_closed (hl : l.IsLine) (h : l.keyword? = some .elseIf)
    (hopen : g.isOpenToBranch = false) (hseen : g.elseSeen = false) :
    Passage fs base f (s.within g) [l] [] (l.faults f.source.name) (s.within (g.branch false)) := by
  obtain ⟨d, hd, hname⟩ := directive_of_keyword h
  rw [← List.append_nil (l.faults f.source.name)]
  apply obey_passage hl hd
  intro rest ds
  have hgroups : ((reading base f (s.within g) rest true).noteAll ds).groups = g :: s.groups := rfl
  simp only [obey, hname, openBranch, hgroups, hseen, Bool.false_eq_true, if_false, hopen,
    List.append_nil]
  rfl

lemma lastBranch_passage (hl : l.IsLine) (h : l.keyword? = some .otherwise)
    (hseen : g.elseSeen = false) :
    Passage fs base f (s.within g) [l] [] (l.faults f.source.name) (s.within g.lastBranch) := by
  obtain ⟨d, hd, hname⟩ := directive_of_keyword h
  rw [← List.append_nil (l.faults f.source.name)]
  apply obey_passage hl hd
  intro rest ds
  have hgroups : ((reading base f (s.within g) rest true).noteAll ds).groups = g :: s.groups := rfl
  simp only [obey, hname, openLastBranch, hgroups, hseen, Bool.false_eq_true, if_false,
    List.append_nil]
  rfl

lemma end_passage (hl : l.IsLine) (h : l.keyword? = some .endIf) :
    Passage fs base f (s.within g) [l] [] (l.faults f.source.name) s := by
  obtain ⟨d, hd, hname⟩ := directive_of_keyword h
  rw [← List.append_nil (l.faults f.source.name)]
  apply obey_passage hl hd
  intro rest ds
  have hgroups : ((reading base f (s.within g) rest true).noteAll ds).groups = g :: s.groups := rfl
  simp only [obey, hname, closeGroup, hgroups, List.append_nil]
  rfl

end Groups

section Plain

variable {fs : FileSystem} {base : Preprocessor} {f : Frame} {s : Stage} {l : Line}

lemma head_words (h : ∀ hash args, l.words ≠ ⟨hash, .punct .hash⟩ :: args) :
    ((l.content.filter (!·.token.isSkipped)).map (·.token)).head? ≠ some (.punct .hash) := by
  intro hhead
  obtain ⟨ts, hts⟩ := List.head?_eq_some_iff.1 hhead
  obtain ⟨x, xs, hfilter, hx, _⟩ := List.map_eq_cons_iff.1 hts
  refine h x.location (xs.map (·.located)) ?_
  rw [Line.words, hfilter, List.map_cons, Lexeme.located, hx]

lemma obey_inactive (h : l.isPlain = true) {d : Directive} (hd : l.directive? = some (.ok d))
    {p : Preprocessor} (hp : p.isActive = false) : p.obey fs d = .ok p := by
  have hk : l.keyword? = some (.ofName d.name) := by rw [Line.keyword?, hd]
  unfold Line.isPlain Line.opens at h
  rw [hk] at h
  unfold obey
  cases hname : Keyword.ofName d.name <;> simp_all

lemma plain_inactive (hl : l.IsLine) (h : l.isPlain = true) (hs : s.isActive = false) :
    Passage fs base f s [l] [] (l.faults f.source.name) s := by
  by_cases hwords : ∃ hash args, l.words = ⟨hash, .punct .hash⟩ :: args
  · obtain ⟨hash, args, hwords⟩ := hwords
    have hdirective : l.directive? = parseDirective hash args := by rw [Line.directive?, hwords]
    rw [← List.append_nil (l.faults f.source.name)]
    apply directive_passage hl hwords
    intro rest ds
    have hactive : ((reading base f s rest true).noteAll ds).isActive = false := hs
    unfold obeyLine
    rw [List.append_nil]
    cases hparse : parseDirective hash args with
    | none => rfl
    | some result =>
      cases result with
      | error r => simp only [hactive, Bool.false_eq_true, if_false]
      | ok d =>
        simp only
        rw [obey_inactive h (hdirective.trans hparse) hactive]
  · apply text_passage hl
    rintro lexemes atLineStart earlier q rfl _ _
    refine ⟨silent_run fs rfl rfl rfl hl.content ?_ (.inl ?_), by simp⟩
    · intro _
      apply head_words
      intro hash args hne
      exact hwords ⟨hash, args, hne⟩
    · exact hs

lemma obey_active (fs : FileSystem) (h : l.isPlain = true) {d : Directive}
    (hd : l.directive? = some (.ok d)) (hs : s.isActive = true) (rest : List Lexeme)
    (ds : List Diagnostic) :
    (match ((reading base f s rest true).noteAll ds).obey fs d with
      | .ok p => p
      | .error r => ((reading base f s rest true).noteAll ds).reject r) =
    (reading base f { s with table := l.redefine s.table } rest true).noteAll
      (ds ++ l.directiveReports f.source.name) := by
  have hactive : ((reading base f s rest true).noteAll ds).isActive = true := hs
  have hk : l.keyword? = some (.ofName d.name) := by rw [Line.keyword?, hd]
  unfold Line.isPlain Line.opens at h
  rw [hk] at h
  unfold obey Line.redefine Line.directiveReports
  simp only [hd, hactive, Bool.not_true, Bool.false_eq_true, if_false]
  cases hname : Keyword.ofName d.name with
  | define =>
    cases hdefinition : d.definition with
    | error r => exact reject_reading base f s rest ds r
    | ok m =>
      rw [List.append_nil]
      rfl
  | undefine =>
    cases hmacro : d.macroName with
    | error r => exact reject_reading base f s rest ds r
    | ok name =>
      rw [List.append_nil]
      rfl
  | raise => exact reject_reading base f s rest ds _
  | warn =>
    simp only [Preprocessor.warn, report_eq_noteAll, noteAll_noteAll]
    rfl
  | ignored => rw [List.append_nil]
  | unknown => exact reject_reading base f s rest ds _
  | _ => simp [hname] at h

lemma obeyLine_active (fs : FileSystem) (h : l.isPlain = true) {hash : Location}
    {args : List LocatedToken} (hwords : l.words = ⟨hash, .punct .hash⟩ :: args)
    (hs : s.isActive = true) (rest : List Lexeme) (ds : List Diagnostic) :
    ((reading base f s rest true).noteAll ds).obeyLine fs hash args =
      (reading base f { s with table := l.redefine s.table } rest true).noteAll
        (ds ++ l.directiveReports f.source.name) := by
  have hactive : ((reading base f s rest true).noteAll ds).isActive = true := hs
  have hdirective : l.directive? = parseDirective hash args := by rw [Line.directive?, hwords]
  rw [obeyLine]
  cases hparse : parseDirective hash args with
  | none =>
    rw [hparse] at hdirective
    simp [Line.redefine, Line.directiveReports, hdirective]
  | some result =>
    rw [hparse] at hdirective
    cases result with
    | error r =>
      simp only [hactive, if_true, Line.redefine, Line.directiveReports, hdirective]
      exact reject_reading base f s rest ds r
    | ok d => exact obey_active fs h hdirective hs rest ds

lemma readsLine_reading (hl : l.IsLine) (hs : s.isActive = true)
    (hhead : ((l.content.filter (!·.token.isSkipped)).map (·.token)).head? ≠ some (.punct .hash))
    {rest : List Lexeme} {atLineStart : Bool} {ds : List Diagnostic}
    (hsound : ((reading base f s (l.content ++ rest) atLineStart).noteAll ds).IsSound)
    (hlookahead : base.lookahead = none) :
    ((reading base f s (l.content ++ rest) atLineStart).noteAll ds).ReadsLine
      ((l.content.filter (!·.token.isSkipped)).map (·.token)) l.content rest := by
  refine ⟨hlookahead, rfl, hs, rfl, rfl, ?_, ?_, hhead⟩
  · intro hmem
    obtain ⟨x, hx, hnewline⟩ := List.mem_map.1 hmem
    exact hl.content x (List.mem_filter.1 hx).1 hnewline
  · intro hmem
    obtain ⟨x, hx, heof⟩ := List.mem_map.1 hmem
    have hlexeme := hsound.lexemes _ List.mem_cons_self x
      (List.mem_append_left _ (List.mem_filter.1 hx).1)
    exact hlexeme heof

/-- A plain line that counts delivers its tokens and leads to its macros. -/
theorem plain_active (hl : l.IsLine) (h : l.isPlain = true) (hs : s.isActive = true) :
    Passage fs base f s [l] (l.tokens base.limits.expansion s.table)
      (l.reports f.source.name base.limits.expansion s.table)
      { s with table := l.redefine s.table } := by
  by_cases hwords : ∃ hash args, l.words = ⟨hash, .punct .hash⟩ :: args
  · obtain ⟨hash, args, hwords⟩ := hwords
    have hdirective : l.isDirective = true := by rw [Line.isDirective, hwords]
    rw [Line.tokens, Line.reports, if_pos hdirective, if_pos hdirective]
    exact directive_passage hl hwords (obeyLine_active fs h hwords hs)
  · have hdirective : ¬l.isDirective = true := by
      unfold Line.isDirective
      split
      next hash args hne => exact absurd ⟨hash, args, hne⟩ hwords
      · simp
    have hredefine : l.redefine s.table = s.table := by
      cases hdirective : l.directive? with
      | none => rw [Line.redefine, hdirective]
      | some result =>
        obtain ⟨hash, args, hne, _⟩ := words_of_directive hdirective
        exact absurd ⟨hash, args, hne⟩ hwords
    have hhead := head_words fun hash args hne => hwords ⟨hash, args, hne⟩
    rw [hredefine, Line.tokens, Line.reports, if_neg hdirective, if_neg hdirective]
    apply text_passage hl
    rintro lexemes atLineStart earlier q rfl hsound hlookahead
    have hreads := readsLine_reading hl hs hhead hsound hlookahead
    exact ⟨hreads.run hsound.defines fs, hreads.lineTokens_ne_eof hsound.defines⟩

end Plain

end Shading.Preprocessor
