import Shading.Proofs.Preprocessor.Passage

/-!
# Selected branches

Conditional compilation keeps the lines of the selected branches. Without the tokens of all other
lines the same tokens are delivered and the same macros defined, and only what was reported of
these lines is missing.
-/

namespace Shading.Preprocessor

/-- Lines with these fates lead from one stage to another, and what is left of them leads to the
same macros and delivers the same tokens. -/
def Selects (fs : FileSystem) (base : Preprocessor) (f : Frame) (s : Stage)
    (fates : List (Line × Fate)) (s' : Stage) : Prop :=
  Passage fs base f s (fates.map Prod.fst)
    (fates.flatMap (Line.delivered base.limits.expansion))
    (fates.flatMap (Line.reported f.source.name base.limits.expansion)) s' ∧
  Passage fs base f { s with groups := [] } (fates.map Line.remainder)
    (fates.flatMap (Line.delivered base.limits.expansion))
    ((fates.filter (·.2.counts)).flatMap (Line.reported f.source.name base.limits.expansion))
    { s' with groups := [] }

section Selects

variable {fs : FileSystem} {base : Preprocessor} {f : Frame} {s s' s'' : Stage}

lemma Selects.nil : Selects fs base f s [] s :=
  ⟨.nil, .nil⟩

lemma Selects.append {fates fates' : List (Line × Fate)} (h : Selects fs base f s fates s')
    (h' : Selects fs base f s' fates' s'') : Selects fs base f s (fates ++ fates') s'' := by
  obtain ⟨hfull, hkept⟩ := h
  obtain ⟨hfull', hkept'⟩ := h'
  constructor
  · rw [List.map_append, List.flatMap_append, List.flatMap_append]
    exact hfull.append hfull'
  · rw [List.map_append, List.filter_append, List.flatMap_append, List.flatMap_append]
    exact hkept.append hkept'

lemma blank_passage {l : Line} (hl : l.IsLine) : Passage fs base f s [l.blank] [] [] s := by
  have hblank : l.blank.IsLine := ⟨by simp [Line.blank], hl.stop⟩
  apply text_passage hblank
  rintro lexemes atLineStart earlier q rfl _ _
  have hsame := afterLine_nil
    (p := (reading base f s (l.blank.content ++ lexemes) atLineStart).noteAll earlier) rfl rfl
  refine ⟨?_, by simp⟩
  rw [show l.blank.content = [] from rfl] at *
  rw [hsame]
  exact .done _

lemma Selects.passed {l : Line} (hl : l.IsLine)
    (h : Passage fs base f s [l] [] (l.faults f.source.name) s') (htable : s'.table = s.table) :
    Selects fs base f s [(l, .passed)] s' := by
  constructor
  · simpa [Line.delivered, Line.reported] using h
  · rw [htable]
    exact blank_passage hl

lemma Selects.asked {l : Line} (hl : l.IsLine)
    (h : Passage fs base f s [l] []
      (l.faults f.source.name ++ l.conditionReports f.source.name base.limits.expansion s.table) s')
    (htable : s'.table = s.table) : Selects fs base f s [(l, .asked s.table)] s' := by
  constructor
  · simpa [Line.delivered, Line.reported] using h
  · rw [htable]
    exact blank_passage hl

lemma Selects.kept {l : Line} (hl : l.IsLine) (h : l.isPlain = true) (hs : s.isActive = true) :
    Selects fs base f s [(l, .kept s.table)] { s with table := l.redefine s.table } := by
  have hfull : Passage fs base f s [l] _ _ _ := plain_active hl h hs
  have hkept : Passage fs base f { s with groups := [] } [l] _ _ _ := plain_active hl h rfl
  constructor
  · simpa [Line.delivered, Line.reported] using hfull
  · simpa [Line.delivered, Line.reported, Line.remainder, Fate.counts] using hkept

end Selects

section Sections

variable (fs : FileSystem) (base : Preprocessor) (f : Frame)

mutual

lemma Section.passed (x : Section) (hx : ∀ l ∈ x.lines, l.IsLine) (s : Stage)
    (hs : s.isActive = false) : Selects fs base f s (passOver x.lines) s := by
  cases x with
  | nil => exact .nil
  | line l h following =>
    simp only [Section.lines, List.forall_mem_cons] at hx
    have hl : Selects fs base f s [(l, .passed)] s :=
      .passed hx.1 (plain_inactive hx.1 h hs) rfl
    exact hl.append (Section.passed following hx.2 s hs)
  | group opener h body branches following =>
    simp only [Section.lines, List.forall_mem_cons, List.forall_mem_append] at hx
    obtain ⟨hopener, hbody, hbranches, hfollowing⟩ := hx
    have hfirst : Selects fs base f s [(opener, .passed)] (s.within (.opened false false)) :=
      .passed hopener (opener_inactive hopener h hs) rfl
    have hinside := Section.passed body hbody (s.within (.opened false false)) rfl
    have hbehind := Branches.passed branches hbranches s (.opened false false) rfl rfl
    have hlater := Section.passed following hfollowing s hs
    have hall := hfirst.append (hinside.append (hbehind.append hlater))
    simpa [Section.lines, passOver] using hall

/-- Behind a selected branch, and in text that does not count, all branches are passed over. -/
theorem Branches.passed (x : Branches) (hx : ∀ l ∈ x.lines, l.IsLine) (s : Stage) (g : Group)
    (hopen : g.isOpenToBranch = false) (hseen : g.elseSeen = false) :
    Selects fs base f (s.within g) (passOver x.lines) s := by
  cases x with
  | endIf l h =>
    have hl := hx l (by simp [Branches.lines])
    exact .passed hl (end_passage hl h) rfl
  | otherwise l h body last hlast =>
    simp only [Branches.lines, List.forall_mem_cons, List.forall_mem_append] at hx
    obtain ⟨hl, hbody, hlast', -⟩ := hx
    have hfirst : Selects fs base f (s.within g) [(l, .passed)] (s.within g.lastBranch) :=
      .passed hl (lastBranch_passage hl h hseen) rfl
    have hinside := Section.passed body hbody (s.within g.lastBranch) hopen
    have hend : Selects fs base f (s.within g.lastBranch) [(last, .passed)] s :=
      .passed hlast' (end_passage hlast' hlast) rfl
    have hall := hfirst.append (hinside.append hend)
    simpa [Branches.lines, passOver] using hall
  | elseIf l h body branches =>
    simp only [Branches.lines, List.forall_mem_cons, List.forall_mem_append] at hx
    obtain ⟨hl, hbody, hbranches⟩ := hx
    have hclosed : (g.branch false).isOpenToBranch = false := by
      simpa [Group.branch, Group.isOpenToBranch] using hopen
    have hfirst : Selects fs base f (s.within g) [(l, .passed)] (s.within (g.branch false)) :=
      .passed hl (branch_closed hl h hopen hseen) rfl
    have hinside := Section.passed body hbody (s.within (g.branch false)) rfl
    have hbehind := Branches.passed branches hbranches s (g.branch false) hclosed hseen
    have hall := hfirst.append (hinside.append hbehind)
    simpa [Branches.lines, passOver] using hall

end

mutual

theorem Section.selected (x : Section) (hx : ∀ l ∈ x.lines, l.IsLine) (s : Stage)
    (hs : s.isActive = true) :
    Selects fs base f s (x.select base.limits.expansion s.table).1
      { s with table := (x.select base.limits.expansion s.table).2 } := by
  cases x with
  | nil => exact .nil
  | line l h following =>
    simp only [Section.lines, List.forall_mem_cons] at hx
    have hl : Selects fs base f s [(l, .kept s.table)] { s with table := l.redefine s.table } :=
      .kept hx.1 h hs
    exact hl.append (Section.selected following hx.2 { s with table := l.redefine s.table } hs)
  | group opener h body branches following =>
    simp only [Section.lines, List.forall_mem_cons, List.forall_mem_append] at hx
    obtain ⟨hopener, hbody, hbranches, hfollowing⟩ := hx
    have hfirst : Selects fs base f s [(opener, .asked s.table)]
        (s.within (.opened true (opener.holds base.limits.expansion s.table))) :=
      .asked hopener (opener_active hopener h hs) rfl
    rw [Section.select]
    cases hholds : opener.holds base.limits.expansion s.table with
    | true =>
      rw [hholds] at hfirst
      have hinside := Section.selected body hbody (s.within (.opened true true)) rfl
      have hbehind := Branches.passed fs base f branches hbranches
        { s with table := (body.select base.limits.expansion s.table).2 } (.opened true true) rfl rfl
      have hlater := Section.selected following hfollowing
        { s with table := (body.select base.limits.expansion s.table).2 } hs
      have hall := hfirst.append ((hinside.append hbehind).append hlater)
      exact hall
    | false =>
      rw [hholds] at hfirst
      have hinside := Section.passed fs base f body hbody (s.within (.opened true false)) rfl
      have hbehind := Branches.selected branches hbranches s (.opened true false) rfl rfl rfl
      have hlater := Section.selected following hfollowing
        { s with table := (branches.select base.limits.expansion s.table).2 } hs
      have hall := hfirst.append ((hinside.append hbehind).append hlater)
      exact hall

/-- If no branch was selected before, the branches have the fates that their conditions decide. -/
theorem Branches.selected (x : Branches) (hx : ∀ l ∈ x.lines, l.IsLine) (s : Stage) (g : Group)
    (henclosing : g.enclosing = true) (htaken : g.taken = false) (hseen : g.elseSeen = false) :
    Selects fs base f (s.within g) (x.select base.limits.expansion s.table).1
      { s with table := (x.select base.limits.expansion s.table).2 } := by
  have hopen : g.isOpenToBranch = true := by simp [Group.isOpenToBranch, henclosing, htaken]
  cases x with
  | endIf l h =>
    have hl := hx l (by simp [Branches.lines])
    exact .passed hl (end_passage hl h) rfl
  | otherwise l h body last hlast =>
    simp only [Branches.lines, List.forall_mem_cons, List.forall_mem_append] at hx
    obtain ⟨hl, hbody, hlast', -⟩ := hx
    have hfirst : Selects fs base f (s.within g) [(l, .passed)] (s.within g.lastBranch) :=
      .passed hl (lastBranch_passage hl h hseen) rfl
    have hinside := Section.selected body hbody (s.within g.lastBranch) hopen
    have hend : Selects fs base f
        (Stage.within { s with table := (body.select base.limits.expansion s.table).2 }
          g.lastBranch) [(last, .passed)]
        { s with table := (body.select base.limits.expansion s.table).2 } :=
      .passed hlast' (end_passage hlast' hlast) rfl
    exact hfirst.append (hinside.append hend)
  | elseIf l h body branches =>
    simp only [Branches.lines, List.forall_mem_cons, List.forall_mem_append] at hx
    obtain ⟨hl, hbody, hbranches⟩ := hx
    have hfirst : Selects fs base f (s.within g) [(l, .asked s.table)]
        (s.within (g.branch (l.holds base.limits.expansion s.table))) :=
      .asked hl (branch_open hl h hopen hseen) rfl
    rw [Branches.select]
    cases hholds : l.holds base.limits.expansion s.table with
    | true =>
      rw [hholds] at hfirst
      have hinside := Section.selected body hbody (s.within (g.branch true)) rfl
      have hbehind := Branches.passed fs base f branches hbranches
        { s with table := (body.select base.limits.expansion s.table).2 } (g.branch true)
        (by simp [Group.branch, Group.isOpenToBranch]) hseen
      exact hfirst.append (hinside.append hbehind)
    | false =>
      rw [hholds] at hfirst
      have hinside := Section.passed fs base f body hbody (s.within (g.branch false)) rfl
      have hbehind := Branches.selected branches hbranches s (g.branch false) henclosing
        (by simp [Group.branch, htaken]) hseen
      exact hfirst.append (hinside.append hbehind)

end

end Sections

/-! ### Sources -/

lemma passOver_lines (ls : List Line) : (passOver ls).map Prod.fst = ls := by
  simp [passOver, Function.comp_def]

mutual

lemma select_lines (x : Section) (limit : Nat) (table : DefineTable) :
    (x.select limit table).1.map Prod.fst = x.lines := by
  cases x with
  | nil => rfl
  | line l h following =>
    exact congrArg (l :: ·) (select_lines following limit (l.redefine table))
  | group opener h body branches following =>
    have hbody := select_lines body limit table
    have hbranches := select_branches branches limit table
    have hfollowing := select_lines following limit
    rw [Section.select, Section.lines]
    cases opener.holds limit table <;> simp [passOver_lines, hbody, hbranches, hfollowing]

lemma select_branches (x : Branches) (limit : Nat) (table : DefineTable) :
    (x.select limit table).1.map Prod.fst = x.lines := by
  cases x with
  | endIf l h => rfl
  | otherwise l h body last hlast =>
    have hbody := select_lines body limit table
    simp [Branches.select, Branches.lines, hbody]
  | elseIf l h body branches =>
    have hbody := select_lines body limit table
    have hbranches := select_branches branches limit table
    rw [Branches.select, Branches.lines]
    cases l.holds limit table <;> simp [passOver_lines, hbody, hbranches]

end

def remaining (fates : List (Line × Fate)) : List Lexeme :=
  fates.flatMap fun fated => (Line.remainder fated).lexemes

lemma remainder_sublist (fated : Line × Fate) :
    (Line.remainder fated).lexemes.Sublist fated.1.lexemes := by
  unfold Line.remainder
  split
  · exact .refl _
  · exact List.sublist_append_right _ _

lemma remaining_sublist (fates : List (Line × Fate)) :
    (remaining fates).Sublist ((fates.map Prod.fst).flatMap Line.lexemes) :=
  Line.sublist_kept remainder_sublist fates

lemma remainder_stop (fated : Line × Fate) : (Line.remainder fated).stop = fated.1.stop := by
  unfold Line.remainder
  split <;> rfl

lemma separated_remainder {fates : List (Line × Fate)}
    (h : Line.Separated (fates.map Prod.fst) []) :
    Line.Separated (fates.map Line.remainder) [] :=
  h.kept remainder_sublist remainder_stop

/-- The tokens that preprocessing delivers, the macros behind them, and all diagnostics. -/
def outcome (fs : FileSystem) (p : Preprocessor) :
    List LocatedToken × DefineTable × List Diagnostic :=
  ((p.drain fs).1, (p.drain fs).2.defines, (p.drain fs).2.diagnostics)

section Outcome

variable {fs : FileSystem} {p : Preprocessor} {f : Frame} {table : DefineTable}

/-- What is reported at the end of a source in which these groups are open. -/
def unclosed (f : Frame) (groups : List Group) : List Diagnostic :=
  if groups.isEmpty then []
  else [(Rejection.directive f.stop .eof .unterminatedIf).diagnostic f.source.name]

lemma drain_end (hlookahead : p.lookahead = none) (hfinished : p.finished = false) (s : Stage)
    (atLineStart : Bool) (ds : List Diagnostic) :
    ((reading p f s [] atLineStart).noteAll ds).drain fs =
      ([⟨f.stop, .eof⟩],
        { (reading p f s [] atLineStart).noteAll (ds ++ unclosed f s.groups) with finished := true }) := by
  have hstep : ((reading p f s [] atLineStart).noteAll ds).step fs =
      .deliver ⟨f.stop, .eof⟩
        { (reading p f s [] atLineStart).noteAll (ds ++ unclosed f s.groups) with finished := true } := by
    have hnot : ((reading p f s [] atLineStart).noteAll ds).finished = false := hfinished
    obtain ⟨table, groups⟩ := s
    change stepEnd _ { f with lexemes := [], groups, atLineStart } [] = _
    rw [stepEnd, hnot]
    cases groups with
    | nil =>
      rw [show unclosed f [] = [] from rfl, List.append_nil]
      rfl
    | cons g outer =>
      rw [show unclosed f (g :: outer) = [_] from rfl, ← noteAll_noteAll]
      dsimp only [List.isEmpty_cons, List.isEmpty_nil]
      rw [error, report_eq_noteAll]
      rfl
  exact drain_eof hlookahead hstep rfl

lemma Passage.outcome_unclosed {ls : List Line} {ts : List LocatedToken} {ds : List Diagnostic}
    {first : DefineTable} {s : Stage} (h : Passage fs p f ⟨first, []⟩ ls ts ds s)
    (hdefines : p.defines = first) (hseparated : Line.Separated ls [])
    {q : Preprocessor} (hq : q = reading p f ⟨p.defines, []⟩ (ls.flatMap Line.lexemes) true)
    (hsound : q.IsSound) (hlookahead : p.lookahead = none) (hfinished : p.finished = false) :
    q.outcome fs = (ts ++ [⟨f.stop, .eof⟩], s.table, p.diagnostics ++ (ds ++ unclosed f s.groups)) := by
  subst hdefines
  have hreads : Reads p f q ⟨p.defines, []⟩ (ls.flatMap Line.lexemes ++ []) [] := by
    refine ⟨hsound, by rw [hq]; exact hlookahead, true, fun _ => rfl, ?_⟩
    rw [noteAll_nil, List.append_nil, hq]
  obtain ⟨q', hrun, hts, hend⟩ := h [] [] q hseparated hreads
  obtain ⟨atLineStart, _, rfl⟩ := hend.state
  have hdelivers := hrun.delivers hreads.lookahead hts
  rw [Delivers, drain_end hlookahead hfinished] at hdelivers
  rw [Preprocessor.outcome, hdelivers]
  simp [diagnostics, noteAll, reading]

lemma Passage.outcome {ls : List Line} {ts : List LocatedToken} {ds : List Diagnostic}
    {first : DefineTable} (h : Passage fs p f ⟨first, []⟩ ls ts ds ⟨table, []⟩)
    (hdefines : p.defines = first) (hseparated : Line.Separated ls [])
    {q : Preprocessor} (hq : q = reading p f ⟨p.defines, []⟩ (ls.flatMap Line.lexemes) true)
    (hsound : q.IsSound) (hlookahead : p.lookahead = none) (hfinished : p.finished = false) :
    q.outcome fs = (ts ++ [⟨f.stop, .eof⟩], table, p.diagnostics ++ ds) := by
  rw [h.outcome_unclosed hdefines hseparated hq hsound hlookahead hfinished]
  simp [unclosed]

end Outcome

/-- The state with these lexemes left of the current source. -/
def withLexemes (p : Preprocessor) (lexemes : List Lexeme) : Preprocessor :=
  p.mapTop fun f => { f with lexemes }

lemma isSound_withLexemes {p : Preprocessor} (hp : p.IsSound) {lexemes : List Lexeme}
    (h : ∀ x ∈ lexemes, x ∈ p.lexemes) : (p.withLexemes lexemes).IsSound := by
  unfold withLexemes mapTop
  split
  · exact hp
  next f outer hframes =>
    refine ⟨hp.defines, ?_⟩
    intro g hg
    rcases List.mem_cons.1 hg with rfl | hg
    · intro x hx
      have hmem := h x hx
      rw [Preprocessor.lexemes, hframes] at hmem
      exact hp.lexemes f (by simp [hframes]) x hmem
    · exact hp.lexemes g (by simp [hframes, hg])

/-- In a source with well nested groups exactly the lines count that the conditions select; they
deliver their tokens and define their macros. Without the tokens of the other lines the same tokens
are delivered and the same macros defined, and only what was reported of these lines is missing:
faults, and conditions without an answer. -/
theorem conditional_compilation {c : Compiler} (hc : c.Reachable) (fs : FileSystem)
    {source loaded : Source} {content : List UInt8} (hload : source.load fs = (.ok content, loaded))
    {x : Section} (hx : x.lines = Line.split (Lexemes.ofBytes content).list)
    {fates : List (Line × Fate)} {table : DefineTable}
    (hselect : x.select c.config.limits.expansion c.defines = (fates, table)) :
    (c.preprocessor fs source).outcome fs =
      (fates.flatMap (Line.delivered c.config.limits.expansion) ++
          [⟨(Lexemes.ofBytes content).stop, .eof⟩], table,
        fates.flatMap (Line.reported loaded.name c.config.limits.expansion)) ∧
    ((c.preprocessor fs source).withLexemes (remaining fates)).outcome fs =
      (fates.flatMap (Line.delivered c.config.limits.expansion) ++
          [⟨(Lexemes.ofBytes content).stop, .eof⟩], table,
        (fates.filter (·.2.counts)).flatMap
          (Line.reported loaded.name c.config.limits.expansion)) := by
  have hsound : (c.preprocessor fs source).IsSound := isSound_start hc source
  have hstart : c.preprocessor fs source =
      { limits := c.config.limits, mainName := source.name, defines := c.defines
        frames := [Frame.ofContent fs loaded content] } := by
    rw [Compiler.preprocessor, start, hload]
  generalize c.preprocessor fs source = p at *
  have hlimits : p.limits = c.config.limits := by rw [hstart]
  have hdefines : p.defines = c.defines := by rw [hstart]
  have hlookahead : p.lookahead = none := by rw [hstart]
  have hfinished : p.finished = false := by rw [hstart]
  have hdiagnostics : p.diagnostics = [] := by
    rw [hstart]
    rfl
  have hlines : ∀ l ∈ x.lines, l.IsLine := by
    rw [hx]
    exact Line.split_isLine fun y hy => (Lexemes.ofCursor_proper _ y hy).2
  have hlexemes : x.lines.flatMap Line.lexemes = (Lexemes.ofBytes content).list := by
    rw [hx, Line.split_flatten]
  have hseparated : Line.Separated x.lines [] := by
    rw [hx]
    exact Line.split_separated _
  obtain ⟨hfull, hkept⟩ :=
    Section.selected fs p (Frame.ofContent fs loaded content) x hlines ⟨p.defines, []⟩ rfl
  have hselected := select_lines x c.config.limits.expansion c.defines
  rw [hlimits, hdefines, hselect] at hfull hkept
  rw [hselect] at hselected
  have hfull' := hfull.outcome hdefines (by rw [hselected]; exact hseparated) (q := p)
    (by rw [hselected, hlexemes, hstart]; rfl) hsound hlookahead hfinished
  rw [← hselected] at hseparated
  have hsoundkept : (p.withLexemes (remaining fates)).IsSound := by
    apply isSound_withLexemes hsound
    intro y hy
    have hmem := (remaining_sublist _).subset hy
    rw [hselected, hlexemes] at hmem
    rw [hstart]
    exact hmem
  have hkept' := hkept.outcome hdefines (separated_remainder hseparated)
    (q := p.withLexemes (remaining fates)) (by rw [hstart, List.flatMap_map]; rfl) hsoundkept
    hlookahead hfinished
  rw [hdiagnostics, List.nil_append] at hfull' hkept'
  exact ⟨hfull', hkept'⟩

/-- A source with a group of two branches, the second of which is selected. -/
def twoBranches : List UInt8 :=
  Text.bytes "#if 0\nx\n#else\ny\n#endif"

def twoBranchesTree : Section :=
  .group ⟨[⟨⟨0, 0⟩, .punct .hash, none⟩, ⟨⟨0, 1⟩, .identifier "if", none⟩, ⟨⟨0, 3⟩, .blank, none⟩,
      ⟨⟨0, 4⟩, .int 0, none⟩], some ⟨⟨0, 5⟩, .newline, none⟩⟩ (by decide +kernel)
    (.line ⟨[⟨⟨1, 0⟩, .identifier "x", none⟩], some ⟨⟨1, 1⟩, .newline, none⟩⟩ (by decide +kernel)
      .nil)
    (.otherwise ⟨[⟨⟨2, 0⟩, .punct .hash, none⟩, ⟨⟨2, 1⟩, .identifier "else", none⟩],
        some ⟨⟨2, 5⟩, .newline, none⟩⟩ (by decide +kernel)
      (.line ⟨[⟨⟨3, 0⟩, .identifier "y", none⟩], some ⟨⟨3, 1⟩, .newline, none⟩⟩ (by decide +kernel)
        .nil)
      ⟨[⟨⟨4, 0⟩, .punct .hash, none⟩, ⟨⟨4, 1⟩, .identifier "endif", none⟩], none⟩
      (by decide +kernel))
    .nil

theorem conditional_compilation_twoBranches :
    Compiler.Reachable {} ∧
      ((Source.ofBytes "" twoBranches).load .empty).1 = .ok twoBranches ∧
      twoBranchesTree.lines = Line.split (Lexemes.ofBytes twoBranches).list ∧
      ∃ fates, twoBranchesTree.select 128 {} = (fates, {}) ∧
        fates.map Prod.snd = [.asked {}, .passed, .passed, .kept {}, .passed] ∧
        (({} : Compiler).preprocessor .empty (.ofBytes "" twoBranches)).outcome .empty =
          ([⟨⟨3, 0⟩, .identifier "y"⟩, ⟨⟨4, 6⟩, .eof⟩], {}, []) ∧
        ((({} : Compiler).preprocessor .empty (.ofBytes "" twoBranches)).withLexemes
            (remaining fates)).outcome .empty =
          ([⟨⟨3, 0⟩, .identifier "y"⟩, ⟨⟨4, 6⟩, .eof⟩], {}, []) := by
  have hload : (Source.ofBytes "" twoBranches).load .empty =
      (.ok twoBranches, (Source.ofBytes "" twoBranches).load .empty |>.2) := rfl
  have hlines : twoBranchesTree.lines = Line.split (Lexemes.ofBytes twoBranches).list := by
    decide +kernel
  have hselect : twoBranchesTree.select 128 {} = ((twoBranchesTree.select 128 {}).1, {}) := by
    decide +kernel
  obtain ⟨hall, hkept⟩ := conditional_compilation (.new {}) .empty hload hlines hselect
  have hfates : (twoBranchesTree.select 128 {}).1.map Prod.snd =
      [.asked {}, .passed, .passed, .kept {}, .passed] := by
    decide +kernel
  refine ⟨.new {}, rfl, hlines, _, hselect, hfates, hall.trans ?_, hkept.trans ?_⟩
  · decide +kernel
  · decide +kernel

end Shading.Preprocessor
