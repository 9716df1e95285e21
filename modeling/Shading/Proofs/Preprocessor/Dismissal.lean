import Shading.Proofs.Preprocessor.Rejections
import Shading.Proofs.Preprocessor.Selection

/-!
# Sources without their rejected lines

A rejected line leads to the stage from which it is read, so the other lines are read from the same stages
where its tokens are missing.
-/

namespace Shading.Preprocessor

/-- What becomes of a line: why it is rejected, if it is, what it delivers, and what is reported of it. -/
structure Treatment where
  line : Line
  rejection : Option Rejection
  tokens : List LocatedToken
  reports : List Diagnostic

/-- What is left of the line where the tokens of rejected lines are missing. -/
def Treatment.remainder (x : Treatment) : Line :=
  if x.rejection.isSome then x.line.blank else x.line

section Line

variable {fs : FileSystem} {base p : Preprocessor} {f : Frame} {s : Stage} {l : Line} {r : Rejection}

lemma rejects_reading {lexemes lexemes' : List Lexeme} {atLineStart atLineStart' : Bool}
    {ds ds' : List Diagnostic} (h : Rejects fs ((reading base f s lexemes atLineStart).noteAll ds) l r) :
    Rejects fs ((reading base f s lexemes' atLineStart').noteAll ds') l r := by
  obtain ⟨hash, args, hwords, hrefuses⟩ := h
  exact ⟨hash, args, hwords, hrefuses.transfer rfl rfl rfl rfl⟩

lemma rejected_passage (hl : l.IsLine) {lexemes : List Lexeme} {atLineStart : Bool} {ds : List Diagnostic}
    (h : Rejects fs ((reading base f s lexemes atLineStart).noteAll ds) l r) :
    Passage fs base f s [l] [] (l.faults f.source.name ++ [r.diagnostic f.source.name]) s := by
  obtain ⟨hash, args, hwords, hrefuses⟩ := h
  apply directive_passage hl hwords
  intro rest ds
  have hthere : Refuses fs ((reading base f s rest true).noteAll ds) hash args r :=
    hrefuses.transfer rfl rfl rfl rfl
  rw [obeyLine_refused (refuses_iff.1 hthere), reject_reading]

lemma rejects_of_obey {d : Directive} (hd : l.directive? = some (.ok d)) (h : p.obey fs d = .error r) :
    Rejects fs p l r := by
  obtain ⟨hash, args, hwords, hparse⟩ := words_of_directive hd
  refine ⟨hash, args, hwords, refuses_iff.2 ?_⟩
  simp only [refusal?, hparse, h]

lemma include_inactive (hl : l.IsLine) (h : l.keyword? = some .includeFile) (hs : s.isActive = false) :
    Passage fs base f s [l] [] (l.faults f.source.name) s := by
  obtain ⟨d, hd, hname⟩ := directive_of_keyword h
  rw [← List.append_nil (l.faults f.source.name)]
  apply obey_passage hl hd
  intro rest ds
  have hactive : ((reading base f s rest true).noteAll ds).isActive = false := hs
  simp only [obey, hname, hactive, Bool.not_false, if_true, List.append_nil]

/-- A line of groups that is not rejected has an open group, and divides it only in front of its last
branch. -/
lemma exists_group {k : Keyword} (hk : l.keyword? = some k) (hgroup : k ∈ [.elseIf, .otherwise, .endIf])
    (haccepted : ∀ r, ¬Rejects fs (reading base f s [] true) l r) :
    ∃ g outer, s = Stage.within ⟨s.table, outer⟩ g ∧ (k ≠ .endIf → g.elseSeen = false) := by
  obtain ⟨d, hd, rfl⟩ := directive_of_keyword hk
  have hobey (r : Rejection) : (reading base f s [] true).obey fs d ≠ .error r :=
    fun h => haccepted r (rejects_of_obey hd h)
  simp only [List.mem_cons, List.not_mem_nil, or_false] at hgroup
  obtain ⟨table, _ | ⟨g, outer⟩⟩ := s
  · rcases hgroup with hname | hname | hname <;>
      simp [obey, hname, openBranch, openLastBranch, closeGroup, reading, groups] at hobey
  · refine ⟨g, outer, rfl, fun hend => Bool.eq_false_of_not_eq_true fun hseen => ?_⟩
    rcases hgroup with hname | hname | hname
    · simp [obey, hname, openBranch, reading, groups, hseen] at hobey
    · simp [obey, hname, openLastBranch, reading, groups, hseen] at hobey
    · exact hend hname

/-- Every line that is not rejected and enters no source leads to a stage, whatever follows. -/
theorem exists_passage (hl : l.IsLine) (haccepted : ∀ r, ¬Rejects fs (reading base f s [] true) l r)
    (hinclude : s.isActive = true → l.keyword? ≠ some .includeFile) :
    ∃ ts ds s', Passage fs base f s [l] ts ds s' := by
  by_cases hplain : l.isPlain = true
  · cases hs : s.isActive with
    | true => exact ⟨_, _, _, plain_active hl hplain hs⟩
    | false => exact ⟨_, _, _, plain_inactive hl hplain hs⟩
  by_cases hopens : l.opens = true
  · cases hs : s.isActive with
    | true => exact ⟨_, _, _, opener_active hl hopens hs⟩
    | false => exact ⟨_, _, _, opener_inactive hl hopens hs⟩
  have hkeyword : l.keyword? = some .elseIf ∨ l.keyword? = some .otherwise ∨ l.keyword? = some .endIf ∨
      l.keyword? = some .includeFile := by
    by_contra hother
    simp_all [Line.isPlain]
  rcases hkeyword with hk | hk | hk | hk
  · obtain ⟨g, outer, hs, hseen⟩ := exists_group hk (by simp) haccepted
    rw [hs]
    cases hopen : g.isOpenToBranch with
    | true => exact ⟨_, _, _, branch_open hl hk hopen (hseen (by simp))⟩
    | false => exact ⟨_, _, _, branch_closed hl hk hopen (hseen (by simp))⟩
  · obtain ⟨g, outer, hs, hseen⟩ := exists_group hk (by simp) haccepted
    rw [hs]
    exact ⟨_, _, _, lastBranch_passage hl hk (hseen (by simp))⟩
  · obtain ⟨g, outer, hs, -⟩ := exists_group hk (by simp) haccepted
    rw [hs]
    exact ⟨_, _, _, end_passage hl hk⟩
  · cases hs : s.isActive with
    | true => exact absurd hk (hinclude hs)
    | false => exact ⟨_, _, _, include_inactive hl hk hs⟩

end Line

/-! ### One line after the other -/

/-- The state before the line decides whether it is rejected. Then it delivers nothing, and behind its faults
only the rejection is reported of it. -/
structure Treatment.Fits (fs : FileSystem) (p : Preprocessor) (x : Treatment) : Prop where
  rejection : ∀ r, x.rejection = some r ↔ Rejects fs p x.line r
  rejected : ∀ r, x.rejection = some r →
    x.tokens = [] ∧ x.reports = x.line.faults p.currentName ++ [r.diagnostic p.currentName]

/-- From the first state the lines are read one after the other, and each is treated as fits the state before
it. -/
def Treats (fs : FileSystem) (first : Preprocessor) (treated : List Treatment) : Prop :=
  ∀ (front : List Treatment) (x : Treatment) (back : List Treatment), treated = front ++ x :: back →
    ∃ p : Preprocessor, Run fs first (front.flatMap (·.tokens)) p ∧
      p.diagnostics = first.diagnostics ++ front.flatMap (·.reports) ∧
      p.IsBefore x.line (back.flatMap (·.line.lexemes)) ∧ x.Fits fs p

/-- Where a run from the first state comes to an include among these lines that counts, the line is
rejected. -/
def OnlyRejectedIncludes (fs : FileSystem) (first : Preprocessor) (ls : List Line) : Prop :=
  ∀ front l back, ls = front ++ l :: back → l.keyword? = some .includeFile →
    ∀ ts p, Run fs first ts p → p.IsBefore l (back.flatMap Line.lexemes) → p.isActive = true →
      ∃ r, Rejects fs p l r

section Lines

variable {fs : FileSystem} {base p q : Preprocessor} {f : Frame} {s : Stage} {l : Line} {ls : List Line}
  {rest : List Lexeme} {earlier : List Diagnostic}

lemma Rejects.unique {r r' : Rejection} (h : Rejects fs p l r) (h' : Rejects fs p l r') : r = r' := by
  obtain ⟨hash, args, hwords, hrefuses⟩ := h
  obtain ⟨hash', args', hwords', hrefuses'⟩ := h'
  obtain ⟨hsame, rfl⟩ := List.cons.inj (hwords.symm.trans hwords')
  obtain ⟨rfl, -⟩ := LocatedToken.mk.inj hsame
  exact Option.some.inj ((refuses_iff.1 hrefuses).symm.trans (refuses_iff.1 hrefuses'))

lemma Reads.isBefore (h : Reads base f q s (l.lexemes ++ rest) earlier) (hl : l.IsLine)
    (hlast : l.stop = none → rest = []) : q.IsBefore l rest := by
  obtain ⟨atLineStart, hstart, hstate⟩ := h.state
  refine ⟨by rw [hstate]; rfl, hl, hlast, _, _, by rw [hstate]; rfl, rfl, fun hcontent => hstart ?_⟩
  simp [Line.lexemes, hcontent]

lemma Reads.diagnostics {lexemes : List Lexeme} (h : Reads base f q s lexemes earlier) :
    q.diagnostics = base.diagnostics ++ earlier := by
  obtain ⟨atLineStart, -, hstate⟩ := h.state
  simp [hstate, Preprocessor.diagnostics, noteAll, reading]

/-- What becomes of the next line, and that it leads to the same stage where rejected tokens are missing. -/
theorem exists_treatment (hq : Reads base f q s (l.lexemes ++ rest) earlier) (hl : l.IsLine)
    (hinclude : q.isActive = true → l.keyword? = some .includeFile → ∃ r, Rejects fs q l r) :
    ∃ (x : Treatment) (s' : Stage), x.line = l ∧ x.Fits fs q ∧ Passage fs base f s [l] x.tokens x.reports s' ∧
      Passage fs base f s [x.remainder] x.tokens (if x.rejection.isNone then x.reports else []) s' := by
  obtain ⟨atLineStart, -, hstate⟩ := hq.state
  by_cases hrejects : ∃ r, Rejects fs q l r
  · obtain ⟨r, hr⟩ := hrejects
    refine ⟨⟨l, some r, [], l.faults f.source.name ++ [r.diagnostic f.source.name]⟩, s, rfl, ⟨?_, ?_⟩, ?_, ?_⟩
    · intro r'
      rw [Option.some.injEq]
      exact ⟨fun h => h ▸ hr, fun h => hr.unique h⟩
    · intro r' hr'
      obtain rfl := Option.some.inj hr'
      rw [hstate]
      exact ⟨rfl, rfl⟩
    · rw [hstate] at hr
      exact rejected_passage hl hr
    · exact blank_passage hl
  · have haccepted : ∀ r, ¬Rejects fs (reading base f s [] true) l r := by
      intro r hr
      refine hrejects ⟨r, ?_⟩
      rw [hstate]
      rw [← noteAll_nil (reading base f s [] true)] at hr
      exact rejects_reading hr
    have hactive : q.isActive = s.isActive := by
      rw [hstate]
      rfl
    obtain ⟨ts, ds, s', hpassage⟩ := exists_passage hl haccepted
      fun hs hk => hrejects (hinclude (hactive.trans hs) hk)
    refine ⟨⟨l, none, ts, ds⟩, s', rfl, ⟨?_, nofun⟩, hpassage, hpassage⟩
    intro r
    exact ⟨nofun, fun h => absurd ⟨r, h⟩ hrejects⟩

lemma Treats.cons {x : Treatment} {treated : List Treatment}
    (hx : p.IsBefore x.line (treated.flatMap (·.line.lexemes)))
    (hfits : x.Fits fs p) (hrun : Run fs p x.tokens q) (hreports : q.diagnostics = p.diagnostics ++ x.reports)
    (h : Treats fs q treated) : Treats fs p (x :: treated) := by
  intro front y back hsplit
  cases front with
  | nil =>
    obtain ⟨rfl, rfl⟩ := List.cons.inj hsplit
    exact ⟨p, .done p, by simp, hx, hfits⟩
  | cons z front =>
    obtain ⟨rfl, hbehind⟩ := List.cons.inj hsplit
    obtain ⟨p', hrun', hreports', hy⟩ := h front y back hbehind
    refine ⟨p', hrun.trans hrun', ?_, hy⟩
    rw [hreports', hreports, List.append_assoc]
    rfl

lemma exists_treated (hls : ∀ l ∈ ls, l.IsLine) (hseparated : Line.Separated ls [])
    (hq : Reads base f q s (ls.flatMap Line.lexemes) earlier)
    (hincludes : OnlyRejectedIncludes fs q ls) :
    ∃ (treated : List Treatment) (s' : Stage), treated.map (·.line) = ls ∧ Treats fs q treated ∧
      Passage fs base f s ls (treated.flatMap (·.tokens)) (treated.flatMap (·.reports)) s' ∧
      Passage fs base f s (treated.map (·.remainder)) (treated.flatMap (·.tokens))
        ((treated.filter (·.rejection.isNone)).flatMap (·.reports)) s' := by
  induction ls generalizing q s earlier with
  | nil => exact ⟨[], s, rfl, by simp [Treats], .nil, .nil⟩
  | cons l ls ih =>
    obtain ⟨hl, hlater⟩ := List.forall_mem_cons.1 hls
    obtain ⟨hlast, hseparated⟩ := hseparated
    rw [List.append_nil] at hlast
    have hbefore : q.IsBefore l (ls.flatMap Line.lexemes) := hq.isBefore hl hlast
    obtain ⟨x, s₁, rfl, hfits, hfull, hkept⟩ :=
      exists_treatment hq hl fun hactive hk => hincludes [] l ls rfl hk [] q (.done q) hbefore hactive
    obtain ⟨q', hrun, -, hq'⟩ := hfull (ls.flatMap Line.lexemes) earlier q ⟨by simpa using hlast, trivial⟩
      (by simpa using hq)
    have hincludes' : OnlyRejectedIncludes fs q' ls := by
      intro front y back hsplit hk ts p hrun'
      exact hincludes (x.line :: front) y back (by rw [hsplit, List.cons_append]) hk _ p (hrun.trans hrun')
    obtain ⟨treated, s', rfl, htreats, hfull', hkept'⟩ := ih hlater hseparated hq' hincludes'
    refine ⟨x :: treated, s', rfl, ?_, hfull.append hfull', ?_⟩
    · rw [List.flatMap_map] at hbefore
      refine .cons hbefore hfits hrun ?_ htreats
      rw [hq'.diagnostics, hq.diagnostics, List.append_assoc]
    · have hall := hkept.append hkept'
      cases hnone : x.rejection.isNone <;> simpa [hnone] using hall

end Lines

/-! ### Sources -/

lemma Treatment.remainder_sublist (x : Treatment) : x.remainder.lexemes.Sublist x.line.lexemes := by
  unfold remainder
  split
  · exact List.sublist_append_right _ _
  · exact .refl _

lemma Treatment.remainder_stop (x : Treatment) : x.remainder.stop = x.line.stop := by
  unfold remainder
  split <;> rfl

/-- A rejected directive is skipped, and one error is reported behind the faults of its line. So the tokens
of all rejected lines can be missing from a source that enters no other: the same tokens are delivered and
the same macros defined, and only what was reported of these lines is missing. -/
theorem rejected_dismissed {c : Compiler} (hc : c.Reachable) (fs : FileSystem) {source loaded : Source}
    {content : List UInt8} (hload : source.load fs = (.ok content, loaded)) :
    (∀ p l rest r, IsBefore p l rest → Rejects fs p l r →
      (r.diagnostic p.currentName).isFatal = true ∧
        Run fs p [] ((p.skipLine l rest).noteAll [r.diagnostic p.currentName])) ∧
    (OnlyRejectedIncludes fs (c.preprocessor fs source) (Line.split (Lexemes.ofBytes content).list) →
      ∃ (treated : List Treatment) (table : DefineTable) (last : List Diagnostic),
        treated.map (·.line) = Line.split (Lexemes.ofBytes content).list ∧
        Treats fs (c.preprocessor fs source) treated ∧
        (c.preprocessor fs source).outcome fs =
          (treated.flatMap (·.tokens) ++ [⟨(Lexemes.ofBytes content).stop, .eof⟩], table,
            treated.flatMap (·.reports) ++ last) ∧
        ((c.preprocessor fs source).withLexemes (treated.flatMap (·.remainder.lexemes))).outcome fs =
          (treated.flatMap (·.tokens) ++ [⟨(Lexemes.ofBytes content).stop, .eof⟩], table,
            (treated.filter (·.rejection.isNone)).flatMap (·.reports) ++ last)) := by
  refine ⟨fun p l rest r hbefore hr => ⟨rfl, hbefore.rejected_run hr⟩, fun hincludes => ?_⟩
  have hsound : (c.preprocessor fs source).IsSound := isSound_start hc source
  have hstart : c.preprocessor fs source =
      { limits := c.config.limits, mainName := source.name, defines := c.defines
        frames := [Frame.ofContent fs loaded content] } := by
    rw [Compiler.preprocessor, start, hload]
  generalize c.preprocessor fs source = p at *
  have hlookahead : p.lookahead = none := by rw [hstart]
  have hfinished : p.finished = false := by rw [hstart]
  have hdiagnostics : p.diagnostics = [] := by
    rw [hstart]
    rfl
  have hlines : ∀ l ∈ Line.split (Lexemes.ofBytes content).list, l.IsLine :=
    Line.split_isLine fun y hy => (Lexemes.ofCursor_proper _ y hy).2
  have hlexemes := Line.split_flatten (Lexemes.ofBytes content).list
  have hseparated := Line.split_separated (Lexemes.ofBytes content).list
  have hreading : p = reading p (Frame.ofContent fs loaded content) ⟨p.defines, []⟩
      ((Line.split (Lexemes.ofBytes content).list).flatMap Line.lexemes) true := by
    rw [hlexemes, hstart]
    rfl
  have hreads : Reads p (Frame.ofContent fs loaded content) p ⟨p.defines, []⟩
      ((Line.split (Lexemes.ofBytes content).list).flatMap Line.lexemes) [] :=
    ⟨hsound, hlookahead, true, fun _ => rfl, by rw [noteAll_nil]; exact hreading⟩
  obtain ⟨treated, s, htreated, htreats, hfull, hkept⟩ := exists_treated hlines hseparated hreads hincludes
  refine ⟨treated, s.table, unclosed (Frame.ofContent fs loaded content) s.groups, htreated, htreats, ?_, ?_⟩
  · have hall := hfull.outcome_unclosed rfl hseparated hreading hsound hlookahead hfinished
    rwa [hdiagnostics, List.nil_append] at hall
  · rw [← htreated] at hseparated hlexemes
    have hsoundkept : (p.withLexemes (treated.flatMap (·.remainder.lexemes))).IsSound := by
      apply isSound_withLexemes hsound
      intro y hy
      have hmem := (Line.sublist_kept Treatment.remainder_sublist treated).subset hy
      rw [hlexemes] at hmem
      rw [hstart]
      exact hmem
    have hall := hkept.outcome_unclosed rfl
      (hseparated.kept Treatment.remainder_sublist Treatment.remainder_stop)
      (q := p.withLexemes (treated.flatMap (·.remainder.lexemes))) (by rw [hstart, List.flatMap_map]; rfl)
      hsoundkept hlookahead hfinished
    rwa [hdiagnostics, List.nil_append] at hall

/-- An unknown directive, an include without a file, a line of text, and an end of no group. -/
def rejectedLines : List UInt8 :=
  Text.bytes "#foo\n#include\nx\n#endif"

lemma rejectedLines_includes : OnlyRejectedIncludes .empty
    (({} : Compiler).preprocessor .empty (.ofBytes "" rejectedLines))
    (Line.split (Lexemes.ofBytes rejectedLines).list) := by
  intro front l back hsplit hk ts p _ _ hactive
  have hmem : l ∈ Line.split (Lexemes.ofBytes rejectedLines).list := by simp [hsplit]
  have hwords : ∀ l ∈ Line.split (Lexemes.ofBytes rejectedLines).list, l.keyword? = some .includeFile →
      l.words = [⟨⟨1, 0⟩, .punct .hash⟩, ⟨⟨1, 1⟩, .identifier "include"⟩] := by
    decide +kernel
  exact ⟨_, _, _, hwords l hmem hk, .malformed hactive nofun⟩

/-- The first line of the source. -/
def unknownLine : Line :=
  ⟨[⟨⟨0, 0⟩, .punct .hash, none⟩, ⟨⟨0, 1⟩, .identifier "foo", none⟩], some ⟨⟨0, 4⟩, .newline, none⟩⟩

theorem rejected_dismissed_rejectedLines :
    Compiler.Reachable {} ∧
      ((Source.ofBytes "" rejectedLines).load .empty).1 = .ok rejectedLines ∧
      ∃ p rest r, p = ({} : Compiler).preprocessor .empty (.ofBytes "" rejectedLines) ∧
        p.IsBefore unknownLine rest ∧ Rejects .empty p unknownLine r ∧
        (r.diagnostic p.currentName).isFatal = true ∧
        Run .empty p [] ((p.skipLine unknownLine rest).noteAll [r.diagnostic p.currentName]) ∧
        OnlyRejectedIncludes .empty p (Line.split (Lexemes.ofBytes rejectedLines).list) ∧
        ∃ (treated : List Treatment) (last : List Diagnostic), Treats .empty p treated ∧
          treated.flatMap (·.tokens) = [⟨⟨2, 0⟩, .identifier "x"⟩] ∧
          (treated.flatMap (·.reports) ++ last).map (·.location) = [⟨0, 1⟩, ⟨1, 1⟩, ⟨3, 1⟩] ∧
          ((p.withLexemes (treated.flatMap (·.remainder.lexemes))).outcome .empty).1 =
            [⟨⟨2, 0⟩, .identifier "x"⟩, ⟨⟨3, 6⟩, .eof⟩] := by
  have hload : (Source.ofBytes "" rejectedLines).load .empty =
      (.ok rejectedLines, (Source.ofBytes "" rejectedLines).load .empty |>.2) := rfl
  obtain ⟨hskipped, hdismissed⟩ := rejected_dismissed (.new {}) .empty hload
  have hbefore : (({} : Compiler).preprocessor .empty (.ofBytes "" rejectedLines)).IsBefore unknownLine
      ((Lexemes.ofBytes rejectedLines).list.drop 3) := by
    refine ⟨rfl, ⟨by decide +kernel, by decide +kernel⟩, nofun, _, [], rfl, ?_, fun _ => rfl⟩
    decide +kernel
  have hrejects : Rejects .empty (({} : Compiler).preprocessor .empty (.ofBytes "" rejectedLines)) unknownLine
      (.directive ⟨0, 1⟩ (.identifier "foo") (.unknown "foo")) :=
    ⟨⟨0, 0⟩, [⟨⟨0, 1⟩, .identifier "foo"⟩], by decide +kernel, .unknown rfl (by decide +kernel)⟩
  obtain ⟨hfatal, hrun⟩ := hskipped _ _ _ _ hbefore hrejects
  obtain ⟨treated, table, last, -, htreats, hall, hkept⟩ := hdismissed rejectedLines_includes
  have hoffered : ((({} : Compiler).preprocessor .empty (.ofBytes "" rejectedLines)).drain .empty).1 =
        [⟨⟨2, 0⟩, .identifier "x"⟩, ⟨⟨3, 6⟩, .eof⟩] ∧
      ((({} : Compiler).preprocessor .empty (.ofBytes "" rejectedLines)).drain .empty).2.diagnostics.map
        (·.location) = [⟨0, 1⟩, ⟨1, 1⟩, ⟨3, 1⟩] :=
    Prod.mk.inj (drain_computed (n := 9) (fun r => (r.1, r.2.diagnostics.map (·.location))) (by decide +kernel)
      rfl)
  have hdelivered : treated.flatMap (·.tokens) ++ [⟨(Lexemes.ofBytes rejectedLines).stop, .eof⟩] =
      [⟨⟨2, 0⟩, .identifier "x"⟩] ++ [⟨⟨3, 6⟩, .eof⟩] :=
    (congrArg (·.1) hall).symm.trans hoffered.1
  refine ⟨.new {}, rfl, _, _, _, rfl, hbefore, hrejects, hfatal, hrun, rejectedLines_includes, treated, last,
    htreats, List.append_inj_left' hdelivered rfl, ?_, ?_⟩
  · exact (congrArg (·.2.2.map (·.location)) hall).symm.trans hoffered.2
  · exact (congrArg (·.1) hkept).trans hdelivered

end Shading.Preprocessor
