import Shading.Proofs.Lexeme.Splice
import Shading.Proofs.Preprocessor.Placement
import Shading.Proofs.Preprocessor.Overwriting

/-!
# Included and inserted text

An include of a file does what the text of the file does in place of the line, up to the places that are
reported, if the file closes its groups and includes nothing.
-/

namespace Shading

open Text

namespace Line

lemma split_append {xs : List Lexeme} (h : EndsLine xs) (ys : List Lexeme) :
    split (xs ++ ys) = split xs ++ split ys := by
  induction xs with
  | nil => rfl
  | cons x xs ih =>
    rw [List.cons_append, split, split, ih h.tail]
    split
    · rfl
    next hx =>
      cases xs with
      | nil => exact absurd (h x rfl) hx
      | cons y ys => rw [split_eq (by simp)]; rfl

def lower (k : Nat) (l : Line) : Line :=
  { content := l.content.map (·.lower k), stop := l.stop.map (·.lower k) }

variable {l : Line} {k : Nat}

lemma lexemes_lower (k : Nat) (l : Line) : (l.lower k).lexemes = l.lexemes.map (·.lower k) := by
  unfold lexemes lower
  cases l.stop <;> simp

lemma words_lower (k : Nat) (l : Line) : (l.lower k).words.map (·.token) = l.words.map (·.token) := by
  simp only [words, lower, List.filter_map, List.map_map]
  rfl

lemma IsLine.lower (h : l.IsLine) (k : Nat) : (l.lower k).IsLine := by
  refine ⟨fun x hx => ?_, fun x hx => ?_⟩
  · obtain ⟨y, hy, rfl⟩ := List.mem_map.1 hx
    exact h.content y hy
  · obtain ⟨y, hy, rfl⟩ := Option.map_eq_some_iff.1 hx
    exact h.stop y hy

lemma not_closes_include {xs ys : List Lexeme} (hxs : EndsLine xs) (hl : l.IsLine)
    (hinclude : l.keyword? = some .includeFile) (hstop : l.stop = none → ys = []) (depth : Nat) :
    ¬Closes depth (split (xs ++ (l.lexemes ++ ys))) := by
  intro h
  have hne : l.lexemes ++ ys ≠ [] := by
    intro hnil
    rw [lexemes, List.append_assoc] at hnil
    rw [keyword?, directive?, words, (List.append_eq_nil_iff.1 hnil).1] at hinclude
    cases hinclude
  have hfirst : first (l.lexemes ++ ys) = l := by
    obtain ⟨content, stop⟩ := l
    have hall : ∀ x ∈ content, (x.token != .newline) = true := by
      intro x hx
      simpa using hl.content x hx
    rw [first, lexemes, List.append_assoc, List.takeWhile_append_of_pos hall,
      List.dropWhile_append_of_pos hall]
    cases stop with
    | none => simp [hstop rfl]
    | some x => simp [(hl.stop x rfl).1]
  rw [split_append hxs, Closes, List.foldlM_append] at h
  obtain ⟨n, -, hn⟩ := Option.bind_eq_some_iff.1 h
  rw [split_eq hne, hfirst] at hn
  obtain ⟨m, hm, -⟩ := closes_cons.1 hn
  rw [depthBehind?, hinclude] at hm
  cases hm

end Line

namespace Preprocessor

variable {fs : FileSystem} {p p' q q' r r' : Preprocessor}

/-! ### Two runs side by side -/

/-- Both states deliver the same tokens on the way to the other two. -/
def Beside (fs : FileSystem) (p p' q q' : Preprocessor) : Prop :=
  ∃ ts ts', Run fs p ts q ∧ Run fs p' ts' q' ∧ ts'.map (·.token) = ts.map (·.token) ∧
    ∀ t ∈ ts, t.token ≠ .eof

/-- The same tokens are delivered, the same macros are defined and the same is reported, up to places. -/
structure SameUpToPlaces (r r' : List LocatedToken × Preprocessor) : Prop where
  tokens : r'.1.map (·.token) = r.1.map (·.token)
  defines : r'.2.defines.unplaced = r.2.defines.unplaced
  reports : r'.2.diagnostics.map (fun d => (d.token, d.problem)) =
    r.2.diagnostics.map (fun d => (d.token, d.problem))

lemma Beside.of_runs (h : Run fs p [] q) (h' : Run fs p' [] q') : Beside fs p p' q q' :=
  ⟨[], [], h, h', rfl, by simp⟩

lemma Beside.trans (h : Beside fs p p' q q') (h' : Beside fs q q' r r') : Beside fs p p' r r' := by
  obtain ⟨ts, ts', hrun, hrun', htokens, hts⟩ := h
  obtain ⟨us, us', hnext, hnext', htokens', hus⟩ := h'
  refine ⟨ts ++ us, ts' ++ us', hrun.trans hnext, hrun'.trans hnext', ?_, ?_⟩
  · rw [List.map_append, List.map_append, htokens, htokens']
  · intro t ht
    exact (List.mem_append.1 ht).elim (hts t) (hus t)

lemma Beside.drain (h : Beside fs p p' q q') (hp : p.lookahead = none) (hp' : p'.lookahead = none)
    (hends : q.lookahead = none → q'.lookahead = none → SameUpToPlaces (q.drain fs) (q'.drain fs)) :
    SameUpToPlaces (p.drain fs) (p'.drain fs) := by
  obtain ⟨ts, ts', hrun, hrun', htokens, hts⟩ := h
  replace hends := hends (hrun.settings.2.trans hp) (hrun'.settings.2.trans hp')
  have hdrain := hrun.delivers hp hts
  have hdrain' := hrun'.delivers hp' (ne_eof_of_tokens htokens hts)
  unfold Delivers at hdrain hdrain'
  rw [hdrain, hdrain']
  refine ⟨?_, hends.defines, hends.reports⟩
  rw [List.map_append, List.map_append, htokens, hends.tokens]

lemma beside_to_end {W W' : Preprocessor → Preprocessor → Prop} (hself : Whole .any 0 [] r r)
    (hr : Endless r) (hW : Respects fs .any W) (hW' : Respects fs .any W') (hp : W r p)
    (hp' : W' r p') :
    ∃ s q q', s.AtEnd ∧ Endless s ∧ W s q ∧ W' s q' ∧ Beside fs p p' q q' := by
  obtain ⟨ts, s, -, hts, hend, hs, -, hall⟩ := run_to_end fs hself hr
  obtain ⟨us, q, hrun, halike, hq⟩ := hall _ W hW p hp
  obtain ⟨us', q', hrun', halike', hq'⟩ := hall _ W' hW' p' hp'
  have htokens := tokens_of_alike halike
  have htokens' := tokens_of_alike halike'
  exact ⟨s, q, q', hend, hs, hq, hq', us, us', hrun, hrun', htokens'.trans htokens.symm,
    ne_eof_of_tokens htokens hts⟩

lemma reports_of_alike {R : Likeness} {ds ds' : List Diagnostic}
    (h : List.Forall₂ (Diagnostic.Alike R) ds ds') :
    ds'.map (fun d => (d.token, d.problem)) = ds.map (fun d => (d.token, d.problem)) := by
  induction h with
  | nil => rfl
  | cons hd _ ih => rw [List.map_cons, List.map_cons, hd.token, hd.problem, ih]

lemma same_rest {k k' : Nat} (h : Whole .any k [] r p) (h' : Whole .any k' [] r p') (hr : Endless r)
    (hlookahead : r.lookahead = none) (hp : p.lookahead = none) (hp' : p'.lookahead = none) :
    SameUpToPlaces (p.drain fs) (p'.drain fs) := by
  obtain ⟨hts, hdefines, hds⟩ := h.drain_alike fs (fun _ => trivial) hr hlookahead hp
  obtain ⟨hts', hdefines', hds'⟩ := h'.drain_alike fs (fun _ => trivial) hr hlookahead hp'
  exact ⟨(tokens_of_alike hts').trans (tokens_of_alike hts).symm, hdefines'.trans hdefines.symm,
    (reports_of_alike hds').trans (reports_of_alike hds).symm⟩

/-! ### The line and the text in place of it -/

/-- The state has done what `s` has, and its main source, which is like `main`, goes on with these lexemes
at the start of a line. -/
structure GoesOn (s : Preprocessor) (main : Frame) (rest : List Lexeme) (p : Preprocessor) (f : Frame) :
    Prop where
  agrees : Agrees .any s p
  expansions : p.expansions = []
  frames : p.frames = [f]
  lexemes : f.lexemes = rest
  atLineStart : rest ≠ [] → f.atLineStart = true
  groups : f.groups = main.groups
  path : f.source.path? = main.source.path?
  file : f.file = main.file

lemma Whole.goesOn (fs : FileSystem) {s : Preprocessor} {rest : List Lexeme} {k : Nat}
    (h : Whole .any k rest s p) {main : Frame} (hs : s.frames = [main]) (hexpansions : s.expansions = [])
    (hmain : main.lexemes = []) :
    ∃ q f, Run fs p [] q ∧ GoesOn s main rest q f := by
  obtain ⟨included, f, f', hagrees, hp, hp', hplaced, hpath, hfile, -⟩ := h
  obtain ⟨rfl, rfl⟩ : included = [] ∧ f = main := by
    rw [hs] at hp
    cases included with
    | nil => exact ⟨rfl, (List.cons.inj hp).1.symm⟩
    | cons u included => simp at hp
  have hexpansions' := hagrees.expansions_nil hexpansions
  obtain ⟨atLineStart, hstart, hrun⟩ := placed_end fs hplaced hmain hexpansions' hp'
  exact ⟨_, _, hrun, hagrees.setFrames s.frames _, hexpansions', rfl, rfl, hstart,
    hplaced.groups.trans (List.append_nil _), hpath, hfile⟩

/-- Two main files with the same lines in front are read up to what follows these. -/
theorem reach_line {c : Compiler} (hc : c.Reachable) (fs : FileSystem) (path : Path)
    {before : List UInt8} (hbefore : EndsLine (Lexemes.ofBytes before).list) :
    ∃ s g, Endless s ∧ s.limits = c.config.limits ∧
      g.source.path? = some path ∧ g.file = some (fs.canonical path) ∧
      ((ofFile fs c path before).drain fs).2.isActive = g.isActive ∧
      ∀ text text' rest rest', (Lexemes.ofBytes text).list = (Lexemes.ofBytes before).list ++ rest →
        (Lexemes.ofBytes text').list = (Lexemes.ofBytes before).list ++ rest' →
          ∃ q q' f f', GoesOn s g rest q f ∧ GoesOn s g rest' q' f' ∧
            Beside fs (ofFile fs c path text) (ofFile fs c path text') q q' := by
  have hwhole {text : List UInt8} {rest : List Lexeme}
      (htext : (Lexemes.ofBytes text).list = (Lexemes.ofBytes before).list ++ rest) :
      Whole .any 0 rest (ofFile fs c path before) (ofFile fs c path text) := by
    refine .intro [] _ _ ⟨rfl, rfl, .nil, ⟨rfl, rfl⟩, .nil⟩ rfl rfl ?_ rfl rfl
      (.inl Likeness.any_reflexive)
    refine ⟨trivial, rfl, by simp, fun _ => trivial, fun _ => rfl, none, by simp, ?_,
      fun _ => .inr ⟨hbefore, fun _ => rfl⟩⟩
    simpa [Frame.ofContent] using htext
  have hsound : Endless (ofFile fs c path before) := by
    refine ⟨⟨hc.isSound, ?_⟩, by simp [ofFile]⟩
    intro f hf
    obtain rfl := List.mem_singleton.1 hf
    exact ofContent_ne_eof _ _ _
  obtain ⟨ts, s, hrun, hts, ⟨hexpansions, g, hg, hlexemes⟩, hs, ⟨_, _, _, hsame, _, _, _, _, _, _⟩, hall⟩ :=
    run_to_end fs (hwhole (List.append_nil _).symm).self hsound
  obtain ⟨included, main, hmain, hsource, hfile⟩ := hrun.readsFile ⟨[], _, rfl, rfl, rfl⟩
  obtain ⟨rfl, rfl⟩ : included = [] ∧ g = main := by
    rw [hg] at hmain
    cases included with
    | nil => exact ⟨rfl, (List.cons.inj hmain).1⟩
    | cons u included => simp at hmain
  have hactive : ((ofFile fs c path before).drain fs).2.isActive = g.isActive := by
    have hdrain := hrun.delivers rfl hts
    rw [Delivers, drain_atEnd fs hexpansions hg hlexemes hrun.settings.2 hsame.finished.1] at hdrain
    rw [hdrain]
    dsimp only
    split <;> simp [Preprocessor.isActive, error, report, note, hg]
  refine ⟨s, g, hs, hrun.settings.1, by rw [hsource]; rfl, hfile, hactive, ?_⟩
  intro text text' rest rest' htext htext'
  have hk : Respects fs .any (Whole .any 0 rest) := respects_whole fun _ => trivial
  have hk' : Respects fs .any (Whole .any 0 rest') := respects_whole fun _ => trivial
  obtain ⟨us, q, hrun, halike, hq⟩ := hall _ _ hk _ (hwhole htext)
  obtain ⟨us', q', hrun', halike', hq'⟩ := hall _ _ hk' _ (hwhole htext')
  obtain ⟨r, f, hend, hr⟩ := hq.goesOn fs hg hexpansions hlexemes
  obtain ⟨r', f', hend', hr'⟩ := hq'.goesOn fs hg hexpansions hlexemes
  have htokens := tokens_of_alike halike
  have htokens' := tokens_of_alike halike'
  have hbeside : Beside fs (ofFile fs c path text) (ofFile fs c path text') q q' :=
    ⟨us, us', hrun, hrun', htokens'.trans htokens.symm, ne_eof_of_tokens htokens hts⟩
  exact ⟨r, r', f, f', hr, hr', hbeside.trans (.of_runs hend hend')⟩

lemma includedFrame_local {base : Source} {name : String} {file : Path} {content : List UInt8}
    (hfile : base.relativePath? name = some file) (hread : fs.read file = .ok content) :
    includedFrame fs base true name =
      .ok (Frame.ofContent fs { Source.ofFile file with loaded := some content } content) := by
  unfold includedFrame Source.resolveInclude
  rw [hfile]
  simp only [Source.load, Source.ofFile, Source.content, hread]
  rfl

lemma eq_reading (hp : p.expansions = []) (f : Frame) (lexemes : List Lexeme) (atLineStart : Bool) :
    { p with frames := [{ f with lexemes, atLineStart }] } =
      (reading p f ⟨p.defines, f.groups⟩ lexemes atLineStart).noteAll [] := by
  rw [noteAll_nil, reading, ← hp]

lemma obeyLine_include {f frame : Frame} {name : String} (hp : p.frames = [f])
    (hactive : f.isActive = true) (hdepth : 1 ≤ p.limits.includeDepth)
    (hframe : includedFrame fs f.source true name = .ok frame)
    (hfile : ∀ file ∈ frame.file, f.file ≠ some file) (hash l l' : Location) :
    p.obeyLine fs hash [⟨l, .identifier "include"⟩, ⟨l', .string name⟩] =
      { p with frames := [frame, f] } := by
  have hisActive : p.isActive = true := by
    unfold Preprocessor.isActive
    rw [hp]
    exact hactive
  have henter : p.enter fs l true name = .ok { p with frames := [frame, f] } := by
    unfold enter
    rw [hp]
    dsimp only
    rw [if_neg (by simp; omega), hframe]
    cases hf : frame.file with
    | none => simp [hf]
    | some file => simp [hf, hfile file hf]
  have hobey : p.obey fs
      { hash, name := "include", location := l, args := [⟨l', .string name⟩] } =
        .ok { p with frames := [frame, f] } := by
    unfold obey
    rw [hisActive]
    exact henter
  have hparse : parseDirective hash [⟨l, .identifier "include"⟩, ⟨l', .string name⟩] = some (.ok
      { hash, name := "include", location := l, args := [⟨l', .string name⟩] }) := rfl
  rw [obeyLine, hparse]
  dsimp only
  rw [hobey]

lemma words_include {l : Line} {name : String}
    (h : l.words.map (·.token) = [.punct .hash, .identifier "include", .string name]) :
    ∃ hash place place', l.words =
      [⟨hash, .punct .hash⟩, ⟨place, .identifier "include"⟩, ⟨place', .string name⟩] := by
  match hl : l.words with
  | [⟨hash, token⟩, ⟨place, token'⟩, ⟨place', token''⟩] =>
    rw [hl] at h
    obtain ⟨rfl, rfl, rfl⟩ : token = .punct .hash ∧ token' = .identifier "include" ∧
        token'' = .string name := by simpa using h
    exact ⟨hash, place, place', rfl⟩
  | [] | [_] | [_, _] | _ :: _ :: _ :: _ :: _ => simp [hl] at h

/-- The line is obeyed: the file is entered, and its includer goes on behind the line. -/
theorem include_run (fs : FileSystem) {s : Preprocessor} {main f frame : Frame} {l : Line}
    {rest : List Lexeme}
    (hq : GoesOn s main (l.lexemes ++ rest) q f) (hl : l.IsLine) {name : String}
    (hwords : l.words.map (·.token) = [.punct .hash, .identifier "include", .string name])
    (hfaults : ∀ x ∈ l.content, x.fault = none) (hrest : l.stop = none → rest = [])
    (hactive : main.isActive = true) (hdepth : 1 ≤ s.limits.includeDepth)
    (hframe : includedFrame fs main.source true name = .ok frame)
    (hfile : ∀ file ∈ frame.file, main.file ≠ some file) :
    Run fs q [] { q with frames := [frame, { f with lexemes := rest, atLineStart := true }] } := by
  obtain ⟨hash, place, place', hwords⟩ := words_include hwords
  have hne : l.lexemes ++ rest ≠ [] := by
    intro hnil
    rw [Line.lexemes, List.append_assoc] at hnil
    rw [Line.words, (List.append_eq_nil_iff.1 hnil).1] at hwords
    cases hwords
  have hnofaults : l.faults f.source.name = [] := by
    rw [Line.faults, List.filterMap_eq_nil_iff]
    intro x hx
    simp [Lexeme.diagnostic?, hfaults x hx]
  have hread : Run fs ((reading q f ⟨q.defines, f.groups⟩ (l.lexemes ++ rest) true).noteAll []) [] _ :=
    hash_run fs hl hwords hrest []
  have hstart : { q with frames := [{ f with lexemes := l.lexemes ++ rest, atLineStart := true }] } = q := by
    have hsame : { f with lexemes := l.lexemes ++ rest, atLineStart := true } = f := by
      rw [← hq.lexemes, ← hq.atLineStart hne]
    rw [hsame, ← hq.frames]
  rw [hnofaults, List.append_nil, ← eq_reading hq.expansions, ← eq_reading hq.expansions, hstart] at hread
  have hincluded : includedFrame fs f.source true name = .ok frame := by
    rw [includedFrame_congr fs hq.path, hframe]
  have hisActive : Frame.isActive { f with lexemes := rest, atLineStart := true } = true := by
    unfold Frame.isActive at hactive ⊢
    rw [hq.groups]
    exact hactive
  rw [obeyLine_include rfl hisActive (by rw [hq.agrees.limits]; exact hdepth) hincluded
    (by rw [hq.file]; exact hfile)] at hread
  exact hread

lemma Closed.goesOn (fs : FileSystem) {s : Preprocessor} {k : Nat} {hs : List Group} {rest : List Lexeme}
    {main : Frame} {outer : List Frame} (h : Closed .any k hs rest main outer s p) (hend : s.AtEnd) :
    ∃ q f, Run fs p [] q ∧ Agrees .any s q ∧ q.expansions = [] ∧ q.frames = f :: outer ∧
      f.lexemes = rest ∧ (rest ≠ [] → f.atLineStart = true) ∧ f.groups = hs ∧
      f.source.path? = main.source.path? ∧ f.file = main.file := by
  obtain ⟨f, f', hagrees, hp, hp', hplaced, hpath, hfile, hcloses⟩ := h
  obtain ⟨hexpansions, g, hg, hlexemes⟩ := hend
  obtain rfl : f = g := by
    rw [hp] at hg
    exact (List.cons.inj hg).1
  have hexpansions' := hagrees.expansions_nil hexpansions
  have hgroups : f.groups = [] := by
    rw [hlexemes] at hcloses
    have hzero : some f.groups.length = some 0 := by
      cases hstart : f.atLineStart <;> rw [hstart] at hcloses <;> exact hcloses
    exact List.eq_nil_of_length_eq_zero (Option.some.inj hzero)
  obtain ⟨atLineStart, hstart, hrun⟩ := placed_end fs hplaced hlexemes hexpansions' hp'
  exact ⟨_, _, hrun, hagrees.setFrames s.frames _, hexpansions', rfl, rfl, hstart,
    hplaced.groups.trans (by rw [hgroups, List.nil_append]), hpath, hfile⟩

lemma newline_front_run (fs : FileSystem) {frame behind : Frame} {inner : List Lexeme}
    (hexpansions : r.expansions = []) (hframes : r.frames = [frame, behind])
    (hstart : frame.atLineStart = true)
    (htext : frame.lexemes = inner ∨
      ∃ x, x.token = .newline ∧ x.fault = none ∧ frame.lexemes = x :: inner) :
    Run fs r [] { r with frames := [{ frame with lexemes := inner }, behind] } := by
  rcases htext with hsame | ⟨x, hnewline, hfault, hx⟩
  · have hstate : { r with frames := [{ frame with lexemes := inner }, behind] } = r := by
      rw [← hsame, ← hframes]
    rw [hstate]
    exact .done r
  · have hstep := newline_step fs hexpansions hframes hx ⟨hnewline, hfault⟩
    rw [← hstart] at hstep
    exact .proceed hstep (.done _)

lemma GoesOn.closed {s : Preprocessor} {main frame f' : Frame} {rest' inner : List Lexeme}
    {joint : Option Lexeme} {m : Nat}
    (hq' : GoesOn s main (inner.map (·.lower m) ++ (joint.toList ++ rest')) q' f')
    (hactive : main.isActive = true) (hgroups : frame.groups = []) (hstart : frame.atLineStart = true)
    (hcloses : Line.Closes 0 (Line.split inner))
    (hjoint : ∀ x ∈ joint, x.token = .newline ∧ x.fault = none) (hends : joint = none → EndsLine inner) :
    Closed .any m main.groups rest' main [] { s with frames := [{ frame with lexemes := inner }] } q' := by
  have hbegins (hne : inner ≠ [] ∨ rest' ≠ []) : f'.atLineStart = true := by
    refine hq'.atLineStart fun hnil => ?_
    obtain ⟨hmap, hbehind⟩ := List.append_eq_nil_iff.1 hnil
    rcases hne with hne | hne
    · exact hne (by simpa using hmap)
    · exact hne (List.append_eq_nil_iff.1 hbehind).2
  have houter : ∀ g ∈ main.groups.head?, g.active = true := by
    intro g hg
    unfold Frame.isActive at hactive
    cases hmain : main.groups with
    | nil => simp [hmain] at hg
    | cons g' groups =>
      rw [hmain] at hg hactive
      obtain rfl : g' = g := Option.some.inj hg
      exact hactive
  have hplaced : Frame.Placed .any m main.groups rest' { frame with lexemes := inner } f' := by
    refine ⟨trivial, by rw [hq'.groups, hgroups, List.nil_append], houter, fun _ => trivial,
      fun hne => (hbegins (.inl hne)).trans hstart.symm, joint, hjoint, hq'.lexemes, fun hnone => ?_⟩
    exact or_iff_not_imp_left.2 fun hne => ⟨hends hnone, fun _ => hbegins (.inr hne)⟩
  refine .intro _ f' (hq'.agrees.setFrames _ _) rfl hq'.frames hplaced hq'.path hq'.file ?_
  rw [hgroups, hstart]
  exact hcloses

/-- The included text and the text in place of the line are read to their ends. -/
theorem included_inserted (fs : FileSystem) {s : Preprocessor} {main frame behind f' : Frame}
    {rest rest' inner : List Lexeme} {joint : Option Lexeme} {m : Nat} (hs : Endless s)
    (hactive : main.isActive = true)
    (hr : GoesOn s main rest { r with frames := [behind] } behind) (hframes : r.frames = [frame, behind])
    (hgroups : frame.groups = []) (hstart : frame.atLineStart = true)
    (htext : frame.lexemes = inner ∨ ∃ x, x.token = .newline ∧ x.fault = none ∧ frame.lexemes = x :: inner)
    (hinner : ∀ x ∈ inner, x.token ≠ .eof) (hcloses : Line.Closes 0 (Line.split inner))
    (hjoint : ∀ x ∈ joint, x.token = .newline ∧ x.fault = none) (hends : joint = none → EndsLine inner)
    (hq' : GoesOn s main (inner.map (·.lower m) ++ (joint.toList ++ rest')) q' f') :
    ∃ e t t' g', Endless e ∧ GoesOn e main rest t behind ∧
      GoesOn e main rest' t' g' ∧ Beside fs r q' t t' := by
  have hexpansions : r.expansions = [] := hr.expansions
  have hfirst := newline_front_run fs hexpansions hframes hstart htext
  let base : Preprocessor := { s with frames := [{ frame with lexemes := inner }] }
  have hself : Whole .any 0 [] base base :=
    .intro [] _ _ (agrees_self hr.agrees.finished.1) rfl rfl (.refl Likeness.any_reflexive _) rfl rfl
      (.inl Likeness.any_reflexive)
  have hbase : Endless base := by
    refine ⟨⟨hs.defines, ?_⟩, hs.expansions⟩
    intro g hg
    obtain rfl := List.mem_singleton.1 hg
    exact hinner
  have hincluded : Closed .any 0 [] [] frame [behind] base
      { r with frames := [{ frame with lexemes := inner }, behind] } := by
    refine .intro _ _ (hr.agrees.setFrames _ _) rfl rfl (.refl Likeness.any_reflexive _) rfl rfl ?_
    rw [hgroups, hstart]
    exact hcloses
  obtain ⟨e, t, t', hend, he, ht, ht', hbeside⟩ := beside_to_end hself hbase
    (respects_closed (fun _ => trivial) frame [behind]) (respects_closed (fun _ => trivial) main [])
    hincluded (hq'.closed hactive hgroups hstart hcloses hjoint hends)
  obtain ⟨u, g, hrun, hagrees, hu, huframes, hulexemes, -, hugroups, -, -⟩ := ht.goesOn fs hend
  obtain ⟨u', g', hrun', hagrees', hu', hframes', hlexemes', hstart', hgroups', hpath', hfile'⟩ :=
    ht'.goesOn fs hend
  have hleave : Run fs u [] { u with frames := [behind] } := by
    have hstep := step_eq_stepEnd fs hu huframes hulexemes
    rw [stepEnd, hagrees.finished.2, hugroups] at hstep
    exact .proceed hstep (.done _)
  refine ⟨e, { u with frames := [behind] }, u', g', he,
    ⟨hagrees.setFrames e.frames _, hu, rfl, hr.lexemes, hr.atLineStart, hr.groups, hr.path, hr.file⟩,
    ⟨hagrees', hu', hframes', hlexemes', hstart', hgroups', hpath', hfile'⟩, ?_⟩
  exact (Beside.of_runs hfirst (.done q')).trans
    (hbeside.trans (.of_runs (hrun.trans hleave) hrun'))

lemma GoesOn.whole {s : Preprocessor} {main f : Frame} {xs : List Lexeme} {k : Nat}
    (h : GoesOn s main (xs.map (·.lower k)) p f) :
    Whole .any k []
      { s with frames := [{ main with lexemes := xs, atLineStart := true }], lookahead := none } p := by
  refine .intro [] _ f ⟨h.agrees.limits, h.agrees.defines, h.agrees.expansions, h.agrees.finished,
    h.agrees.log⟩ rfl h.frames ?_ h.path h.file (.inl Likeness.any_reflexive)
  refine ⟨trivial, h.groups.trans (List.append_nil _).symm, by simp, fun _ => trivial, fun hne => ?_, none,
    by simp, by simp [h.lexemes], fun _ => .inl rfl⟩
  exact h.atLineStart (by simpa using hne)

/-- The bytes are a whole line that includes the file of this name. -/
structure IsInclude (name : String) (line after : List UInt8) (l : Line) : Prop where
  split : Line.split (Lexemes.ofBytes line).list = [l]
  words : l.words.map (·.token) = [.punct .hash, .identifier "include", .string name]
  faults : ∀ x ∈ l.content, x.fault = none
  stop : l.stop = none → after = []
  whole : SplitsNoBreak line after

/-- The text has no errors, closes its groups and includes nothing. -/
structure IsClosed (text : List UInt8) : Prop where
  clean : ∀ x ∈ (Lexemes.ofBytes text).list, x.hasError = false
  closes : Line.Closes 0 (Line.split (Lexemes.ofBytes text).list)

lemma keyword?_include {l : Line} {name : String}
    (h : l.words.map (·.token) = [.punct .hash, .identifier "include", .string name]) :
    l.keyword? = some .includeFile := by
  obtain ⟨hash, place, place', hwords⟩ := words_include h
  rw [Line.keyword?, Line.directive?, hwords]
  rfl

section Texts

variable {name : String} {before line after text : List UInt8} {l : Line}

lemma IsInclude.around (h : IsInclude name line after l)
    (hbefore : EndsLine (Lexemes.ofBytes before).list) :
    ∃ (l' : Line) (n : Nat), l'.IsLine ∧
      l'.words.map (·.token) = [.punct .hash, .identifier "include", .string name] ∧
      (∀ x ∈ l'.content, x.fault = none) ∧
      (l'.stop = none → (Lexemes.ofBytes after).list.map (·.lower n) = []) ∧
      (Lexemes.ofBytes (before ++ (line ++ after))).list =
        (Lexemes.ofBytes before).list ++
          (l'.lexemes ++ (Lexemes.ofBytes after).list.map (·.lower n)) := by
  have hmem : l ∈ Line.split (Lexemes.ofBytes line).list := by
    rw [h.split]
    exact List.mem_singleton_self l
  have hl : l.IsLine := Line.split_isLine (fun x hx => (Lexemes.ofCursor_proper _ x hx).2) l hmem
  have hwords : l.words ≠ [] := by
    intro hnil
    have hwords := h.words
    rw [hnil] at hwords
    cases hwords
  obtain ⟨m, n, haround⟩ := Lexemes.ofBytes_around hbefore h.split hwords h.stop h.whole
  rw [← Line.lexemes_lower] at haround
  refine ⟨l.lower m, n, hl.lower m, (Line.words_lower m l).trans h.words, ?_, ?_, haround⟩
  · intro x hx
    obtain ⟨y, hy, rfl⟩ := List.mem_map.1 hx
    exact h.faults y hy
  · intro hnone
    rw [h.stop (Option.map_eq_none_iff.1 hnone), Lexemes.ofBytes, Lexemes.ofCursor_nil rfl]
    rfl

lemma IsClosed.inner (h : IsClosed text) {inner : List Lexeme}
    (hinner : inner = (Lexemes.ofBytes text).list ∨ ∃ x, x.token = .newline ∧ x.fault = none ∧
      (Lexemes.ofBytes text).list = x :: inner) :
    (∀ x ∈ inner, x.token ≠ .eof) ∧ Line.Closes 0 (Line.split inner) := by
  rcases hinner with rfl | ⟨x, hnewline, -, hx⟩
  · exact ⟨fun x hx => (Lexemes.ofCursor_proper _ x hx).1, h.closes⟩
  · refine ⟨fun y hy => (Lexemes.ofCursor_proper ⟨.start, text⟩ y ?_).1, ?_⟩
    · exact hx ▸ List.mem_cons_of_mem x hy
    · have hpassed : Line.Closes 0 (Line.upcoming (x.startsLineBehind true) inner) := by
        refine Line.closes_passed (by simp [hnewline]) ?_
        rw [Line.upcoming, if_pos rfl, ← hx]
        exact h.closes
      have hbegins : x.startsLineBehind true = true := by
        simp [Lexeme.startsLineBehind, hnewline, Token.isSkipped]
      rwa [hbegins] at hpassed

end Texts

/-- An include of a file and the text of the file in place of the line: the same tokens are delivered,
the same macros are defined and the same is reported, up to places. -/
theorem include_inserts (fs : FileSystem) {c : Compiler} (hc : c.Reachable)
    (hdepth : 1 ≤ c.config.limits.includeDepth) {path file : Path} {name : String}
    {before line after text : List UInt8} {l : Line}
    (hmain : fs.read path = .ok (before ++ (line ++ after)))
    (hbefore : EndsLine (Lexemes.ofBytes before).list) (hline : IsInclude name line after l)
    (hactive : ((c.preprocessor (fs.overwrite path before) (.ofFile path)).drain
      (fs.overwrite path before)).2.isActive = true)
    (hfile : (Source.ofFile path).relativePath? name = some file) (hread : fs.read file = .ok text)
    (hsame : fs.canonical file = fs.canonical path → fs.read file = fs.read path)
    (htext : IsClosed text)
    (hreturn : text.getLast? = some (ascii '\r') → EndsLine (Lexemes.ofBytes text).list) :
    SameUpToPlaces ((c.preprocessor fs (.ofFile path)).drain fs)
      ((c.preprocessor (fs.overwrite path (before ++ (text ++ ascii '\n' :: after))) (.ofFile path)).drain
        (fs.overwrite path (before ++ (text ++ ascii '\n' :: after)))) := by
  have hexists : ∃ old, fs.read path = .ok old := ⟨_, hmain⟩
  rw [drain_ofFile c hexists] at hactive ⊢
  rw [preprocessor_ofFile c hmain]
  obtain ⟨l', n, hl, hwords, hfaults, hlast, hincluding⟩ := hline.around hbefore
  obtain ⟨inner, joint, m, n', hjoint, hends, hinner, hinserted⟩ :=
    Lexemes.ofBytes_splice hbefore htext.clean hreturn after
  obtain ⟨hproper, hcloses⟩ := htext.inner hinner
  have hother : fs.canonical file ≠ fs.canonical path := by
    intro hcanonical
    have hcontent := hsame hcanonical
    rw [hread, hmain] at hcontent
    have hclosed := htext.closes
    rw [Except.ok.inj hcontent, hincluding] at hclosed
    exact Line.not_closes_include hbefore hl (keyword?_include hwords) hlast 0 hclosed
  obtain ⟨s, main, hs, hlimits, hpath, hcanonical, hisActive, hreach⟩ :=
    reach_line hc fs path hbefore
  rw [hisActive] at hactive
  obtain ⟨q, q', f, f', hq, hq', hbeside⟩ := hreach _ _ _ _ hincluding hinserted
  let frame := Frame.ofContent fs { Source.ofFile file with loaded := some text } text
  let behind : Frame :=
    { f with lexemes := (Lexemes.ofBytes after).list.map (·.lower n), atLineStart := true }
  have hframe : includedFrame fs main.source true name = .ok frame := by
    refine includedFrame_local ?_ hread
    rw [Source.relativePath?, hpath]
    exact hfile
  have hnotOpen : ∀ file' ∈ frame.file, main.file ≠ some file' := by
    rintro file' hfile' hopen
    obtain rfl : fs.canonical file = file' := Option.some.inj hfile'
    rw [hcanonical] at hopen
    exact hother (Option.some.inj hopen).symm
  have hentered : Run fs q [] { q with frames := [frame, behind] } :=
    include_run fs hq hl hwords hfaults hlast hactive (by rwa [hlimits]) hframe hnotOpen
  have hbehind : GoesOn s main ((Lexemes.ofBytes after).list.map (·.lower n))
      { ({ q with frames := [frame, behind] } : Preprocessor) with frames := [behind] } behind :=
    ⟨hq.agrees.setFrames s.frames _, hq.expansions, rfl, rfl, fun _ => rfl, hq.groups, hq.path, hq.file⟩
  obtain ⟨e, t, t', g', he, ht, ht', hbeside'⟩ := included_inserted fs hs hactive hbehind rfl rfl rfl
    (hinner.imp Eq.symm id) hproper hcloses hjoint hends hq'
  have hrest : Endless { e with
      frames := [{ main with lexemes := (Lexemes.ofBytes after).list, atLineStart := true }]
      lookahead := none } := by
    refine ⟨⟨he.defines, ?_⟩, he.expansions⟩
    intro g hg
    obtain rfl := List.mem_singleton.1 hg
    exact fun x hx => (Lexemes.ofCursor_proper _ x hx).1
  have hall := (hbeside.trans (.of_runs hentered (.done q'))).trans hbeside'
  exact hall.drain rfl rfl fun hlookahead hlookahead' =>
    same_rest ht.whole ht'.whole hrest rfl hlookahead hlookahead'

/-- The files of a program and of a part of it. -/
def twoFiles (main part : List UInt8) : FileSystem where
  read path :=
    if path = ⟨"main"⟩ then .ok main else if path = ⟨"part"⟩ then .ok part else .error .notFound
  exists? path := path = ⟨"main"⟩ || path = ⟨"part"⟩
  canonical path := path

/-- The line that includes the part. -/
def partLine : Line where
  content := [⟨⟨0, 0⟩, .punct .hash, none⟩, ⟨⟨0, 1⟩, .identifier "include", none⟩, ⟨⟨0, 8⟩, .blank, none⟩,
    ⟨⟨0, 9⟩, .string "part", none⟩]
  stop := some ⟨⟨0, 15⟩, .newline, none⟩

lemma isInclude_partLine {after : List UInt8} :
    IsInclude "part" (bytes "#include \"part\"\n") after partLine where
  split := by decide +kernel
  words := by decide +kernel
  faults := by decide +kernel
  stop := by simp [partLine]
  whole := fun hlast => absurd hlast (by decide +kernel)

/-- An include within a group, of a part that ends in a directive. -/
theorem include_inserts_inGroup :
    let before := bytes "#define A 1\n#if A\n"
    let line := bytes "#include \"part\"\n"
    let after := bytes "B\n#endif\n"
    let text := bytes "#define B A\nB\n#ifndef C\n#endif"
    let fs := twoFiles (before ++ (line ++ after)) text
    let inserted := fs.overwrite ⟨"main"⟩ (before ++ (text ++ ascii '\n' :: after))
    Compiler.Reachable {} ∧ fs.read ⟨"main"⟩ = .ok (before ++ (line ++ after)) ∧
      EndsLine (Lexemes.ofBytes before).list ∧ IsInclude "part" line after partLine ∧
      ((({} : Compiler).preprocessor (fs.overwrite ⟨"main"⟩ before) (.ofFile ⟨"main"⟩)).drain
        (fs.overwrite ⟨"main"⟩ before)).2.isActive = true ∧
      (Source.ofFile ⟨"main"⟩).relativePath? "part" = some ⟨"part"⟩ ∧ fs.read ⟨"part"⟩ = .ok text ∧
      IsClosed text ∧
      SameUpToPlaces ((({} : Compiler).preprocessor fs (.ofFile ⟨"main"⟩)).drain fs)
        ((({} : Compiler).preprocessor inserted (.ofFile ⟨"main"⟩)).drain inserted) := by
  intro before line after text fs inserted
  have hmain : fs.read ⟨"main"⟩ = .ok (before ++ (line ++ after)) := rfl
  have hbefore : EndsLine (Lexemes.ofBytes before).list := by
    unfold EndsLine
    decide +kernel
  have hactive : ((({} : Compiler).preprocessor (fs.overwrite ⟨"main"⟩ before) (.ofFile ⟨"main"⟩)).drain
      (fs.overwrite ⟨"main"⟩ before)).2.isActive = true :=
    drain_computed (fun r => r.2.isActive) (n := 20) (by decide +kernel) rfl
  have hfile : (Source.ofFile ⟨"main"⟩).relativePath? "part" = some ⟨"part"⟩ := by decide +kernel
  have hread : fs.read ⟨"part"⟩ = .ok text := by decide +kernel
  have htext : IsClosed text := by
    refine ⟨by decide +kernel, ?_⟩
    unfold Line.Closes
    decide +kernel
  refine ⟨.new {}, hmain, hbefore, isInclude_partLine, hactive, hfile, hread, htext, ?_⟩
  exact include_inserts fs (.new {}) (by decide) hmain hbefore isInclude_partLine hactive hfile hread
    (fun h => absurd h (by decide +kernel)) htext (fun h => absurd h (by decide +kernel))

/-- Behind a text that ends in an escaped carriage return, the line feed after it belongs to the escape, and
the last line of the text takes the next line as well. -/
theorem include_differs_behind_escape :
    let line := bytes "#include \"part\"\n"
    let after := bytes "X\n"
    let text := bytes "#define X 1 \\\r"
    let fs := twoFiles (line ++ after) text
    let inserted := fs.overwrite ⟨"main"⟩ (text ++ ascii '\n' :: after)
    fs.read ⟨"main"⟩ = .ok (line ++ after) ∧ IsInclude "part" line after partLine ∧
      (Source.ofFile ⟨"main"⟩).relativePath? "part" = some ⟨"part"⟩ ∧ fs.read ⟨"part"⟩ = .ok text ∧
      IsClosed text ∧
      ((({} : Compiler).preprocessor inserted (.ofFile ⟨"main"⟩)).drain inserted).1.map (·.token) ≠
        ((({} : Compiler).preprocessor fs (.ofFile ⟨"main"⟩)).drain fs).1.map (·.token) := by
  intro line after text fs inserted
  have hfile : (Source.ofFile ⟨"main"⟩).relativePath? "part" = some ⟨"part"⟩ := by decide +kernel
  have htext : IsClosed text := by
    refine ⟨by decide +kernel, ?_⟩
    unfold Line.Closes
    decide +kernel
  have hincluded : ((({} : Compiler).preprocessor fs (.ofFile ⟨"main"⟩)).drain fs).1.map (·.token) =
      [.int 1, .eof] :=
    drain_computed (fun r => r.1.map (·.token)) (n := 20) (by decide +kernel) rfl
  have hinserted : ((({} : Compiler).preprocessor inserted (.ofFile ⟨"main"⟩)).drain inserted).1.map
      (·.token) = [.eof] :=
    drain_computed (fun r => r.1.map (·.token)) (n := 20) (by decide +kernel) rfl
  refine ⟨rfl, isInclude_partLine, hfile, by decide +kernel, htext, ?_⟩
  rw [hincluded, hinserted]
  simp

end Preprocessor

end Shading
