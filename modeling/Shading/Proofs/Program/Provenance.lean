import Shading.Compiler
import Shading.Proofs.Preprocessor.Inclusion
import Shading.Proofs.Preprocessor.Origins

/-!
# Where diagnostics come from

A diagnostic names the source that is being read when it is reported. This is the source of what it is
about, but for a bracket that is still open behind all tokens: this one is reported in the main source,
wherever it was opened.
-/

namespace Shading

open Preprocessor

namespace Splitter

def brackets : Splitter → List OpenBracket
  | within _ _ brackets => brackets
  | _ => []

section Feed

variable {location : Location} {tokens : List Token} {opened : List OpenBracket} {t u : LocatedToken}
  {b : OpenBracket} {cause : SyntaxError}

lemma close_brackets {place : Location} {p : Punct}
    (h : b ∈ (close location tokens opened place p).1.brackets) : b ∈ opened := by
  unfold close at h
  dsimp only at h
  split at h
  · cases h
  · split at h
    · cases h
    · split at h
      · cases h
      · exact List.mem_cons_of_mem _ h

lemma extend_brackets (h : b ∈ (extend location tokens opened t).1.brackets) :
    b ∈ opened ∨ t = ⟨b.location, .punct b.bracket⟩ := by
  unfold extend at h
  split at h
  · cases h
  next p htoken =>
    split at h
    · exact .inl (close_brackets h)
    · split at h
      · cases h
      · dsimp only [brackets] at h
        split at h
        · rcases List.mem_cons.1 h with rfl | h
          · exact .inr (by rw [← htoken])
          · exact .inl h
        · exact .inl h
  · exact .inl h

lemma feed_brackets {s : Splitter} (h : b ∈ (s.feed t).1.brackets) :
    b ∈ s.brackets ∨ t = ⟨b.location, .punct b.bracket⟩ := by
  cases s with
  | between =>
    unfold feed at h
    dsimp only at h
    split at h
    · cases h
    · exact extend_brackets h
  | within location tokens opened => exact extend_brackets h
  | skipping depth =>
    have hnone : (skip depth t.token).brackets = [] := by
      unfold skip
      split
      · rfl
      · repeat' split
        all_goals rfl
      · rfl
    rw [feed, hnone] at h
    cases h

lemma close_failed {place : Location} {p : Punct}
    (h : (close location tokens opened place p).2 = .failed u cause) : u.location = place := by
  unfold close at h
  dsimp only at h
  split at h
  · obtain ⟨rfl, -⟩ := Outcome.failed.inj h
    rfl
  · split at h
    · obtain ⟨rfl, -⟩ := Outcome.failed.inj h
      rfl
    · split at h <;> cases h

lemma extend_failed (h : (extend location tokens opened t).2 = .failed u cause) :
    u.location = t.location ∨
      t.token = .eof ∧ ∃ b ∈ opened, u.location = b.location ∧ cause = .unclosed b.bracket := by
  unfold extend at h
  split at h
  next htoken =>
    cases opened with
    | nil =>
      obtain ⟨rfl, -⟩ := Outcome.failed.inj h
      exact .inl rfl
    | cons b outer =>
      obtain ⟨rfl, rfl⟩ := Outcome.failed.inj h
      exact .inr ⟨htoken, b, List.mem_cons_self, rfl, rfl⟩
  · split at h
    · exact .inl (close_failed h)
    · split at h <;> cases h
  · cases h

/-- A declaration fails at the token, or at the end with a bracket that is still open. -/
lemma feed_failed {s : Splitter} (h : (s.feed t).2 = .failed u cause) :
    u.location = t.location ∨
      t.token = .eof ∧ ∃ b ∈ s.brackets, u.location = b.location ∧ cause = .unclosed b.bracket := by
  cases s with
  | between =>
    unfold feed at h
    dsimp only at h
    split at h
    · cases h
    · exact extend_failed h
  | within location tokens opened => exact extend_failed h
  | skipping depth => cases h

end Feed

end Splitter

namespace Program

/-- A program that is being read: the state of preprocessing, where the splitter stands, and the
declarations so far. -/
structure Progress where
  preprocessor : Preprocessor
  splitter : Splitter := .between
  program : Program := {}

namespace Progress

/-- One step of preprocessing. If it delivers a token, the splitter is fed with it. -/
def next (fs : FileSystem) (g : Progress) : Progress :=
  match g.preprocessor.step fs with
  | .proceed q => { g with preprocessor := q }
  | .deliver t q =>
    let fed := g.splitter.feed t
    let recorded := g.program.record q fed.2
    { preprocessor := recorded.2, splitter := fed.1, program := recorded.1 }

/-- The reading behind this many steps. -/
def advance (fs : FileSystem) (g : Progress) (n : Nat) : Progress :=
  (next fs)^[n] g

/-- Whether the next step delivers the end. -/
def meetsEnd (fs : FileSystem) (g : Progress) : Bool :=
  (g.preprocessor.step fs).token?.any (·.token = .eof)

/-- What the next step reports. -/
def reported (fs : FileSystem) (g : Progress) : List Diagnostic :=
  (g.next fs).preprocessor.diagnostics.drop g.preprocessor.diagnostics.length

section Steps

variable {fs : FileSystem} {g : Progress}

lemma advance_succ (fs : FileSystem) (g : Progress) (n : Nat) :
    g.advance fs (n + 1) = (g.advance fs n).next fs :=
  Function.iterate_succ_apply' _ _ _

lemma next_preprocessor (fs : FileSystem) (g : Progress) :
    ∃ log, (g.next fs).preprocessor = { (g.preprocessor.step fs).next with log } := by
  unfold next
  split
  next q hstep => exact ⟨q.log, by rw [hstep]; rfl⟩
  next t q hstep =>
    obtain ⟨log, hlog⟩ := record_log g.program q (g.splitter.feed t).2
    exact ⟨log, by rw [hstep]; exact hlog⟩

lemma isHistory_advance (fs : FileSystem) (g : Progress) :
    IsHistory fs fun m => (g.advance fs m).preprocessor := by
  intro m
  dsimp only
  rw [advance_succ]
  exact next_preprocessor fs _

lemma lookahead_next (h : g.preprocessor.lookahead = none) : (g.next fs).preprocessor.lookahead = none := by
  obtain ⟨log, hlog⟩ := next_preprocessor fs g
  rw [hlog]
  exact (step_lookahead fs rfl).trans h

/-! ### Reading to the end -/

lemma next_descends (h : g.meetsEnd fs = false) :
    Relation.TransGen Smaller (g.next fs).preprocessor g.preprocessor := by
  obtain ⟨log, hlog⟩ := next_preprocessor fs g
  have hdescends := step_descends fs g.preprocessor
  unfold meetsEnd at h
  rw [hlog]
  apply Smaller.withLog log
  cases hstep : g.preprocessor.step fs with
  | proceed q =>
    rw [hstep] at hdescends
    exact .single hdescends
  | deliver t q =>
    rw [hstep] at hdescends h
    exact .single (hdescends (by simpa [Step.token?] using h))

lemma exists_meetsEnd (fs : FileSystem) (g : Progress) : ∃ n, (g.advance fs n).meetsEnd fs = true := by
  induction hp : g.preprocessor using Smaller.wellFounded.transGen.induction generalizing g with
  | _ p ih =>
    subst hp
    cases hend : g.meetsEnd fs with
    | true => exact ⟨0, hend⟩
    | false =>
      obtain ⟨n, hn⟩ := ih _ (next_descends hend) (g.next fs) rfl
      exact ⟨n + 1, hn⟩

lemma readFrom_next (hlookahead : g.preprocessor.lookahead = none) (h : g.meetsEnd fs = false) :
    readFrom fs g.splitter g.program g.preprocessor =
      readFrom fs (g.next fs).splitter (g.next fs).program (g.next fs).preprocessor := by
  unfold meetsEnd at h
  unfold next
  cases hstep : g.preprocessor.step fs with
  | proceed q =>
    dsimp only
    rw [readFrom, next_proceed hlookahead hstep, eq_comm, readFrom]
  | deliver t q =>
    rw [hstep] at h
    have ht : t.token ≠ .eof := by simpa [Step.token?] using h
    rw [readFrom, next_deliver hlookahead hstep]
    simp only
    rw [dif_neg ht]

/-- A program is read by the steps up to the first one that delivers the end. -/
theorem readFrom_advance (hlookahead : g.preprocessor.lookahead = none) {n : Nat}
    (hbefore : ∀ m < n, (g.advance fs m).meetsEnd fs = false) (hend : (g.advance fs n).meetsEnd fs = true) :
    readFrom fs g.splitter g.program g.preprocessor =
      ((g.advance fs (n + 1)).program, (g.advance fs (n + 1)).preprocessor) := by
  induction n generalizing g with
  | zero =>
    replace hend : g.meetsEnd fs = true := hend
    have hlast : g.advance fs (0 + 1) = g.next fs := rfl
    rw [hlast]
    unfold meetsEnd at hend
    unfold next
    cases hstep : g.preprocessor.step fs with
    | proceed q => simp [hstep, Step.token?] at hend
    | deliver t q =>
      rw [hstep] at hend
      have ht : t.token = .eof := by simpa [Step.token?] using hend
      rw [readFrom, next_deliver hlookahead hstep]
      simp only
      rw [dif_pos ht]
  | succ n ih =>
    rw [readFrom_next hlookahead (hbefore 0 n.succ_pos)]
    exact ih (lookahead_next hlookahead) (fun m hm => hbefore (m + 1) (Nat.succ_lt_succ hm)) hend

/-! ### What is reported -/

/-- A diagnostic arises in preprocessing, or the token that is delivered makes a declaration fail. -/
inductive Arises (fs : FileSystem) (g : Progress) (d : Diagnostic) : Prop
  | preprocessing (hsource : d.source = g.preprocessor.currentName)
      (hlocation : d.location ∈ g.preprocessor.places)
  | syntactic {t u : LocatedToken} {q : Preprocessor} {cause : SyntaxError}
      (hstep : g.preprocessor.step fs = .deliver t q) (hfed : (g.splitter.feed t).2 = .failed u cause)
      (hsource : d.source = q.currentName) (hlocation : d.location = u.location)
      (hproblem : d.problem = .error (.syntactic cause))

lemma diagnostics_next (fs : FileSystem) (g : Progress) :
    (g.next fs).preprocessor.diagnostics = g.preprocessor.diagnostics ++ g.reported fs ∧
      ∀ d ∈ g.reported fs, Arises fs g d := by
  suffices h : ∃ ds, (g.next fs).preprocessor.diagnostics = g.preprocessor.diagnostics ++ ds ∧
      ∀ d ∈ ds, Arises fs g d by
    obtain ⟨ds, hds, harises⟩ := h
    rw [reported, hds, List.drop_left]
    exact ⟨rfl, harises⟩
  obtain ⟨ds, hds, habout, -⟩ := (step_isStep fs g.preprocessor).reports
  have hpreprocessing : ∀ d ∈ ds, Arises fs g d := fun d hd =>
    .preprocessing (habout d hd).1 (habout d hd).2
  unfold next
  cases hstep : g.preprocessor.step fs with
  | proceed q =>
    rw [hstep] at hds
    exact ⟨ds, hds, hpreprocessing⟩
  | deliver t q =>
    rw [hstep] at hds
    dsimp only
    cases hfed : (g.splitter.feed t).2 with
    | none => exact ⟨ds, hds, hpreprocessing⟩
    | declared declaration => exact ⟨ds, hds, hpreprocessing⟩
    | failed u cause =>
      refine ⟨ds ++ [⟨q.currentName, u.location, u.token, .error (.syntactic cause)⟩], ?_, ?_⟩
      · rw [← List.append_assoc, ← hds]
        exact Array.toList_push
      · intro d hd
        rcases List.mem_append.1 hd with hd | hd
        · exact hpreprocessing d hd
        · obtain rfl := List.mem_singleton.1 hd
          exact .syntactic hstep hfed rfl rfl rfl

lemma diagnostics_advance (fs : FileSystem) (g : Progress) (n : Nat) :
    (g.advance fs n).preprocessor.diagnostics =
      g.preprocessor.diagnostics ++ (List.range n).flatMap fun m => (g.advance fs m).reported fs := by
  induction n with
  | zero => exact (List.append_nil _).symm
  | succ n ih =>
    rw [advance_succ, (diagnostics_next fs _).1, ih, List.range_succ, List.flatMap_append, List.append_assoc,
      List.flatMap_singleton]

/-- Where the diagnostic that is reported by the step number `m` comes from, and which source it names. -/
inductive IsTraced (fs : FileSystem) (main : String) (states : Nat → Preprocessor) (m : Nat)
    (d : Diagnostic) : Prop
  | named (o : Origin) (horigin : Stems states m o) (hsource : d.source = o.source.name)
      (hlocation : d.location = o.location)
  | unclosed (k : Nat) (hk : k < m) (o : Origin) (horigin : Stems states k o) (bracket : Punct)
      (hopened : ((states k).step fs).token? = some ⟨o.location, .punct bracket⟩)
      (hsource : d.source = main) (hlocation : d.location = o.location)
      (hproblem : d.problem = .error (.syntactic (.unclosed bracket)))

lemma next_unread (fs : FileSystem) (hframes : g.preprocessor.frames = [])
    (hexpansions : g.preprocessor.expansions = []) (hsplitter : g.splitter = .between) :
    (g.next fs).splitter = .between ∧ (g.next fs).preprocessor.diagnostics = g.preprocessor.diagnostics := by
  rw [next, step_unread fs hframes hexpansions, hsplitter]
  exact ⟨rfl, rfl⟩

section Traced

variable (hrooted : g.preprocessor.IsRooted) (hsplitter : g.splitter = .between)

include hrooted hsplitter

lemma splitter_unread (m : Nat) (hframes : (g.advance fs m).preprocessor.frames = []) :
    (g.advance fs m).splitter = .between := by
  induction m with
  | zero => exact hsplitter
  | succ m ih =>
    obtain ⟨log, hlog⟩ := isHistory_advance fs g m
    have hbefore : (g.advance fs m).preprocessor.frames = [] := by
      dsimp only at hlog
      rw [hlog] at hframes
      exact frames_of_step hframes
    have hexpansions := ((isHistory_advance fs g).isRooted hrooted m).unread hbefore
    rw [advance_succ]
    exact (next_unread fs hbefore hexpansions (ih hbefore)).1

omit hrooted in
lemma opened_before (m : Nat) : ∀ b ∈ (g.advance fs m).splitter.brackets,
    ∃ k < m, ((g.advance fs k).preprocessor.step fs).token? = some ⟨b.location, .punct b.bracket⟩ := by
  induction m with
  | zero =>
    intro b hb
    replace hb : b ∈ g.splitter.brackets := hb
    rw [hsplitter] at hb
    cases hb
  | succ m ih =>
    intro b hb
    have hbehind (h : b ∈ (g.advance fs m).splitter.brackets) : ∃ k < m + 1,
        ((g.advance fs k).preprocessor.step fs).token? = some ⟨b.location, .punct b.bracket⟩ := by
      obtain ⟨k, hk, hopened⟩ := ih b h
      exact ⟨k, Nat.lt_succ_of_lt hk, hopened⟩
    rw [advance_succ, next] at hb
    split at hb
    · exact hbehind hb
    next t q hstep =>
      rcases Splitter.feed_brackets hb with h | rfl
      · exact hbehind h
      · exact ⟨m, Nat.lt_succ_self m, by rw [hstep]; rfl⟩

/-- Every diagnostic names the source of what it is about, or is about a bracket that is still open behind
all tokens and names the main source. -/
theorem isTraced_reported (hnone : g.preprocessor.expansions = []) (m : Nat) :
    ∀ d ∈ (g.advance fs m).reported fs,
      IsTraced fs g.preprocessor.mainName (fun k => (g.advance fs k).preprocessor) m d := by
  have hhistory := isHistory_advance fs g
  have hrootedAt := hhistory.isRooted hrooted
  have hplace (k : Nat) (hframes : (g.advance fs k).preprocessor.frames ≠ []) {location : Location}
      (h : location ∈ (g.advance fs k).preprocessor.places) :=
    hhistory.stems_place hrooted hnone (m := k) hframes h
  intro d hd
  by_cases hframes : (g.advance fs m).preprocessor.frames = []
  · have hreported : (g.advance fs m).reported fs = [] := by
      have hsame := (next_unread fs hframes ((hrootedAt m).unread hframes)
        (splitter_unread hrooted hsplitter m hframes)).2
      rw [reported, hsame, List.drop_length]
    rw [hreported] at hd
    cases hd
  cases (diagnostics_next fs _).2 d hd with
  | preprocessing hsource hlocation =>
    obtain ⟨o, hstems, ho, hname⟩ := hplace m hframes hlocation
    exact .named o hstems (hsource.trans hname.symm) ho.symm
  | @syntactic t u q cause hstep hfed hsource hlocation hproblem =>
    obtain ⟨hhere, hcurrent⟩ := (step_isStep fs _).delivered t q hstep
    rcases Splitter.feed_failed hfed with hu | ⟨heof, b, hb, hu, rfl⟩
    · obtain ⟨o, hstems, ho, hname⟩ := hplace m hframes (here_mem_places _)
      exact .named o hstems (hsource.trans (hcurrent.trans hname.symm))
        (hlocation.trans (hu.trans (hhere.trans ho.symm)))
    · obtain ⟨k, hk, hopened⟩ := opened_before hsplitter m b hb
      have hframesAt := (hrootedAt k).frames_ne_nil hopened (by simp)
      obtain ⟨o, hstems, ho, -⟩ := hplace k hframesAt (here_mem_places _)
      have hopener : o.location = b.location := ho.trans (token?_location hopened).symm
      have hmain : q.currentName = g.preprocessor.mainName :=
        hhistory.currentName_atEnd hrooted (m := m) hstep heof
      exact .unclosed k hk o hstems b.bracket (by rw [hopener]; exact hopened) (hsource.trans hmain)
        (hlocation.trans (hu.trans hopener.symm)) hproblem

end Traced

end Steps

end Progress

end Program

namespace Compiler

open Program

/-- The reading of a source, from its beginning. -/
def reading (fs : FileSystem) (c : Compiler) (source : Source) : Progress :=
  { preprocessor := c.preprocessor fs source }

/-- A compilation that is computed by steps. -/
lemma compile_computed (c : Compiler) (fs : FileSystem) (source : Source) {n : Nat}
    (hlookahead : (c.preprocessor fs source).lookahead = none)
    (hbefore : ∀ m < n, ((c.reading fs source).advance fs m).meetsEnd fs = false)
    (hend : ((c.reading fs source).advance fs n).meetsEnd fs = true) :
    c.compile fs source =
      let last := (c.reading fs source).advance fs (n + 1)
      { program := if last.preprocessor.hasFatalError then none else some last.program
        diagnostics := last.preprocessor.diagnostics } := by
  have hread : Program.read fs {} (c.preprocessor fs source) = _ :=
    Progress.readFrom_advance (g := c.reading fs source) hlookahead hbefore hend
  simp only [compile, hread]

lemma diagnostics_start (fs : FileSystem) (c : Compiler) (source : Source) :
    ∀ d ∈ (c.preprocessor fs source).diagnostics, d.source = source.name ∧ d.location = .start ∧
      ∃ cause, (source.load fs).1 = .error cause := by
  intro d hd
  unfold preprocessor start at hd
  cases hload : source.load fs with
  | mk read loaded =>
    rw [hload] at hd
    cases read with
    | ok content => simp [diagnostics] at hd
    | error cause =>
      obtain rfl : d = ⟨source.name, .start, .eof, .error (.file cause)⟩ := by
        simpa [diagnostics, error, report, note, currentName] using hd
      exact ⟨rfl, rfl, cause, rfl⟩

/-- A compilation goes on by steps, up to the first one that delivers the end. A main source that cannot be
read is reported in its own name. Every diagnostic that a step reports names the source where the step, or
the call of the macro it expands, was read; only a bracket that is still open behind all tokens is reported
in the main source, wherever it was delivered. -/
theorem diagnostics_traced {c : Compiler} (hc : c.Reachable) (fs : FileSystem) (source : Source) :
    let reading := (c.reading fs source).advance fs
    let states m := (reading m).preprocessor
    (∃ n, (∀ m < n, (reading m).meetsEnd fs = false) ∧ (reading n).meetsEnd fs = true ∧
      (c.compile fs source).diagnostics = (c.preprocessor fs source).diagnostics ++
        (List.range (n + 1)).flatMap fun m => (reading m).reported fs) ∧
    (∀ d ∈ (c.preprocessor fs source).diagnostics, d.source = source.name ∧ d.location = .start ∧
      ∃ cause, (source.load fs).1 = .error cause) ∧
    (∀ m, ∀ o ∈ (states m).reads, o.IsPlace) ∧
    ∀ m, ∀ d ∈ (reading m).reported fs, Progress.IsTraced fs source.name states m d := by
  intro reading states
  have hrooted : (c.reading fs source).preprocessor.IsRooted := isRooted_start hc fs source
  obtain ⟨hlookahead, hexpansions, hname⟩ := preprocessor_start c fs source
  have hplaces : ∀ m, ∀ o ∈ (states m).reads, o.IsPlace := fun m o ho =>
    ((Progress.isHistory_advance fs _).isRooted hrooted m).isPlace ho
  refine ⟨?_, c.diagnostics_start fs source, hplaces, ?_⟩
  · have hends := Progress.exists_meetsEnd fs (c.reading fs source)
    have hbefore : ∀ m < Nat.find hends, (reading m).meetsEnd fs = false := fun m hm =>
      Bool.eq_false_of_not_eq_true (Nat.find_min hends hm)
    refine ⟨Nat.find hends, hbefore, Nat.find_spec hends, ?_⟩
    have hread := Progress.readFrom_advance hlookahead hbefore (Nat.find_spec hends)
    exact (congrArg (·.2.diagnostics) hread).trans (Progress.diagnostics_advance fs _ _)
  · rw [← hname]
    exact Progress.isTraced_reported hrooted rfl hexpansions

/-- A closing parenthesis without an opening one in an included file. -/
theorem diagnostics_traced_unexpected :
    let fs := twoFiles (Text.bytes "#include \"part\"\n") (Text.bytes ")")
    let reading := (({} : Compiler).reading fs (.ofFile ⟨"main"⟩)).advance fs
    Compiler.Reachable {} ∧
    (reading 1).reported fs =
      [⟨"part", ⟨0, 0⟩, .punct .rightParen, .error (.syntactic (.unexpected .rightParen))⟩] ∧
    ∃ o, Stems (fun m => (reading m).preprocessor) 1 o ∧ o.source.name = "part" ∧ o.location = ⟨0, 0⟩ := by
  intro fs reading
  have hreported : (reading 1).reported fs =
      [⟨"part", ⟨0, 0⟩, .punct .rightParen, .error (.syntactic (.unexpected .rightParen))⟩] := by
    decide +kernel
  refine ⟨.new {}, hreported, ?_⟩
  obtain ⟨-, -, -, htraced⟩ := diagnostics_traced (.new {}) fs (.ofFile ⟨"main"⟩)
  cases htraced 1 _ (by rw [hreported]; exact List.mem_singleton_self _) with
  | named o hstems hsource hlocation => exact ⟨o, hstems, hsource.symm, hlocation.symm⟩
  | unclosed k hk o hstems bracket hopened hsource hlocation hproblem => simp at hproblem

/-- A brace that an included file opens is reported in the file that includes it. -/
theorem unclosed_names_includer :
    let main := Text.bytes "#include \"part\"\n"
    let part := Text.bytes "f() \x7b"
    let fs := twoFiles main part
    let reading := (({} : Compiler).reading fs (.ofFile ⟨"main"⟩)).advance fs
    (({} : Compiler).compile fs (.ofFile ⟨"main"⟩)).diagnostics =
      [⟨"main", ⟨0, 4⟩, .eof, .error (.syntactic (.unclosed .leftBrace))⟩] ∧
    ((reading 5).preprocessor.step fs).token? = some ⟨⟨0, 4⟩, .punct .leftBrace⟩ ∧
    (reading 5).preprocessor.reads = [⟨{ Source.ofFile ⟨"part"⟩ with loaded := some part }, ⟨0, 4⟩⟩] ∧
    ⟨0, 4⟩ ∉ (Lexemes.ofBytes main).places := by
  intro main part fs reading
  have hbefore : ∀ m < 7, (reading m).meetsEnd fs = false := by decide +kernel
  have hread := Progress.readFrom_advance (g := ({} : Compiler).reading fs (.ofFile ⟨"main"⟩)) rfl hbefore
    (by decide +kernel)
  refine ⟨(congrArg (·.2.diagnostics) hread).trans ?_, ?_, ?_, ?_⟩
  all_goals decide +kernel

end Compiler

end Shading
