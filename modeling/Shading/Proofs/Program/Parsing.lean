import Shading.Compiler
import Shading.Proofs.Declaration.Splitting
import Shading.Proofs.Preprocessor.Changes

/-!
# Programs are divisions of the delivered tokens

The tokens that preprocessing delivers are a program exactly if they can be divided into
declarations and lone semicolons. Then the program holds these declarations; otherwise the first
fault of the tokens is the first syntax error that is reported.
-/

namespace Shading

open Preprocessor Splitter

namespace Preprocessor

/-- The tokens that preprocessing delivers before the end. -/
def delivered (fs : FileSystem) (p : Preprocessor) : List LocatedToken :=
  (p.drain fs).1.dropLast

def stop (fs : FileSystem) (p : Preprocessor) : Location :=
  ((p.drain fs).1.getLast?.map (·.location)).getD .start

lemma drain_delivered (fs : FileSystem) (p : Preprocessor) :
    (p.drain fs).1 = p.delivered fs ++ [⟨p.stop fs, .eof⟩] ∧
      ∀ t ∈ p.delivered fs, t.token ≠ .eof := by
  have hshape : ∃ ts stop, (p.drain fs).1 = ts ++ [⟨stop, .eof⟩] ∧
      ∀ t ∈ ts, t.token ≠ .eof := by
    fun_induction drain fs p with
    | case1 p taken h =>
      refine ⟨[], taken.1.location, ?_, by simp⟩
      rw [List.nil_append, ← h]
    | case2 p taken h following ih =>
      obtain ⟨ts, stop, hts, heof⟩ := ih
      refine ⟨taken.1 :: ts, stop, by rw [List.cons_append, ← hts], ?_⟩
      intro t ht
      rcases List.mem_cons.1 ht with rfl | ht
      · exact h
      · exact heof t ht
  obtain ⟨ts, stop, hts, heof⟩ := hshape
  have hdelivered : p.delivered fs = ts := by rw [delivered, hts, List.dropLast_concat]
  have hstop : p.stop fs = stop := by simp [Preprocessor.stop, hts]
  rw [hdelivered, hstop]
  exact ⟨hts, heof⟩

end Preprocessor

namespace Program

lemma record_declarations (program : Program) (p : Preprocessor) (outcome : Splitter.Outcome) :
    (program.record p outcome).1.declarations =
      program.declarations ++ outcome.declared?.toList := by
  cases outcome <;> simp [record, Splitter.Outcome.declared?]

lemma record_syntaxErrors (program : Program) (p : Preprocessor) (outcome : Splitter.Outcome) :
    (program.record p outcome).2.syntaxErrors = p.syntaxErrors ++ outcome.failed?.toList := by
  cases outcome with
  | none => simp [record, Splitter.Outcome.failed?]
  | declared d => simp [record, Splitter.Outcome.failed?]
  | failed t cause =>
    simp [record, Splitter.Outcome.failed?, Preprocessor.error, Preprocessor.report,
      Preprocessor.note, Preprocessor.syntaxErrors, Preprocessor.diagnostics,
      Diagnostic.syntaxError?]

lemma record_drain (fs : FileSystem) (program : Program) (p : Preprocessor)
    (outcome : Splitter.Outcome) :
    ((program.record p outcome).2.drain fs).1 = (p.drain fs).1 := by
  obtain ⟨log, hlog⟩ := record_log program p outcome
  rw [hlog]
  exact drain_tokens_log fs p log

lemma filterMap_outcomes {α : Type} (f : Splitter.Outcome → Option α) (hf : f .none = none)
    (s : Splitter) (t : LocatedToken) (ts : List LocatedToken) :
    (outcomes s (t :: ts)).filterMap f =
      (f (s.feed t).2).toList ++ (outcomes (s.feed t).1 ts).filterMap f := by
  rw [outcomes, List.filterMap_append]
  congr 1
  split
  next h => rw [h, hf]; rfl
  · cases h : f (s.feed t).2 <;> simp [h]

lemma readFrom_outcomes (fs : FileSystem) (s : Splitter) (program : Program)
    (p : Preprocessor) :
    (readFrom fs s program p).1.declarations =
        program.declarations ++ (outcomes s (p.drain fs).1).filterMap Outcome.declared? ∧
      (readFrom fs s program p).2.syntaxErrors =
        p.syntaxErrors ++ (outcomes s (p.drain fs).1).filterMap Outcome.failed? := by
  fun_induction readFrom fs s program p with
  | case1 s program p taken fed recorded h =>
    have hdrain : p.drain fs = ([taken.1], taken.2) := drain_of_eof rfl h
    rw [hdrain, filterMap_outcomes _ rfl, filterMap_outcomes _ rfl]
    constructor
    · rw [record_declarations]
      simp [outcomes, fed]
    · rw [record_syntaxErrors, next_syntaxErrors]
      simp [outcomes, fed]
  | case2 s program p taken fed recorded h ih =>
    obtain ⟨hdeclarations, hsyntax⟩ := ih
    have hdrain : p.drain fs = (taken.1 :: (taken.2.drain fs).1, (taken.2.drain fs).2) :=
      drain_of_ne_eof rfl h
    rw [hdrain, filterMap_outcomes _ rfl, filterMap_outcomes _ rfl, hdeclarations, hsyntax,
      record_drain, record_declarations, record_syntaxErrors, next_syntaxErrors]
    exact ⟨List.append_assoc _ _ _, List.append_assoc _ _ _⟩

lemma filterMap_declared (ds : List Declaration) :
    (ds.map Outcome.declared).filterMap Outcome.declared? = ds ∧
      (ds.map Outcome.declared).filterMap Outcome.failed? = [] := by
  induction ds with
  | nil => exact ⟨rfl, rfl⟩
  | cons d ds ih => simp [Splitter.Outcome.declared?, Splitter.Outcome.failed?, ih.1]

theorem read_division {fs : FileSystem} (program : Program) {p : Preprocessor}
    (d : Division (p.delivered fs)) :
    (program.read fs p).1.declarations = program.declarations ++ d.declarations ∧
      (program.read fs p).2.syntaxErrors = p.syntaxErrors := by
  obtain ⟨hdrain, heof⟩ := drain_delivered fs p
  have houtcomes : outcomes .between (p.drain fs).1 = d.declarations.map .declared := by
    rw [hdrain, outcomes_division d heof]
    exact List.append_nil _
  obtain ⟨hdeclarations, hsyntax⟩ := readFrom_outcomes fs .between program p
  rw [houtcomes, (filterMap_declared _).1] at hdeclarations
  rw [houtcomes, (filterMap_declared _).2, List.append_nil] at hsyntax
  exact ⟨hdeclarations, hsyntax⟩

theorem read_fault {fs : FileSystem} (program : Program) {p : Preprocessor} {t : LocatedToken}
    {cause : SyntaxError} (h : Division.FirstFault (p.stop fs) (p.delivered fs) t cause) :
    ∃ later, (program.read fs p).2.syntaxErrors = p.syntaxErrors ++ (t, cause) :: later := by
  obtain ⟨hdrain, heof⟩ := drain_delivered fs p
  obtain ⟨ds, later, houtcomes⟩ := outcomes_fault h heof
  refine ⟨later.filterMap Outcome.failed?, ?_⟩
  have hsyntax := (readFrom_outcomes fs .between program p).2
  rw [hdrain, houtcomes, List.filterMap_append, (filterMap_declared ds).2] at hsyntax
  exact hsyntax

lemma no_fault_of_division {fs : FileSystem} {p : Preprocessor}
    (d : Division (p.delivered fs)) (t : LocatedToken) (cause : SyntaxError) :
    ¬Division.FirstFault (p.stop fs) (p.delivered fs) t cause := by
  intro hfault
  obtain ⟨later, hlater⟩ := read_fault {} hfault
  rw [(read_division {} d).2] at hlater
  exact List.cons_ne_nil _ _ (List.append_right_eq_self.1 hlater.symm)

lemma isFatal_of_syntaxError? {d : Diagnostic} {error : LocatedToken × SyntaxError}
    (h : d.syntaxError? = some error) : d.isFatal = true := by
  unfold Diagnostic.syntaxError? at h
  unfold Diagnostic.isFatal
  split at h
  next hproblem => rw [hproblem]
  · simp at h

lemma syntaxErrors_of_no_fatal {p : Preprocessor} (h : p.hasFatalError = false) :
    p.syntaxErrors = [] := by
  apply List.filterMap_eq_nil_iff.2
  intro d hd
  cases herror : d.syntaxError? with
  | none => rfl
  | some error =>
    have hfatal := List.any_eq_false.1 h d hd
    exact absurd (isFatal_of_syntaxError? herror) hfatal

lemma read_records (fs : FileSystem) (program : Program) (p : Preprocessor) :
    ∃ errors, (program.read fs p).2.syntaxErrors = p.syntaxErrors ++ errors ∧
      (errors = [] ↔ Nonempty (Division (p.delivered fs))) ∧
      (∀ d : Division (p.delivered fs),
        (program.read fs p).1.declarations = program.declarations ++ d.declarations) ∧
      ∀ t cause, errors.head? = some (t, cause) ↔
        Division.FirstFault (p.stop fs) (p.delivered fs) t cause := by
  rcases Division.division_or_fault (p.stop fs) (p.delivered fs) with ⟨⟨d⟩⟩ | ⟨t, cause, hfault⟩
  · refine ⟨[], ?_, ?_, fun e => (read_division program e).1, ?_⟩
    · rw [(read_division program d).2, List.append_nil]
    · exact ⟨fun _ => ⟨d⟩, fun _ => rfl⟩
    · intro t cause
      constructor
      · intro h
        cases h
      · intro h
        exact absurd h (no_fault_of_division d t cause)
  · obtain ⟨later, hlater⟩ := read_fault program hfault
    have hnone : ¬Nonempty (Division (p.delivered fs)) := by
      rintro ⟨d⟩
      exact no_fault_of_division d t cause hfault
    refine ⟨(t, cause) :: later, hlater, ?_, fun d => absurd ⟨d⟩ hnone, ?_⟩
    · exact iff_of_false (List.cons_ne_nil _ _) hnone
    · intro u other
      constructor
      · intro h
        obtain ⟨rfl, rfl⟩ := Prod.mk.inj (Option.some.inj h)
        exact hfault
      · intro h
        obtain ⟨later', hlater'⟩ := read_fault program h
        rw [hlater'] at hlater
        exact congrArg List.head? (List.append_cancel_left hlater).symm

theorem compile_program_iff (fs : FileSystem) (c : Compiler) (source : Source)
    (program : Program) :
    (c.compile fs source).program = some program ↔
      (∃ d : Division ((c.preprocessor fs source).delivered fs),
        program.declarations = d.declarations) ∧
      ∀ x ∈ (c.compile fs source).diagnostics, x.isFatal = false := by
  have hread (d : Division ((c.preprocessor fs source).delivered fs)) :
      (Program.read fs {} (c.preprocessor fs source)).1.declarations = d.declarations :=
    (read_division {} d).1.trans (List.nil_append _)
  have hfatal : (∀ x ∈ (c.compile fs source).diagnostics, x.isFatal = false) ↔
      (Program.read fs {} (c.preprocessor fs source)).2.hasFatalError = false := by
    simp [Compiler.compile, Preprocessor.hasFatalError]
  rw [hfatal]
  unfold Compiler.compile
  cases herror : (Program.read fs {} (c.preprocessor fs source)).2.hasFatalError with
  | true => simp [herror]
  | false =>
    have hnone := syntaxErrors_of_no_fatal herror
    rcases Division.division_or_fault ((c.preprocessor fs source).stop fs)
        ((c.preprocessor fs source).delivered fs) with ⟨⟨d⟩⟩ | ⟨t, cause, hfault⟩
    · simp only [herror, Bool.false_eq_true, if_false, Option.some.injEq, and_true]
      constructor
      · rintro rfl
        exact ⟨d, hread d⟩
      · rintro ⟨e, he⟩
        rw [← hread e] at he
        exact Program.mk.injEq _ _ ▸ he.symm
    · obtain ⟨later, hlater⟩ := read_fault {} hfault
      rw [hnone] at hlater
      simp at hlater

/-- Reading records no syntax error exactly if the delivered tokens can be divided, and then adds
the declarations of the only division. Otherwise the first syntax error is the first fault of the
tokens. A compilation yields a program exactly if moreover no diagnostic is fatal. -/
theorem read_division_or_fault (fs : FileSystem) :
    (∀ (program : Program) (p : Preprocessor), ∃ errors,
      (program.read fs p).2.syntaxErrors = p.syntaxErrors ++ errors ∧
      (errors = [] ↔ Nonempty (Division (p.delivered fs))) ∧
      (∀ d : Division (p.delivered fs),
        (program.read fs p).1.declarations = program.declarations ++ d.declarations ∧
          ∀ e : Division (p.delivered fs), e = d) ∧
      ∀ t cause, errors.head? = some (t, cause) ↔
        Division.FirstFault (p.stop fs) (p.delivered fs) t cause) ∧
    ∀ (c : Compiler) (source : Source) (program : Program),
      (c.compile fs source).program = some program ↔
        (∃ d : Division ((c.preprocessor fs source).delivered fs),
          program.declarations = d.declarations) ∧
        ∀ x ∈ (c.compile fs source).diagnostics, x.isFatal = false := by
  constructor
  · intro program p
    obtain ⟨errors, hsyntax, hdivision, hdeclarations, hfault⟩ := read_records fs program p
    refine ⟨errors, hsyntax, hdivision, ?_, hfault⟩
    intro d
    exact ⟨hdeclarations d, fun e => Subsingleton.elim e d⟩
  · intro c source program
    exact compile_program_iff fs c source program

end Program

end Shading
