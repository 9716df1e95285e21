import Shading.Proofs.CommandLine.Macros
import Shading.Proofs.CommandLine.Reading
import Shading.Proofs.Program.Provenance

/-!
# Outcomes of runs

The exit code, the lines on the error stream, the number of errors and the structured output of a run come
from the program and from the diagnostics of one compilation, and do not contradict each other.
-/

namespace Shading

open CommandLine

/-- There is no program exactly if there is an error. -/
def Compilation.IsConsistent (c : Compilation) : Prop :=
  c.program = none ↔ ∃ d ∈ c.diagnostics, d.isFatal = true

lemma Compiler.compile_isConsistent (fs : FileSystem) (c : Compiler) (source : Source) :
    (c.compile fs source).IsConsistent := by
  unfold Compilation.IsConsistent Compiler.compile
  simp [Preprocessor.hasFatalError]

namespace CommandLine

/-! ### Structured output -/

namespace Json

variable {fields others : List (String × Json)}

lemma lookup_of_perm (h : fields.Perm others) (hkeys : (fields.map (·.1)).Nodup) (key : String) :
    fields.lookup key = others.lookup key := by
  induction h with
  | nil => rfl
  | cons f _ ih =>
    rw [List.map_cons, List.nodup_cons] at hkeys
    rw [List.lookup_cons, List.lookup_cons, ih hkeys.2]
  | swap f g fields =>
    have hne : g.1 ≠ f.1 := by
      simp only [List.map_cons, List.nodup_cons, List.mem_cons, not_or] at hkeys
      exact hkeys.1.1
    rw [List.lookup_cons, List.lookup_cons, List.lookup_cons, List.lookup_cons]
    by_cases hg : key = g.1
    · rw [hg, beq_self_eq_true, beq_false_of_ne hne]
    · rw [beq_false_of_ne hg]
  | trans hperm _ ih ih' => rw [ih hkeys, ih' ((hperm.map _).nodup_iff.1 hkeys)]

lemma lookup_map (change : Json → Json) (key : String) :
    (fields.map fun f => (f.1, change f.2)).lookup key = (fields.lookup key).map change := by
  induction fields with
  | nil => rfl
  | cons f fields ih =>
    rw [List.map_cons, List.lookup_cons, List.lookup_cons, ih]
    cases key == f.1 <;> rfl

lemma field?_canonical (hkeys : (fields.map (·.1)).Nodup) (key : String) :
    (object fields).canonical.field? key = (fields.lookup key).map canonical := by
  rw [canonical_object, field?, lookup_map, lookup_of_perm (List.mergeSort_perm fields _).symm hkeys]
  rfl

/-- What an object tells of a declaration. -/
structure TellsDeclaration (d : Declaration) (value : Json) : Prop where
  name : value.field? "name" = some (d.name?.elim null string)
  line : value.field? "line" = some (number (d.location.line + 1))
  column : value.field? "column" = some (number d.location.column)
  hasBody : value.field? "has_body" = some (bool d.hasBody)

/-- What an object tells of a diagnostic. -/
structure TellsDiagnostic (d : Diagnostic) (value : Json) : Prop where
  source : value.field? "source" = some (string d.source)
  line : value.field? "line" = some (number (d.location.line + 1))
  column : value.field? "column" = some (number d.location.column)
  severity : value.field? "severity" = some (string (if d.isFatal then "error" else "warning"))
  message : value.field? "message" = some (string d.problem.message)

lemma tellsDeclaration (d : Declaration) : TellsDeclaration d (declarationJson d).canonical := by
  constructor <;> rw [declarationJson, field?_canonical (by simp)]
  · cases d.name? <;> simp [canonical]
  all_goals simp [List.lookup_cons, canonical]

lemma tellsDiagnostic (d : Diagnostic) : TellsDiagnostic d (diagnosticJson d).canonical := by
  constructor <;> rw [diagnosticJson, field?_canonical (by simp)] <;>
    simp [List.lookup_cons, canonical, severity]

/-- What the structured output of a compilation tells. -/
structure TellsCompilation (a : Arguments) (input : Path) (elapsed : Duration) (c : Compilation)
    (value : Json) : Prop where
  success : value.field? "success" = some (bool c.program.isSome)
  input : value.field? "input_file" = some (string (inputName input))
  defines : value.field? "defines" = some (array (a.defines.map string))
  declarations : ∃ items, value.field? "declarations" = some (array items) ∧
    List.Forall₂ TellsDeclaration (c.program.elim [] (·.declarations)) items
  diagnostics : ∃ items, value.field? "diagnostics" = some (array items) ∧
    List.Forall₂ TellsDiagnostic c.diagnostics items
  time : value.field? "processing_time_ms" = some (decimal elapsed.milliseconds.normal)

lemma tellsCompilation (a : Arguments) (input : Path) (elapsed : Duration) (c : Compilation) :
    TellsCompilation a input elapsed c (compilationJson a input elapsed c).canonical := by
  have hfield (key : String) : (compilationJson a input elapsed c).canonical.field? key = _ :=
    field?_canonical (by simp) key
  refine ⟨?_, ?_, ?_, ⟨(c.program.elim [] (·.declarations)).map fun d => (declarationJson d).canonical, ?_, ?_⟩,
    ⟨c.diagnostics.map fun d => (diagnosticJson d).canonical, ?_, ?_⟩, ?_⟩
  · simp [hfield, canonical]
  · simp [hfield, List.lookup_cons, canonical]
  · simp [hfield, List.lookup_cons, canonical]
  · simp [hfield, List.lookup_cons, canonical]
  · rw [List.forall₂_map_right_iff, List.forall₂_same]
    exact fun d _ => tellsDeclaration d
  · simp [hfield, List.lookup_cons, canonical]
  · rw [List.forall₂_map_right_iff, List.forall₂_same]
    exact fun d _ => tellsDiagnostic d
  · simp [hfield, List.lookup_cons, canonical]

end Json

/-! ### Reports -/

section Report

variable (a : Arguments) (useColor : Bool) (input : Path) (elapsed : Duration) (c : Compilation)

/-- The diagnostics that are printed. -/
def shown (a : Arguments) (c : Compilation) : List Diagnostic :=
  c.diagnostics.filter fun d => d.isFatal || a.showsWarnings

lemma filter_isFatal_shown : (shown a c).filter (·.isFatal) = c.diagnostics.filter (·.isFatal) := by
  rw [shown, List.filter_filter]
  refine List.filter_congr fun d _ => ?_
  cases d.isFatal <;> rfl

lemma report_exitCode_eq_three :
    (report a useColor input elapsed c).exitCode = 3 ↔ c.program = none := by
  unfold report
  cases c.program with
  | none => simp [Failure.exitCode]
  | some program =>
    simp only [Arguments.successCode, reduceCtorEq, iff_false]
    split <;> decide

lemma report_exitCode_eq_one : (report a useColor input elapsed c).exitCode = 1 ↔
    c.program ≠ none ∧ a.showsWarnings = true ∧ ∃ d ∈ c.diagnostics, d.isFatal = false := by
  unfold report
  cases c.program with
  | none => simp [Failure.exitCode]
  | some program => simp [Arguments.successCode]

lemma report_exitCode_mem : (report a useColor input elapsed c).exitCode ∈ [0, 1, 3] := by
  unfold report
  cases c.program with
  | none => simp [Failure.exitCode]
  | some program =>
    simp only [Arguments.successCode]
    split <;> decide

/-- The error stream gets the diagnostics that are shown, and behind them the reason of a failure or, if
that is asked for, the time of a success. -/
theorem report_stderr : (report a useColor input elapsed c).stderr =
    unlines ((shown a c).map (reportLine useColor)) ++
      if (report a useColor input elapsed c).exitCode = 3 then
        Failure.line useColor (.compilation ((shown a c).countP (·.isFatal)))
      else if a.has .verbose = true ∧ a.has .quiet = false ∧ a.has .json = false then
        timeLine useColor input elapsed ++ "\n"
      else "" := by
  rw [if_congr (report_exitCode_eq_three a useColor input elapsed c) rfl rfl, List.countP_eq_length_filter,
    filter_isFatal_shown]
  unfold report shown
  cases c.program with
  | none => rfl
  | some program =>
    have hline (s : String) : unlines [s] = s ++ "\n" := by simp [unlines, String.join]
    simp only [reduceCtorEq, if_false, Bool.and_eq_true, Bool.not_eq_true', and_assoc]
    split
    · rw [hline]
    · rfl

lemma report_stdout_json (h : a.has .json = true) : (report a useColor input elapsed c).stdout =
    (compilationJson a input elapsed c).render 0 ++ "\n" := by
  unfold report
  cases c.program <;> simp [h]

/-- The structured output is one object, which tells of the compilation. -/
theorem read?_report (h : a.has .json = true) : ∃ fields,
    Json.read? (report a useColor input elapsed c).stdout = some (.object fields) ∧
      Json.TellsCompilation a input elapsed c (.object fields) := by
  have hblanks : ("\n" : String) = String.ofList ['\n'] := rfl
  have htells := Json.tellsCompilation a input elapsed c
  rw [report_stdout_json a useColor input elapsed c h, hblanks,
    Json.read?_render _ _ (by simp [Json.isBlank])]
  rw [compilationJson, Json.canonical_object] at htells ⊢
  exact ⟨_, rfl, htells⟩

end Report

/-! ### Runs -/

variable {env : Environment} {compiler : Compiler} {input : Path} {c : Compilation} {a : Arguments}

lemma isConsistent_of_compileInput (h : compileInput env compiler input = .ok c) : c.IsConsistent := by
  unfold compileInput at h
  split at h
  · obtain rfl := Except.ok.inj h
    exact Compiler.compile_isConsistent _ _ _
  · split at h
    · obtain rfl := Except.ok.inj h
      exact Compiler.compile_isConsistent _ _ _
    · cases h

lemma exists_compileInput (compiler : Compiler) (h : isStdin input = true ∨ env.files.exists? input = true) :
    ∃ c, compileInput env compiler input = .ok c := by
  unfold compileInput
  split
  · exact ⟨_, rfl⟩
  · split
    · exact ⟨_, rfl⟩
    next hstdin hexists => exact absurd h (by simp [hstdin, hexists])

lemma run_eq_report {args : List String} (hargs : Arguments.ofList args = .ok (input, a))
    (hvalid : a.problem? = none) (hreal : a.has .dryRun = false) (hcompiler : a.compiler = .ok compiler)
    (hc : compileInput env compiler input = .ok c) :
    run env args = (report a (a.useColor env.terminal) input env.elapsed c).behindLog
      (env.log (env.filter.getD a.standardFilter) (a.useColor env.terminal)) := by
  rw [run, hargs]
  simp [execute, hvalid, hreal, hcompiler, hc]

lemma not_quiet_of_verbose (h : a.problem? = none) (hverbose : a.has .verbose = true) :
    a.has .quiet = false := by
  rw [← Bool.not_eq_true]
  intro hquiet
  unfold Arguments.problem? at h
  split at h
  · cases h
  · rw [hverbose, hquiet] at h
    cases h

/-- The outcome of a run that compiles. It fails exactly if there is no program, and the number of errors that
it gives then is that of the errors it prints, and not zero. If there is a program, the exit code tells
whether there are warnings to be shown. Behind the log the error stream gets what is shown and the reason of
the failure, or how long a verbose run has taken. The structured output is one object in either case; it tells
of all diagnostics, printed or not. -/
theorem outcome_of_compilation (env : Environment) {args : List String} {input : Path} {a : Arguments}
    (hargs : Arguments.ofList args = .ok (input, a)) (hvalid : a.problem? = none)
    (hreal : a.has .dryRun = false)
    (haccepts : ∀ d ∈ a.defines, Compiler.accepts (splitDefine d).1 (splitDefine d).2 = true)
    (hinput : isStdin input = true ∨ env.files.exists? input = true) :
    ∃ compiler c, a.compiler = .ok compiler ∧ compileInput env compiler input = .ok c ∧
      let o := run env args
      let useColor := a.useColor env.terminal
      let errors := (shown a c).countP (·.isFatal)
      o.exitCode ∈ [0, 1, 3] ∧
      (o.exitCode = 3 ↔ c.program = none) ∧
      (o.exitCode = 1 ↔ c.program ≠ none ∧ a.has .warnings = true ∧ a.has .quiet = false ∧
        ∃ d ∈ c.diagnostics, d.isFatal = false) ∧
      (o.exitCode = 3 → 1 ≤ errors) ∧
      o.stderr = env.log (env.filter.getD a.standardFilter) useColor ++
        (unlines ((shown a c).map (reportLine useColor)) ++
          if o.exitCode = 3 then
            Style.failure.paint useColor "Error:" ++ " " ++
              ("compilation failed with " ++ toString errors ++ " error(s)") ++ "\n"
          else if a.has .verbose = true ∧ a.has .json = false then
            Style.success.paint useColor "\u2713" ++ " Compiled " ++ inputName input ++ " in " ++
              env.elapsed.text ++ "\n"
          else "") ∧
      (a.has .json = true → ∃ fields, Json.read? o.stdout = some (.object fields) ∧
        fields.lookup "success" = some (.bool (o.exitCode != 3)) ∧
        Json.TellsCompilation a input env.elapsed c (.object fields)) := by
  have hcompiler := Arguments.compiler_definitionsFirst hargs haccepts
  obtain ⟨c, hc⟩ := exists_compileInput _ hinput
  refine ⟨_, c, hcompiler, hc, ?_⟩
  intro o useColor errors
  have ho : o = (report a useColor input env.elapsed c).behindLog
      (env.log (env.filter.getD a.standardFilter) useColor) :=
    run_eq_report hargs hvalid hreal hcompiler hc
  have hexit : o.exitCode = (report a useColor input env.elapsed c).exitCode := by
    rw [ho]
    rfl
  have hstdout : o.stdout = (report a useColor input env.elapsed c).stdout := by
    rw [ho]
    rfl
  have hlogged : o.stderr = env.log (env.filter.getD a.standardFilter) useColor ++
      (report a useColor input env.elapsed c).stderr := by
    rw [ho]
    rfl
  have hfails : o.exitCode = 3 ↔ c.program = none := by
    rw [hexit, report_exitCode_eq_three]
  refine ⟨?_, hfails, ?_, ?_, ?_, ?_⟩
  · rw [hexit]
    exact report_exitCode_mem a useColor input env.elapsed c
  · rw [hexit, report_exitCode_eq_one, Arguments.showsWarnings, Bool.and_eq_true, Bool.not_eq_true',
      and_assoc]
  · intro hthree
    obtain ⟨d, hd, hfatal⟩ := (isConsistent_of_compileInput hc).1 (hfails.1 hthree)
    have hshown : d ∈ shown a c := List.mem_filter.2 ⟨hd, by rw [hfatal, Bool.true_or]⟩
    exact List.countP_pos_iff.2 ⟨d, hshown, hfatal⟩
  · have hverbose : (a.has .verbose = true ∧ a.has .quiet = false ∧ a.has .json = false) ↔
        a.has .verbose = true ∧ a.has .json = false := by
      constructor
      · exact fun h => ⟨h.1, h.2.2⟩
      · exact fun h => ⟨h.1, not_quiet_of_verbose hvalid h.1, h.2⟩
    have hstderr := report_stderr a useColor input env.elapsed c
    rw [if_congr hverbose rfl rfl, ← hexit] at hstderr
    rw [hlogged, hstderr]
    rfl
  · intro hjson
    obtain ⟨fields, hread, htells⟩ := read?_report a useColor input env.elapsed c hjson
    refine ⟨fields, by rw [hstdout, hread], ?_, htells⟩
    have hsuccess : c.program.isSome = (o.exitCode != 3) := by
      rw [Bool.eq_iff_iff, bne_iff_ne, Ne, hfails, Option.isSome_iff_ne_none]
    rw [← hsuccess]
    exact htells.success

/-- A constant that is too large and an unknown directive in a verbose run, with both shown and logged. -/
theorem outcome_of_compilation_failed :
    let env : Environment :=
      { files := .empty, stdin := Text.bytes "4294967296;\n#x\n", elapsed := .ofNanoseconds 1234500
        log := fun filter _ => if filter = "slc=debug" then "DEBUG compile finished\n" else "" }
    let a : Arguments := { input := some ⟨"-"⟩, flags := [.json, .verbose, .warnings] }
    let o := run env ["-W", "-v", "--json", "-"]
    Arguments.ofList ["-W", "-v", "--json", "-"] = .ok (⟨"-"⟩, a) ∧ a.problem? = none ∧
      a.has .dryRun = false ∧
      (∀ d ∈ a.defines, Compiler.accepts (splitDefine d).1 (splitDefine d).2 = true) ∧
      isStdin ⟨"-"⟩ = true ∧
      o.exitCode = 3 ∧
      o.stderr = "DEBUG compile finished\n" ++
        ("<program>:1:0: warning: Overflow in integer constant\n" ++
        "<program>:2:1: error: Unknown preprocessor directive #x\n" ++
        "Error: compilation failed with 1 error(s)\n") ∧
      ∃ fields, Json.read? o.stdout = some (.object fields) ∧
        fields.lookup "success" = some (.bool false) ∧
        fields.lookup "processing_time_ms" = some (.decimal ⟨12345, -4⟩) := by
  intro env a o
  have hargs : Arguments.ofList ["-W", "-v", "--json", "-"] = .ok (⟨"-"⟩, a) := by decide +kernel
  have hvalid : a.problem? = none := by decide +kernel
  have haccepts : ∀ d ∈ a.defines, Compiler.accepts (splitDefine d).1 (splitDefine d).2 = true :=
    fun d hd => absurd hd List.not_mem_nil
  have hstdin : isStdin ⟨"-"⟩ = true := by decide +kernel
  obtain ⟨compiler, c, hcompiler, hc, -, hthree, -, -, hstderr, hjson⟩ :=
    outcome_of_compilation env hargs hvalid (by decide +kernel) haccepts (.inl hstdin)
  obtain rfl : ({ config := { listening := true } } : Compiler) = compiler :=
    Except.ok.inj hcompiler
  obtain rfl : Compiler.compileBytes env.files { config := { listening := true } } env.stdin = c := by
    rw [compileInput, if_pos hstdin] at hc
    exact Except.ok.inj hc
  have hcompiled := Compiler.compile_computed { config := { listening := true } } env.files
    (.ofBytes Compiler.programName env.stdin) (n := 4) rfl (by decide +kernel) (by decide +kernel)
  have hexit : o.exitCode = 3 := by
    rw [hthree, Compiler.compileBytes, hcompiled]
    decide +kernel
  have htime : env.elapsed.milliseconds.normal = ⟨12345, -4⟩ := by decide +kernel
  obtain ⟨fields, hread, hsuccess, htells⟩ := hjson rfl
  refine ⟨hargs, hvalid, by decide +kernel, haccepts, hstdin, hexit, ?_, fields, hread, ?_, ?_⟩
  · rw [hstderr, if_pos hexit, Compiler.compileBytes, hcompiled]
    decide +kernel
  · rw [hsuccess]
    exact congrArg (fun code => some (Json.bool (code != 3))) hexit
  · rw [← htime]
    exact htells.time

end CommandLine

end Shading
