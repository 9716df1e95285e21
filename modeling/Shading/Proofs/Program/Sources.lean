import Shading.Proofs.Program.Provenance

/-!
# The same content from other sources

What a compilation is given is the lexemes of its source. The source itself decides only the name in
diagnostics and, if it includes files, where these are looked for.
-/

namespace Shading

open Preprocessor

namespace Preprocessor

lemma steps_of_fixed {fs : FileSystem} {p : Preprocessor} {k : Nat}
    (h : p.steps fs (k + 1) = p.steps fs k) {n : Nat} (hn : k ≤ n) : p.steps fs n = p.steps fs k := by
  induction n, hn using Nat.le_induction with
  | base => rfl
  | succ n hn ih => rw [steps_succ, ih, ← steps_succ, h]

/-- The disguise in which everything is read from one source. -/
def Disguise.ofSource (source : Source) (file : Option Path) : Disguise where
  name _ := source.name
  source _ := source
  file _ := file
  source_name _ := rfl

end Preprocessor

namespace Program

namespace Progress

variable {fs : FileSystem}

def disguise (D : Disguise) (g : Progress) : Progress :=
  { g with preprocessor := D.state g.preprocessor }

lemma next_disguise {D : Disguise} {g : Progress} (h : D.Withstands g.preprocessor) :
    (g.disguise D).next fs = (g.next fs).disguise D := by
  have hstep := D.step_state g.preprocessor fs h
  unfold next disguise
  dsimp only
  rw [hstep]
  cases g.preprocessor.step fs with
  | proceed q => rfl
  | deliver t q =>
    simp only [Step.map]
    cases (g.splitter.feed t).2 with
    | none => rfl
    | declared d => rfl
    | failed u cause => simp [record, error, D.report_state]

lemma meetsEnd_disguise {D : Disguise} {g : Progress} (h : D.Withstands g.preprocessor) :
    (g.disguise D).meetsEnd fs = g.meetsEnd fs := by
  have hstep := D.step_state g.preprocessor fs h
  unfold meetsEnd disguise
  rw [hstep]
  cases g.preprocessor.step fs <;> rfl

lemma exists_log_advance (fs : FileSystem) (g : Progress) (n : Nat) :
    ∃ log, (g.advance fs n).preprocessor = { g.preprocessor.steps fs n with log } := by
  induction n with
  | zero => exact ⟨g.preprocessor.log, rfl⟩
  | succ n ih =>
    obtain ⟨log, hlog⟩ := ih
    obtain ⟨log', hnext⟩ := next_preprocessor fs (g.advance fs n)
    obtain ⟨log'', hstep⟩ := exists_log_next fs (g.preprocessor.steps fs n) log
    refine ⟨log', ?_⟩
    rw [advance_succ, hnext, hlog, hstep, steps_succ]

lemma withstands_advance {D : Disguise} {g : Progress}
    (h : ∀ n, D.Withstands (g.preprocessor.steps fs n)) (n : Nat) :
    D.Withstands (g.advance fs n).preprocessor := by
  obtain ⟨log, hlog⟩ := exists_log_advance fs g n
  rw [hlog]
  exact h n

lemma advance_disguise {D : Disguise} {g : Progress}
    (h : ∀ n, D.Withstands (g.preprocessor.steps fs n)) (n : Nat) :
    (g.disguise D).advance fs n = (g.advance fs n).disguise D := by
  induction n with
  | zero => rfl
  | succ n ih => rw [advance_succ, advance_succ, ih, next_disguise (withstands_advance h n)]

end Progress

end Program

namespace Compiler

open Program

variable {fs : FileSystem} {source other : Source} {content content' : List UInt8}

/-- The disguise of a compilation as one of this source. -/
def disguise (fs : FileSystem) (source : Source) : Disguise :=
  .ofSource (source.load fs).2 (source.path?.map fs.canonical)

lemma preprocessor_of_load (c : Compiler) (h : (source.load fs).1 = .ok content) :
    c.preprocessor fs source =
      { limits := c.config.limits
        mainName := source.name
        defines := c.defines
        frames := [Frame.ofContent fs (source.load fs).2 content] } := by
  unfold preprocessor start
  cases hload : source.load fs with
  | mk read loaded =>
    rw [hload] at h
    obtain rfl : read = .ok content := h
    rfl

lemma preprocessor_disguise (c : Compiler) (h : (source.load fs).1 = .ok content)
    (h' : (other.load fs).1 = .ok content')
    (hlexemes : Lexemes.ofBytes content' = Lexemes.ofBytes content) :
    c.preprocessor fs other = (disguise fs other).state (c.preprocessor fs source) := by
  obtain ⟨hname, hbacking⟩ := other.load_backing fs
  have hpath : (other.load fs).2.path? = other.path? := by rw [Source.path?, hbacking, Source.path?]
  rw [preprocessor_of_load c h, preprocessor_of_load c h', Disguise.state]
  simp [Frame.ofContent, Disguise.frame, disguise, Disguise.ofSource, hlexemes, hname, hpath]

lemma diagnostics_disguise (fs : FileSystem) (source : Source) (p : Preprocessor) :
    ((disguise fs source).state p).diagnostics =
      p.diagnostics.map fun d => { d with source := source.name } := by
  have hname := (source.load_backing fs).1
  simp only [Disguise.state, diagnostics, disguise, Disguise.ofSource, Array.toList_append,
    Array.toList_map, hname]
  rfl

lemma hasFatalError_disguise (fs : FileSystem) (source : Source) (p : Preprocessor) :
    ((disguise fs source).state p).hasFatalError = p.hasFatalError := by
  rw [hasFatalError, diagnostics_disguise, List.any_map]
  rfl

/-- Two sources with the same lexemes have the same program, and the diagnostics are the same but for the
name, if no local include is met or both are in no file. -/
theorem compile_disguise (c : Compiler) (h : (source.load fs).1 = .ok content)
    (h' : (other.load fs).1 = .ok content')
    (hlexemes : Lexemes.ofBytes content' = Lexemes.ofBytes content)
    (hwithstands : ∀ n, (disguise fs other).Withstands ((c.preprocessor fs source).steps fs n)) :
    c.compile fs other =
      { program := (c.compile fs source).program
        diagnostics := (c.compile fs source).diagnostics.map fun d => { d with source := other.name } } := by
  have hreading : c.reading fs other = (c.reading fs source).disguise (disguise fs other) := by
    rw [reading, preprocessor_disguise c h h' hlexemes]
    rfl
  have hadvance (n : Nat) : (c.reading fs other).advance fs n =
      ((c.reading fs source).advance fs n).disguise (disguise fs other) := by
    rw [hreading]
    exact Progress.advance_disguise hwithstands n
  have hmeets (n : Nat) : ((c.reading fs other).advance fs n).meetsEnd fs =
      ((c.reading fs source).advance fs n).meetsEnd fs := by
    rw [hadvance]
    exact Progress.meetsEnd_disguise (Progress.withstands_advance hwithstands n)
  have hends := Progress.exists_meetsEnd fs (c.reading fs source)
  have hbefore : ∀ m < Nat.find hends, ((c.reading fs source).advance fs m).meetsEnd fs = false :=
    fun m hm => Bool.eq_false_of_not_eq_true (Nat.find_min hends hm)
  have hread := Progress.readFrom_advance (preprocessor_start c fs source).1 hbefore (Nat.find_spec hends)
  have hread' := Progress.readFrom_advance (g := c.reading fs other) (preprocessor_start c fs other).1
    (fun m hm => (hmeets m).trans (hbefore m hm)) ((hmeets _).trans (Nat.find_spec hends))
  rw [hadvance] at hread'
  have hresult : Program.read fs {} (c.preprocessor fs source) =
      (((c.reading fs source).advance fs (Nat.find hends + 1)).program,
        ((c.reading fs source).advance fs (Nat.find hends + 1)).preprocessor) := hread
  have hresult' : Program.read fs {} (c.preprocessor fs other) =
      (((c.reading fs source).advance fs (Nat.find hends + 1)).program,
        (disguise fs other).state
          ((c.reading fs source).advance fs (Nat.find hends + 1)).preprocessor) := hread'
  unfold compile
  rw [hresult, hresult']
  dsimp only
  rw [hasFatalError_disguise, diagnostics_disguise]

/-- Two sources with the same content have the same program and, but for the name, the same diagnostics, if
one of them asks for no file from beside it. -/
theorem compile_alike (c : Compiler) (h : (source.load fs).1 = .ok content)
    (h' : (other.load fs).1 = .ok content)
    (hlocal : ∀ n, ((c.preprocessor fs source).steps fs n).localInclude? = none) :
    (c.compile fs other).program = (c.compile fs source).program ∧
      (c.compile fs other).diagnostics =
        (c.compile fs source).diagnostics.map (fun d => { d with source := other.name }) ∧
      (c.compile fs source).diagnostics =
        (c.compile fs other).diagnostics.map (fun d => { d with source := source.name }) := by
  have hwithstands (D : Disguise) (n : Nat) : D.Withstands ((c.preprocessor fs source).steps fs n) :=
    fun hinclude => absurd (hlocal n) hinclude
  have hother := compile_disguise c h h' rfl (hwithstands _)
  have hself := compile_disguise c h h rfl (hwithstands _)
  rw [hother]
  refine ⟨rfl, rfl, ?_⟩
  rw [List.map_map]
  exact congrArg Compilation.diagnostics hself

/-- A readable file and its content in memory are compiled to the same program, and the diagnostics differ
only in the name of the source, unless an include that is obeyed asks for a file from beside it. -/
theorem compileFile_eq_compileBytes {path : Path} (c : Compiler) (hread : fs.read path = .ok content)
    (hlocal : (∀ n, ((c.preprocessor fs (.ofFile path)).steps fs n).localInclude? = none) ∨
      ∀ n, ((c.preprocessor fs (.ofBytes programName content)).steps fs n).localInclude? = none) :
    (c.compileFile fs path).program = (c.compileBytes fs content).program ∧
      (c.compileFile fs path).diagnostics = (c.compileBytes fs content).diagnostics.map
        (fun d => { d with source := (Source.ofFile path).name }) ∧
      (c.compileBytes fs content).diagnostics = (c.compileFile fs path).diagnostics.map
        (fun d => { d with source := programName }) := by
  have hfile : ((Source.ofFile path).load fs).1 = .ok content := by
    simp [Source.load, Source.ofFile, Source.content, hread]
  have hbytes : ((Source.ofBytes programName content).load fs).1 = .ok content := rfl
  rcases hlocal with hlocal | hlocal
  · obtain ⟨hprogram, hdiagnostics, hdiagnostics'⟩ := compile_alike c hfile hbytes hlocal
    exact ⟨hprogram.symm, hdiagnostics', hdiagnostics⟩
  · exact compile_alike c hbytes hfile hlocal

/-- A file with an include that is left out and one that is looked for elsewhere. -/
theorem compileFile_eq_compileBytes_main :
    let content := Text.bytes "#ifdef N\n#include \"y\"\n#endif\n#include <x>\nint a;\nf() \x7b"
    let fs : FileSystem := { FileSystem.empty with read := fun _ => .ok content }
    let c : Compiler := {}
    (∀ n, ((c.preprocessor fs (.ofBytes programName content)).steps fs n).localInclude? = none) ∧
      (c.compileFile fs ⟨"dir/main"⟩).program = (c.compileBytes fs content).program ∧
      (c.compileFile fs ⟨"dir/main"⟩).diagnostics = (c.compileBytes fs content).diagnostics.map
        (fun d => { d with source := "main" }) := by
  intro content fs c
  have hlocal : ∀ n, ((c.preprocessor fs (.ofBytes programName content)).steps fs n).localInclude? =
      none := by
    have hend : (c.preprocessor fs (.ofBytes programName content)).steps fs 21 =
        (c.preprocessor fs (.ofBytes programName content)).steps fs 20 := by decide +kernel
    have hbefore : ∀ n < 20,
        ((c.preprocessor fs (.ofBytes programName content)).steps fs n).localInclude? = none := by
      decide +kernel
    intro n
    by_cases hn : n < 20
    · exact hbefore n hn
    · rw [steps_of_fixed hend (Nat.le_of_not_lt hn)]
      decide +kernel
  have hread : fs.read ⟨"dir/main"⟩ = .ok content := rfl
  obtain ⟨hprogram, hdiagnostics, -⟩ := compileFile_eq_compileBytes c hread (.inr hlocal)
  exact ⟨hlocal, hprogram, hdiagnostics⟩

end Compiler

end Shading
