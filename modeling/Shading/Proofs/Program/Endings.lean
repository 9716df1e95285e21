import Shading.Proofs.Lexeme.Unified
import Shading.Proofs.Program.Sources

/-!
# Line endings

With other line breaks a source in memory has the same lexemes in the same places, so preprocessing and
compilation are the same as well.
-/

namespace Shading

open Preprocessor

namespace Preprocessor.Disguise

variable {fs : FileSystem} {s s' : Source} {file file' : Option Path} {p : Preprocessor}

/-- Where everything is read from a source that is no file, such another one is not told apart. -/
lemma withstands_of_fixed (hs : s.path? = none) (hs' : s'.path? = none)
    (hp : (ofSource s file).state p = p) : (ofSource s' file').Withstands p := by
  intro _ f hf
  have hframes : p.frames.map (ofSource s file).frame = p.frames := congrArg Preprocessor.frames hp
  have hmem : f ∈ p.frames := List.mem_of_mem_head? hf
  rw [← hframes] at hmem
  obtain ⟨g, -, rfl⟩ := List.mem_map.1 hmem
  exact .inr ⟨hs, hs'⟩

lemma fixed_next (hs : s.path? = none) (hp : (ofSource s file).state p = p) :
    (ofSource s file).state (p.step fs).next = (p.step fs).next := by
  have hstep := (ofSource s file).step_state p fs (withstands_of_fixed hs hs hp)
  rw [hp] at hstep
  exact (Step.next_map _ _).symm.trans (congrArg Step.next hstep.symm)

lemma fixed_steps (hs : s.path? = none) (hp : (ofSource s file).state p = p) (n : Nat) :
    (ofSource s file).state (p.steps fs n) = p.steps fs n :=
  steps_induction fs p (I := fun q => (ofSource s file).state q = q) (fun _ => fixed_next hs) hp n

end Preprocessor.Disguise

namespace Compiler

open Text

lemma path?_load {source : Source} (fs : FileSystem) (h : source.path? = none) :
    (source.load fs).2.path? = none := by
  rw [Source.path?, (source.load_backing fs).2]
  exact h

section Alike

variable (fs : FileSystem) {source other : Source} {content content' : List UInt8} (c : Compiler)
  (h : (source.load fs).1 = .ok content) (h' : (other.load fs).1 = .ok content')
  (hlexemes : Lexemes.ofBytes content' = Lexemes.ofBytes content) (hname : source.name = other.name)
  (hsource : source.path? = none) (hother : other.path? = none)
include h h' hlexemes hname hsource hother

/-- Sources of one name that are no files are read to the same tokens, with the same macros and
diagnostics, if they have the same lexemes. -/
theorem drain_alike :
    ((c.preprocessor fs other).drain fs).1 = ((c.preprocessor fs source).drain fs).1 ∧
      ((c.preprocessor fs other).drain fs).2.defines = ((c.preprocessor fs source).drain fs).2.defines ∧
      ((c.preprocessor fs other).drain fs).2.diagnostics =
        ((c.preprocessor fs source).drain fs).2.diagnostics := by
  have hfixed : (disguise fs source).state (c.preprocessor fs source) = c.preprocessor fs source :=
    (preprocessor_disguise c h h rfl).symm
  have hdrain (s : Source) (hs : s.path? = none) :
      ((disguise fs s).state (c.preprocessor fs source)).drain fs =
        (((c.preprocessor fs source).drain fs).1,
          (disguise fs s).state ((c.preprocessor fs source).drain fs).2) := by
    refine Disguise.drain_state (I := fun p => (disguise fs source).state p = p) (fun p hp => ⟨?_, ?_⟩)
      (fun p lookahead hp => ?_) hfixed
    · exact Disguise.step_state _ p fs
        (Disguise.withstands_of_fixed (path?_load fs hsource) (path?_load fs hs) hp)
    · exact Disguise.fixed_next (path?_load fs hsource) hp
    · exact congrArg (fun q : Preprocessor => { q with lookahead }) hp
  have hself := hdrain source hsource
  rw [hfixed] at hself
  rw [preprocessor_disguise c h h' hlexemes, hdrain other hother]
  refine ⟨rfl, rfl, ?_⟩
  rw [diagnostics_disguise, ← hname, ← diagnostics_disguise fs]
  exact congrArg (·.2.diagnostics) hself.symm

lemma compile_alike_of_lexemes : c.compile fs other = c.compile fs source := by
  have hfixed : (disguise fs source).state (c.preprocessor fs source) = c.preprocessor fs source :=
    (preprocessor_disguise c h h rfl).symm
  have hwithstands (s : Source) (hs : s.path? = none) (n : Nat) :
      (disguise fs s).Withstands ((c.preprocessor fs source).steps fs n) :=
    Disguise.withstands_of_fixed (path?_load fs hsource) (path?_load fs hs)
      (Disguise.fixed_steps (path?_load fs hsource) hfixed n)
  rw [compile_disguise c h h' hlexemes (hwithstands other hother), ← hname]
  exact (compile_disguise c h h rfl (hwithstands source hsource)).symm

end Alike

/-- Line breaks of another kind in a source in memory change none of its lexemes and no place, and so
neither the tokens that preprocessing delivers, the macros and the diagnostics behind it, nor the
program. -/
theorem compile_withEnding {ending s : String} (hending : ending = "\r\n" ∨ ending = "\r")
    (hs : '\r' ∉ s.toList) :
    Lexemes.ofBytes (bytes (withEnding ending s)) = Lexemes.ofBytes (bytes s) ∧
    ∀ (fs : FileSystem) (c : Compiler) (name : String),
      let source := Source.ofBytes name (bytes s)
      let other := Source.ofBytes name (bytes (withEnding ending s))
      let drained := (c.preprocessor fs source).drain fs
      let drained' := (c.preprocessor fs other).drain fs
      drained'.1 = drained.1 ∧ drained'.2.defines = drained.2.defines ∧
        drained'.2.diagnostics = drained.2.diagnostics ∧ c.compile fs other = c.compile fs source := by
  have hmember : ending ∈ ["\n", "\r", "\r\n"] := by
    rcases hending with rfl | rfl <;> simp
  have hlexemes := Lexemes.ofBytes_withEnding hmember hs
  refine ⟨hlexemes, fun fs c name => ?_⟩
  have hload (content : List UInt8) : ((Source.ofBytes name content).load fs).1 = .ok content := rfl
  obtain ⟨htokens, hdefines, hdiagnostics⟩ :=
    drain_alike fs c (hload (bytes s)) (hload _) hlexemes rfl rfl rfl
  exact ⟨htokens, hdefines, hdiagnostics,
    compile_alike_of_lexemes fs c (hload (bytes s)) (hload _) hlexemes rfl rfl rfl⟩

/-- A text with line breaks in a comment, behind a backslash and in a string. -/
theorem compile_withEnding_comment :
    let s := "#define A /*\n*/ 1 \\\n+ 2\nint a[A];\n\"b\n"
    withEnding "\r\n" s = "#define A /*\r\n*/ 1 \\\r\n+ 2\r\nint a[A];\r\n\"b\r\n" ∧
      '\r' ∉ s.toList ∧
      Lexemes.ofBytes (bytes (withEnding "\r\n" s)) = Lexemes.ofBytes (bytes s) ∧
      ({} : Compiler).compile .empty (.ofBytes "a" (bytes (withEnding "\r\n" s))) =
        ({} : Compiler).compile .empty (.ofBytes "a" (bytes s)) := by
  intro s
  have hs : '\r' ∉ s.toList := by decide +kernel
  obtain ⟨hlexemes, hcompile⟩ := compile_withEnding (.inl rfl) hs
  exact ⟨by decide +kernel, hs, hlexemes, (hcompile .empty {} "a").2.2.2⟩

end Compiler

end Shading
