import Shading.Compiler
import Shading.Proofs.Preprocessor.Run

/-!
# The file that is read

While a file is read, its own content is not looked at again: an include of it on any way is a cycle.
Files in which only the content of this one differs lead to the same tokens and the same end.
-/

namespace Shading

/-- The files after the one at this path has been given another content. -/
def FileSystem.overwrite (fs : FileSystem) (path : Path) (content : List UInt8) : FileSystem :=
  { fs with
    read := fun p =>
      if fs.canonical p = fs.canonical path then (fs.read p).map fun _ => content else fs.read p }

namespace Preprocessor

/-- The main source is this one, in this file. -/
def ReadsFile (source : Source) (file : Path) (p : Preprocessor) : Prop :=
  ∃ included f, p.frames = included ++ [f] ∧ f.source = source ∧ f.file = some file

section ReadsFile

variable {fs : FileSystem} {r p q : Preprocessor} {source : Source} {file path : Path}
  {content : List UInt8}

lemma ReadsFile.change_top {f f' : Frame} {outer : List Frame} (h : p.ReadsFile source file)
    (hp : p.frames = f :: outer) (hq : q.frames = f' :: outer) (hsource : f'.source = f.source)
    (hfile : f'.file = f.file) : q.ReadsFile source file := by
  obtain ⟨included, main, hframes, hmain⟩ := h
  rw [hp] at hframes
  cases included with
  | nil =>
    obtain ⟨rfl, rfl⟩ := List.cons.inj hframes
    exact ⟨[], f', hq, hsource.trans hmain.1, hfile.trans hmain.2⟩
  | cons u included =>
    obtain ⟨rfl, rfl⟩ := List.cons.inj hframes
    exact ⟨f' :: included, main, hq, hmain⟩

lemma readsFile_change (h : Change fs r p q) (hp : p.ReadsFile source file) :
    q.ReadsFile source file := by
  cases h with
  | regroup groups =>
    unfold setGroups mapTop
    split
    · exact hp
    next f outer hf => exact hp.change_top hf rfl rfl rfl
  | read hf hsuffix atLineStart => exact hp.change_top hf rfl rfl rfl
  | leave hf houter =>
    obtain ⟨included, main, hframes, hmain⟩ := hp
    rw [hf] at hframes
    cases included with
    | nil => exact absurd (List.cons.inj hframes).2 houter
    | cons u included => exact ⟨included, main, (List.cons.inj hframes).2, hmain⟩
  | enter source' content =>
    obtain ⟨included, main, hframes, hmain⟩ := hp
    exact ⟨_ :: included, main, congrArg (_ :: ·) hframes, hmain⟩
  | _ => exact hp

lemma readsFile_changes (h : Changes fs r p q) (hp : p.ReadsFile source file) :
    q.ReadsFile source file := by
  induction h with
  | refl => exact hp
  | tail _ hlast ih => exact readsFile_change hlast ih

lemma ReadsFile.any_file (h : p.ReadsFile source file) : p.frames.any (·.file == some file) = true := by
  obtain ⟨included, main, hframes, hmain⟩ := h
  simp [hframes, hmain.2]

lemma includedFrame_overwrite (fs : FileSystem) (path : Path) (content : List UInt8) (base : Source)
    (isLocal : Bool) (name : String) :
    includedFrame (fs.overwrite path content) base isLocal name = includedFrame fs base isLocal name ∨
      ∃ frame frame', includedFrame fs base isLocal name = .ok frame ∧
        includedFrame (fs.overwrite path content) base isLocal name = .ok frame' ∧
        frame.file = some (fs.canonical path) ∧ frame'.file = some (fs.canonical path) := by
  unfold includedFrame Source.resolveInclude
  cases isLocal with
  | false => exact .inl rfl
  | true =>
    cases base.relativePath? name with
    | none => exact .inl rfl
    | some other =>
      by_cases hsame : fs.canonical other = fs.canonical path
      · have hread : (fs.overwrite path content).read other = (fs.read other).map fun _ => content :=
          if_pos hsame
        simp only [Source.load, Source.ofFile, Source.content, hread]
        cases fs.read other with
        | error cause => exact .inl rfl
        | ok old =>
          refine .inr ⟨_, _, rfl, rfl, ?_, ?_⟩
          · exact congrArg some hsame
          · exact congrArg some hsame
      · have hread : (fs.overwrite path content).read other = fs.read other := if_neg hsame
        left
        simp only [Source.load, Source.ofFile, Source.content, hread]
        cases fs.read other <;> rfl

lemma enter_overwrite (h : p.ReadsFile source (fs.canonical path)) (location : Location) (isLocal : Bool)
    (name : String) :
    p.enter (fs.overwrite path content) location isLocal name = p.enter fs location isLocal name := by
  unfold enter
  cases hframes : p.frames with
  | nil => rfl
  | cons f outer =>
    have hany := h.any_file
    rw [hframes] at hany
    dsimp only
    rcases includedFrame_overwrite fs path content f.source isLocal name with
      hsame | ⟨frame, frame', hframe, hframe', hfile, hfile'⟩
    · rw [hsame]
    · rw [hframe, hframe']
      dsimp only
      rw [hfile, hfile']
      simp only [hany, if_true]

lemma obeyLine_overwrite (h : p.ReadsFile source (fs.canonical path)) (hash : Location)
    (line : List LocatedToken) :
    p.obeyLine (fs.overwrite path content) hash line = p.obeyLine fs hash line := by
  have hobey (d : Directive) : p.obey (fs.overwrite path content) d = p.obey fs d := by
    unfold obey
    simp only [enter_overwrite h]
  unfold obeyLine
  simp only [hobey]

lemma step_overwrite (h : p.ReadsFile source (fs.canonical path)) :
    p.step (fs.overwrite path content) = p.step fs := by
  unfold step
  split
  · rfl
  · split
    · rfl
    next f outer hframes =>
      split
      · rfl
      next x rest hlexemes =>
        have hline (lexemes line : List Lexeme) :
            (({ p.noteFaults [x] with frames := { f with lexemes, atLineStart := true } :: outer }
              : Preprocessor).noteFaults line).ReadsFile source (fs.canonical path) :=
          h.change_top hframes (show _ = { f with lexemes, atLineStart := true } :: outer from rfl) rfl rfl
        unfold stepLexeme
        dsimp only
        rw [obeyLine_overwrite (hline _ _)]

lemma readsFile_step (fs : FileSystem) (h : p.ReadsFile source file) :
    (p.step fs).next.ReadsFile source file :=
  readsFile_changes (changes_step fs p) h

lemma Run.readsFile {ts : List LocatedToken} (h : Run fs p ts q) (hp : p.ReadsFile source file) :
    q.ReadsFile source file := by
  induction h with
  | done => exact hp
  | @deliver p q r t ts hstep _ ih =>
    have hq := readsFile_step fs hp
    rw [hstep] at hq
    exact ih hq
  | @proceed p q r ts hstep _ ih =>
    have hq := readsFile_step fs hp
    rw [hstep] at hq
    exact ih hq

lemma produce_overwrite (h : p.ReadsFile source (fs.canonical path)) :
    p.produce (fs.overwrite path content) = p.produce fs := by
  fun_induction produce fs p with
  | case1 p t q hstep =>
    rw [produce, step_overwrite h, hstep]
  | case2 p q hstep ih =>
    have hq := readsFile_step fs h
    rw [hstep] at hq
    rw [produce, step_overwrite h, hstep]
    exact ih hq

lemma next_overwrite (h : p.ReadsFile source (fs.canonical path)) :
    p.next (fs.overwrite path content) = p.next fs := by
  unfold next
  rw [produce_overwrite h]

lemma readsFile_next (h : p.ReadsFile source file) : (p.next fs).2.ReadsFile source file := by
  unfold next
  split
  · exact h
  · exact produce_induction (fun p hp => readsFile_step fs hp) h

/-- What is in the file itself does not matter any more. -/
theorem drain_overwrite (h : p.ReadsFile source (fs.canonical path)) :
    p.drain (fs.overwrite path content) = p.drain fs := by
  fun_induction drain fs p with
  | case1 p taken hend => exact drain_of_eof (next_overwrite h) hend
  | case2 p taken hend following ih =>
    have hnext : p.next (fs.overwrite path content) = (taken.1, taken.2) := next_overwrite h
    rw [drain_of_ne_eof hnext hend, ih (readsFile_next h)]

end ReadsFile

/-- The state in which the file at this path is read, if this is its content. -/
def ofFile (fs : FileSystem) (c : Compiler) (path : Path) (content : List UInt8) : Preprocessor where
  limits := c.config.limits
  mainName := (Source.ofFile path).name
  defines := c.defines
  frames := [Frame.ofContent fs { Source.ofFile path with loaded := some content } content]

variable {fs : FileSystem} {path : Path} {content : List UInt8}

lemma preprocessor_ofFile (c : Compiler) (h : fs.read path = .ok content) :
    c.preprocessor fs (.ofFile path) = ofFile fs c path content := by
  simp only [Compiler.preprocessor, Preprocessor.start, Source.load, Source.ofFile, Source.content, h]
  rfl

/-- The file is read after it has been given another content. -/
theorem drain_ofFile (c : Compiler) (h : ∃ old, fs.read path = .ok old) :
    (c.preprocessor (fs.overwrite path content) (.ofFile path)).drain (fs.overwrite path content) =
      (ofFile fs c path content).drain fs := by
  obtain ⟨old, hold⟩ := h
  have hread : (fs.overwrite path content).read path = .ok content := by
    simp [FileSystem.overwrite, hold, Except.map]
  rw [preprocessor_ofFile c hread]
  exact drain_overwrite ⟨[], _, rfl, rfl, rfl⟩

end Preprocessor

end Shading
