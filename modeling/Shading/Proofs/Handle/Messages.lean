import Shading.Handle
import Shading.Proofs.Compiler.History
import Shading.Proofs.Preprocessor.NulFree
import Shading.Proofs.Program.Provenance

/-!
# Messages for foreign listeners

A message that holds a NUL is not passed on. Names and texts that a foreign program passes end at their first
NUL, so only a source can bring one in. Without one every diagnostic is heard, and no compilation fails in
silence.
-/

namespace Shading

open Text

namespace Splitter

variable {t u : LocatedToken} {cause : SyntaxError}

lemma nulFree_close {location place : Location} {tokens : List Token} {brackets : List OpenBracket}
    {p : Punct} (h : (close location tokens brackets place p).2 = .failed u cause) :
    NulFree cause.message := by
  have hunexpected : NulFree (SyntaxError.unexpected p).message :=
    nulFree_append.2 ⟨by decide, nulFree_quoted.2 p.nulFree_spelling⟩
  unfold close at h
  dsimp only at h
  split at h
  · obtain ⟨-, rfl⟩ := Outcome.failed.inj h
    exact hunexpected
  split at h
  · obtain ⟨-, rfl⟩ := Outcome.failed.inj h
    exact hunexpected
  split at h <;> cases h

lemma nulFree_extend {location : Location} {tokens : List Token} {brackets : List OpenBracket}
    (h : (extend location tokens brackets t).2 = .failed u cause) : NulFree cause.message := by
  unfold extend at h
  split at h
  · cases brackets with
    | nil =>
      obtain ⟨-, rfl⟩ := Outcome.failed.inj h
      decide
    | cons innermost outer =>
      obtain ⟨-, rfl⟩ := Outcome.failed.inj h
      exact nulFree_append.2 ⟨by decide, nulFree_quoted.2 innermost.bracket.nulFree_spelling⟩
  · split at h
    · exact nulFree_close h
    split at h <;> cases h
  · cases h

lemma nulFree_feed {s : Splitter} (h : (s.feed t).2 = .failed u cause) : NulFree cause.message := by
  cases s with
  | between =>
    simp only [feed] at h
    split at h
    · cases h
    · exact nulFree_extend h
  | within location tokens brackets => exact nulFree_extend h
  | skipping depth => cases h

end Splitter

namespace Program

open Preprocessor

variable {p : Preprocessor}

lemma isNulFree_record (h : p.IsNulFree) (program : Program) (s : Splitter) (t : LocatedToken) :
    (program.record p (s.feed t).2).2.IsNulFree := by
  cases hfed : (s.feed t).2 with
  | none => exact h
  | declared d => exact h
  | failed u cause => exact h.report u (Splitter.nulFree_feed hfed)

lemma isNulFree_readFrom (h : p.IsNulFree) (fs : FileSystem) (s : Splitter) (program : Program) :
    (readFrom fs s program p).2.IsNulFree := by
  fun_induction readFrom fs s program p with
  | case1 s program p taken fed recorded hend => exact isNulFree_record (h.next fs) program s _
  | case2 s program p taken fed recorded hend ih => exact ih (isNulFree_record (h.next fs) program s _)

end Program

namespace Compiler

variable {c c' : Compiler}

/-- Macros and bytes without NUL lead to diagnostics without one. -/
theorem isNulFree_compileBytes (h : c.defines.IsNulFree) (fs : FileSystem) {content : List UInt8}
    (hcontent : 0 ∉ content) : ∀ d ∈ (c.compileBytes fs content).diagnostics, d.IsNulFree := by
  have hstart : (c.preprocessor fs (.ofBytes programName content)).IsNulFree :=
    Preprocessor.isNulFree_start fs c.config.limits h (by decide) hcontent
  intro d hd
  exact (Program.isNulFree_readFrom hstart fs .between {}).log d (Array.mem_toList_iff.1 hd)

lemma isNulFree_addDefine (h : c.defines.IsNulFree) {name : String} (hname : NulFree name)
    {body : Option String} (hbody : ∀ s ∈ body, NulFree s) (hadded : c.addDefine name body = .ok c') :
    c'.defines.IsNulFree ∧ c'.config = c.config := by
  have htext : NulFree (body.getD defaultBody) := by
    cases body with
    | none => decide
    | some s => exact hbody s rfl
  have hdefined : (defined name body).IsNulFree := by
    refine ⟨hname, ?_⟩
    intro t ht
    obtain ⟨x, hx, rfl⟩ := List.mem_map.1 ht
    exact (Lexemes.isNulFree_ofCursor (nulFree_iff_bytes.1 htext) x (List.mem_of_mem_filter hx)).1
  have haccepts := (c.addDefine_ok_iff name body).1 ⟨c', hadded⟩
  rw [c.addDefine_of_accepts haccepts] at hadded
  obtain rfl := Except.ok.inj hadded
  exact ⟨h.insert hdefined name, rfl⟩

/-- A compilation fails exactly if one of its diagnostics is fatal. -/
theorem program_eq_none {fs : FileSystem} {content : List UInt8} :
    (c.compileBytes fs content).program = none ↔
      ∃ d ∈ (c.compileBytes fs content).diagnostics, d.isFatal = true := by
  simp [compileBytes, compile, Preprocessor.hasFatalError]

end Compiler

namespace Handle

/-- A call that changes the macros behind a handle. -/
inductive Call
  | define (name body : Option (List UInt8))
  | undefine (name : Option (List UInt8))
  deriving DecidableEq, Repr

/-- The handle after a call. -/
def call (h : Handle) : Call → Handle
  | .define name body => (h.addDefine name body).1
  | .undefine name => h.removeDefine name

def afterCalls (h : Handle) (calls : List Call) : Handle :=
  calls.foldl call h

/-- There is a compiler, somebody listens to it, and its macros hold no NUL. -/
def IsHeard (h : Handle) : Prop :=
  ∃ c, h = some c ∧ c.config.listening = true ∧ c.defines.IsNulFree

variable {h : Handle}

lemma nulFree_text? {bs : List UInt8} {s : String} (h : text? bs = some s) : NulFree s := by
  rw [nulFree_iff_bytes, bytes_of_decode? h]
  intro hzero
  simpa using List.mem_takeWhile_imp hzero

lemma isHeard_addDefine {c c' : Compiler} (h : IsHeard (some c)) {name : String} (hname : NulFree name)
    {body : Option String} (hbody : ∀ s ∈ body, NulFree s) (hadded : c.addDefine name body = .ok c') :
    IsHeard (some c') := by
  obtain ⟨_, hc, hlistening, hdefines⟩ := h
  obtain rfl := Option.some.inj hc
  obtain ⟨hdefines', hconfig⟩ := Compiler.isNulFree_addDefine hdefines hname hbody hadded
  exact ⟨c', rfl, hconfig ▸ hlistening, hdefines'⟩

lemma isHeard_call (hh : h.IsHeard) (call : Call) : (h.call call).IsHeard := by
  cases call with
  | undefine name =>
    unfold Handle.call removeDefine
    dsimp only
    split
    · exact hh
    · obtain ⟨c, rfl, hlistening, hdefines⟩ := hh
      exact ⟨_, rfl, hlistening, hdefines.erase _⟩
  | define name body =>
    have hnulFree {s : String} (h : name.bind text? = some s) : NulFree s := by
      obtain ⟨bs, -, hs⟩ := Option.bind_eq_some_iff.1 h
      exact nulFree_text? hs
    unfold Handle.call addDefine
    dsimp only
    split
    next name' hname =>
      split
      next hadded => exact isHeard_addDefine hh (hnulFree hname) (by simp) hadded
      · exact hh
    next name' bs hname =>
      split
      · exact hh
      next body hbody =>
        split
        next hadded =>
          exact isHeard_addDefine hh (hnulFree hname) (by simpa using nulFree_text? hbody) hadded
        · exact hh
    · exact hh

lemma isHeard_afterCalls (hh : h.IsHeard) (calls : List Call) : (h.afterCalls calls).IsHeard := by
  induction calls generalizing h with
  | nil => exact hh
  | cons call calls ih => exact ih (isHeard_call hh call)

lemma isHeard_create {s : Settings} (hcreated : (create (some s)).isSome = true)
    (hlistening : s.listening = true) : (create (some s)).IsHeard := by
  unfold create Settings.config? at *
  dsimp only at *
  split at hcreated
  · cases hcreated
  next hrange =>
    rw [if_neg hrange]
    refine ⟨_, rfl, hlistening, ?_⟩
    intro name m hm
    cases hm

/-- The message of a diagnostic that can be passed. -/
def Message.of (d : Diagnostic) : Message :=
  { text := d.source ++ ": " ++ d.text, isFatal := d.isFatal }

lemma Message.of?_eq {d : Diagnostic} (h : NulFree (of d).text) : of? d = some (of d) := by
  have hnone : (d.source ++ ": " ++ d.text).toList.contains '\x00' = false := by
    simpa [NulFree, of] using h
  simp only [of?, hnone, Bool.false_eq_true, if_false, of]

lemma Message.nulFree_of {d : Diagnostic} (h : d.IsNulFree) : NulFree (of d).text := by
  have hcolon : NulFree ": " := by decide
  exact nulFree_append.2 ⟨nulFree_append.2 ⟨h.1, hcolon⟩, nulFree_describe.2 h.2⟩

section Compilations

variable {fs : FileSystem} {c : Compiler} {buffer : Buffer} {content : List UInt8}

lemma compile_failed (h : buffer.content? = some content) (hfailed : (compile fs (some c) buffer).1 = -1) :
    ∃ d ∈ (c.compileBytes fs content).diagnostics, d.isFatal = true := by
  rw [← Compiler.program_eq_none]
  simp only [compile, h] at hfailed
  split at hfailed
  · omega
  next hnone => exact hnone

lemma messages_eq_filterMap (h : buffer.content? = some content) (hlistening : c.config.listening = true) :
    (compile fs (some c) buffer).2 = (c.compileBytes fs content).diagnostics.filterMap Message.of? := by
  simp only [compile, h, Compiler.heard, if_pos hlistening]

variable {s : Settings}

/-- Of bytes without NUL every diagnostic is heard of, in order. -/
theorem messages_of_nulFree (hcreated : (create (some s)).isSome = true) (hlistening : s.listening = true)
    (calls : List Call) (fs : FileSystem) (hbuffer : buffer.content? = some content)
    (hcontent : 0 ∉ content) : ∃ c, (create (some s)).afterCalls calls = some c ∧
      (compile fs (some c) buffer).2 = (c.compileBytes fs content).diagnostics.map Message.of := by
  obtain ⟨c, hc, hlistening, hdefines⟩ := isHeard_afterCalls (isHeard_create hcreated hlistening) calls
  refine ⟨c, hc, ?_⟩
  rw [messages_eq_filterMap hbuffer hlistening, List.filterMap_eq_map_iff_forall_eq_some]
  intro d hd
  exact Message.of?_eq (Message.nulFree_of (Compiler.isNulFree_compileBytes hdefines fs hcontent d hd))

/-- A failure is heard of, unless the source holds a NUL and all fatal diagnostics show one. -/
theorem failure_heard (hcreated : (create (some s)).isSome = true) (hlistening : s.listening = true)
    (calls : List Call) (fs : FileSystem) (hbuffer : buffer.content? = some content) :
    let h := (create (some s)).afterCalls calls
    (compile fs h buffer).1 = -1 →
      (∃ m ∈ (compile fs h buffer).2, m.isFatal = true) ∨
      (0 ∈ content ∧ ∀ c ∈ h, ∀ d ∈ (c.compileBytes fs content).diagnostics, d.isFatal = true →
        '\x00' ∈ (d.source ++ ": " ++ d.text).toList) := by
  intro h hfailed
  obtain ⟨c, hc, hlistening', hdefines⟩ := isHeard_afterCalls (isHeard_create hcreated hlistening) calls
  simp only [h, hc] at hfailed ⊢
  by_cases hheard : ∃ d ∈ (c.compileBytes fs content).diagnostics,
      d.isFatal = true ∧ NulFree (Message.of d).text
  · obtain ⟨d, hd, hfatal, htext⟩ := hheard
    refine .inl ⟨Message.of d, ?_, hfatal⟩
    rw [messages_eq_filterMap hbuffer hlistening']
    exact List.mem_filterMap.2 ⟨d, hd, Message.of?_eq htext⟩
  · have hunheard : ∀ d ∈ (c.compileBytes fs content).diagnostics, d.isFatal = true →
        ¬NulFree (Message.of d).text :=
      fun d hd hfatal htext => hheard ⟨d, hd, hfatal, htext⟩
    obtain ⟨d, hd, hfatal⟩ := compile_failed hbuffer hfailed
    refine .inr ⟨?_, ?_⟩
    · by_contra hcontent
      have hfree := Compiler.isNulFree_compileBytes hdefines fs hcontent d hd
      exact hunheard d hd hfatal (Message.nulFree_of hfree)
    · intro _ hsame d hd hfatal
      obtain rfl := Option.some.inj hsame
      exact Classical.not_not.1 (hunheard d hd hfatal)

end Compilations

/-- A closing brace without an opening one, out of a macro. -/
theorem failure_heard_brace :
    let s : Settings := { expansionLimit := 128, includeDepth := 32, listening := true }
    let calls : List Call := [.define (some (bytes "END")) (some (bytes "\x7d"))]
    let h := (create (some s)).afterCalls calls
    let buffer : Buffer := .bytes (bytes "END")
    (create (some s)).isSome = true ∧ buffer.content? = some (bytes "END") ∧
      (compile .empty h buffer).1 = -1 ∧ ∃ m ∈ (compile .empty h buffer).2, m.isFatal = true := by
  intro s calls h buffer
  let c : Compiler :=
    { defines := DefineTable.empty.insert "END" ⟨"END", [⟨⟨0, 0⟩, .punct .rightBrace⟩]⟩
      config := { limits := {}, listening := true } }
  have hc : h = some c := by decide +kernel
  have hcompiled := c.compile_computed .empty (.ofBytes Compiler.programName (bytes "END")) (n := 3) rfl
    (by decide +kernel) (by decide +kernel)
  have hfailed : (compile .empty h buffer).1 = -1 := by
    rw [hc]
    simp only [compile, buffer, Buffer.content?, Compiler.compileBytes, hcompiled]
    decide +kernel
  have hcontent : 0 ∉ bytes "END" := by decide
  refine ⟨rfl, rfl, hfailed, ?_⟩
  exact (failure_heard (s := s) rfl rfl calls .empty rfl hfailed).resolve_right fun hnul => hcontent hnul.1

/-- A lone NUL is no token, and nobody hears of it. -/
theorem nul_unheard :
    let c : Compiler := { config := { listening := true } }
    create (some { expansionLimit := 128, includeDepth := 32, listening := true }) = some c ∧
      (c.compileBytes .empty [0]).diagnostics =
        [⟨"<program>", .start, .invalid, .error (.lexical (.unexpectedCharacter "'\x00'"))⟩] ∧
      compile .empty (some c) (.bytes [0]) = (-1, []) := by
  intro c
  have hcompiled := c.compile_computed .empty (.ofBytes Compiler.programName [0]) (n := 1) rfl
    (by decide +kernel) (by decide +kernel)
  refine ⟨rfl, ?_, ?_⟩
  · rw [Compiler.compileBytes, hcompiled]
    decide +kernel
  · simp only [compile, Buffer.content?, Compiler.compileBytes, hcompiled]
    decide +kernel

end Handle

end Shading
