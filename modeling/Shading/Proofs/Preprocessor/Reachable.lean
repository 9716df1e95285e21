import Shading.Proofs.Lexeme
import Shading.Proofs.Preprocessor.Changes

/-!
# Reachable states

Macros come from definitions given to a compiler and from definitions in sources. In every table
that is reached in this way a macro is kept under its own name, and no body holds the end of a
source or a token that is skipped.
-/

namespace Shading

/-- The compilers that any settings and definitions lead to. -/
inductive Compiler.Reachable : Compiler → Prop
  | new (config : Config) : Reachable { config }
  | addDefine {c c' : Compiler} {name : String} {body : Option String} (hc : Reachable c)
      (h : c.addDefine name body = .ok c') : Reachable c'
  | removeDefine {c : Compiler} (hc : Reachable c) (name : String) : Reachable (c.removeDefine name)
  | configure {c : Compiler} (hc : Reachable c) (config : Config) : Reachable { c with config }

/-- The states that steps of preprocessing lead to. -/
inductive Preprocessor.Reachable (fs : FileSystem) : Preprocessor → Prop
  | start {c : Compiler} (hc : c.Reachable) (source : Source) : Reachable fs (c.preprocessor fs source)
  | step {p : Preprocessor} (hp : Reachable fs p) : Reachable fs (p.step fs).next

def DefineTable.Reachable (table : DefineTable) : Prop :=
  ∃ fs p, Preprocessor.Reachable fs p ∧ p.defines = table

namespace DefineTable

/-- Every macro is kept under its own name. -/
def IsKeyed (table : DefineTable) : Prop :=
  ∀ name d, table.get? name = some d → d.name = name

/-- Every macro is kept under its own name, and its body holds only tokens of one source. -/
def IsSound (table : DefineTable) : Prop :=
  ∀ name d, table.get? name = some d →
    d.name = name ∧ ∀ t ∈ d.body, t.token ≠ .eof ∧ t.token.isSkipped = false

variable {table : DefineTable}

lemma get?_erase (table : DefineTable) (name other : String) :
    (table.erase name).get? other = if other = name then none else table.get? other := by
  obtain ⟨entries⟩ := table
  unfold get? erase
  induction entries with
  | nil => simp
  | cons e rest ih =>
    obtain ⟨key, d⟩ := e
    by_cases hkey : key = name
    · rw [List.filter_cons_of_neg (by simpa using hkey), ih]
      by_cases hother : other = name
      · rw [if_pos hother, if_pos hother]
      · have hne : (other == key) = false := by simpa [hkey] using hother
        rw [if_neg hother, if_neg hother, List.lookup_cons, hne]
    · rw [List.filter_cons_of_pos (by simpa using hkey), List.lookup_cons, List.lookup_cons, ih]
      by_cases hother : other = key
      · have hname : other ≠ name := by rwa [hother]
        simp [hother, hkey]
      · have hne : (other == key) = false := by simpa using hother
        rw [hne]

lemma get?_insert (table : DefineTable) (name other : String) (d : Definition) :
    (table.insert name d).get? other = if other = name then some d else table.get? other := by
  have hlookup : (table.insert name d).get? other =
      if other = name then some d else (table.erase name).get? other := by
    unfold get? insert
    rw [List.lookup_cons]
    by_cases hother : other = name
    · simp [hother]
    · have hne : (other == name) = false := by simpa using hother
      rw [hne, if_neg hother]
  rw [hlookup, get?_erase]
  split <;> rfl

lemma IsSound.isKeyed (h : table.IsSound) : table.IsKeyed :=
  fun name d hd => (h name d hd).1

lemma isSound_empty : IsSound empty := by
  intro name d h
  cases h

lemma isSound_insert (h : table.IsSound) {d : Definition}
    (hd : ∀ t ∈ d.body, t.token ≠ .eof ∧ t.token.isSkipped = false) :
    (table.insert d.name d).IsSound := by
  intro name e he
  rw [get?_insert] at he
  split at he
  next hname =>
    obtain rfl := Option.some.inj he
    exact ⟨hname.symm, hd⟩
  · exact h name e he

lemma isSound_erase (h : table.IsSound) (name : String) : (table.erase name).IsSound := by
  intro other e he
  rw [get?_erase] at he
  split at he
  · cases he
  · exact h other e he

end DefineTable

theorem Compiler.Reachable.isSound {c : Compiler} (h : c.Reachable) : c.defines.IsSound := by
  induction h with
  | new config => exact DefineTable.isSound_empty
  | @addDefine c c' name body hc h ih =>
    unfold Compiler.addDefine at h
    split at h
    · cases hbody : Definition.capture { rest := Text.bytes (body.getD Compiler.defaultBody) } with
      | error e =>
        rw [hbody] at h
        cases h
      | ok words =>
        rw [hbody] at h
        obtain rfl := Except.ok.inj h
        have hwords := Definition.capture_words _ words hbody
        exact DefineTable.isSound_insert (d := { name, body := words }) ih hwords
    · cases h
  | removeDefine hc name ih => exact DefineTable.isSound_erase ih name
  | configure hc config ih => exact ih

lemma Directive.definition_body {d : Directive} {m : Definition} (h : d.definition = .ok m) :
    m.body = d.args.drop 1 := by
  unfold definition at h
  cases hname : d.macroName with
  | error r =>
    rw [hname] at h
    cases h
  | ok name =>
    rw [hname] at h
    simp only [bind, Except.bind] at h
    split at h
    next location rest hargs =>
      have hkept {nameEnd : Location} {kept : Definition} (h : (if location = nameEnd then
            throw (Rejection.directive location (.punct .leftParen) (.functionLike name))
          else pure kept : Except Rejection Definition) = .ok m) : kept = m := by
        split at h
        · cases h
        · exact Except.ok.inj h
      rw [hargs, ← hkept h]
    · obtain rfl := Except.ok.inj h
      rfl

namespace Preprocessor

/-- The macros are sound, and no source holds an end. -/
structure IsSound (p : Preprocessor) : Prop where
  defines : p.defines.IsSound
  lexemes : ∀ f ∈ p.frames, ∀ x ∈ f.lexemes, x.token ≠ .eof

variable {fs : FileSystem} {r p q : Preprocessor}

lemma ofContent_ne_eof (fs : FileSystem) (source : Source) (content : List UInt8) :
    ∀ x ∈ (Frame.ofContent fs source content).lexemes, x.token ≠ .eof :=
  fun x hx => (Lexemes.ofCursor_proper _ x hx).1

lemma isSound_start {c : Compiler} (hc : c.Reachable) (source : Source) :
    (c.preprocessor fs source).IsSound := by
  unfold Compiler.preprocessor start
  dsimp only
  split
  next content loaded _ =>
    refine ⟨hc.isSound, ?_⟩
    intro f hf
    obtain rfl := List.mem_singleton.1 hf
    exact ofContent_ne_eof fs loaded content
  · exact ⟨hc.isSound, by simp [error, report, note]⟩

lemma isSound_change (hr : r.IsSound) (h : Change fs r p q) (hp : p.IsSound) : q.IsSound := by
  cases h with
  | regroup groups =>
    unfold setGroups mapTop
    split
    · exact hp
    next f outer hf =>
      refine ⟨hp.defines, ?_⟩
      intro g hg
      rcases List.mem_cons.1 hg with rfl | hg
      · exact hp.lexemes f (by simp [hf])
      · exact hp.lexemes g (by simp [hf, hg])
  | @read f outer hf lexemes hsuffix atLineStart =>
    refine ⟨hp.defines, ?_⟩
    intro g hg
    rcases List.mem_cons.1 hg with rfl | hg
    · intro x hx
      exact hp.lexemes f (by simp [hf]) x (hsuffix.subset hx)
    · exact hp.lexemes g (by simp [hf, hg])
  | @leave f outer hf houter =>
    refine ⟨hp.defines, ?_⟩
    intro g hg
    exact hp.lexemes g (by simp [hf, show g ∈ outer from hg])
  | enter source content =>
    refine ⟨hp.defines, ?_⟩
    intro g hg
    rcases List.mem_cons.1 hg with rfl | hg
    · exact ofContent_ne_eof fs source content
    · exact hp.lexemes g hg
  | @define d m hd hargs =>
    refine ⟨DefineTable.isSound_insert hp.defines ?_, hp.lexemes⟩
    intro t ht
    rw [Directive.definition_body hd] at ht
    obtain ⟨x, hx, rfl, hskipped, _⟩ := hargs t (List.mem_of_mem_drop ht)
    refine ⟨?_, hskipped⟩
    unfold Preprocessor.lexemes at hx
    split at hx
    · cases hx
    next f outer hf => exact hr.lexemes f (by simp [hf]) x hx
  | undefine name => exact ⟨DefineTable.isSound_erase hp.defines name, hp.lexemes⟩
  | _ => exact ⟨hp.defines, hp.lexemes⟩

lemma calledMacro?_eq_some_iff {t : Token} {name : String} {d : Definition} :
    p.calledMacro? t = some (name, d) ↔
      t = .identifier name ∧ p.isExpanding name = false ∧ p.defines.get? name = some d := by
  cases t with
  | identifier other =>
    simp only [calledMacro?, Token.identifier.injEq]
    constructor
    · intro h
      split at h
      · cases h
      next hexpanding =>
        obtain ⟨d', hd', heq⟩ := Option.map_eq_some_iff.1 h
        obtain ⟨rfl, rfl⟩ := Prod.mk.inj heq
        exact ⟨rfl, Bool.eq_false_of_not_eq_true hexpanding, hd'⟩
    · rintro ⟨rfl, hexpanding, hd⟩
      rw [hexpanding, hd]
      rfl
  | _ => simp [calledMacro?]

lemma expansions_change {P : Token → Prop}
    (hbodies : ∀ name d, p.defines.get? name = some d → ∀ t ∈ d.body, P t.token)
    (h : Change fs r p q) (hp : ∀ e ∈ p.expansions, ∀ t ∈ e.rest, P t) :
    ∀ e ∈ q.expansions, ∀ t ∈ e.rest, P t := by
  cases h with
  | regroup groups =>
    unfold setGroups mapTop
    split <;> exact hp
  | @call name d t hcall hroom location =>
    intro e he
    rcases List.mem_cons.1 he with rfl | he
    · intro u hu
      obtain ⟨v, hv, rfl⟩ := List.mem_map.1 hu
      exact hbodies name d (calledMacro?_eq_some_iff.1 hcall).2.2 v hv
    · exact hp e he
  | @advance e outer t rest hexpansions he =>
    intro e' he'
    rcases List.mem_cons.1 he' with rfl | he'
    · intro u hu
      exact hp e (by simp [hexpansions]) u (by simp [he, show u ∈ rest from hu])
    · exact hp e' (by simp [hexpansions, he'])
  | @endExpansion e outer hexpansions he =>
    intro e' he'
    exact hp e' (by simp [hexpansions, show e' ∈ outer from he'])
  | _ => exact hp

lemma isSound_step (fs : FileSystem) (hp : p.IsSound) : (p.step fs).next.IsSound :=
  step_keeps (fun _ _ h => isSound_change hp h) hp

theorem Reachable.isSound (h : p.Reachable fs) : p.IsSound := by
  induction h with
  | start hc source => exact isSound_start hc source
  | step _ ih => exact isSound_step fs ih

end Preprocessor

lemma DefineTable.Reachable.isSound {table : DefineTable} (h : table.Reachable) :
    table.IsSound := by
  obtain ⟨fs, p, hp, rfl⟩ := h
  exact hp.isSound.defines

end Shading
