import Mathlib
import Shading.Condition

/-!
# Macros without places

A macro stands for its tokens wherever they were written, so conditions and expansions do not depend
on the places in the bodies of macros.
-/

namespace Shading

namespace Definition

/-- The macro with all its words at the start of a source. -/
def unplaced (d : Definition) : Definition :=
  { d with body := d.body.map fun t => { t with location := .start } }

variable {d e : Definition}

lemma tokens_unplaced (d : Definition) : d.unplaced.body.map (·.token) = d.body.map (·.token) := by
  simp [unplaced, Function.comp_def]

lemma words_unplaced (d : Definition) : d.unplaced.words = d.words := by
  rw [words, words, tokens_unplaced]

lemma tokens_of_unplaced (h : d.unplaced = e.unplaced) :
    d.body.map (·.token) = e.body.map (·.token) := by
  rw [← tokens_unplaced d, h, tokens_unplaced]

lemma unplaced_eq (hname : d.name = e.name) (h : d.body.map (·.token) = e.body.map (·.token)) :
    d.unplaced = e.unplaced := by
  have hunplaced (d : Definition) : d.unplaced =
      { name := d.name, body := (d.body.map (·.token)).map fun token => ⟨.start, token⟩ } := by
    simp [unplaced, Function.comp_def]
  rw [hunplaced d, hunplaced e, hname, h]

end Definition

namespace DefineTable

/-- The macros without the places of their words. -/
def unplaced (t : DefineTable) : DefineTable :=
  { entries := t.entries.map fun e => (e.1, e.2.unplaced) }

variable {t u : DefineTable}

lemma get?_unplaced (t : DefineTable) (name : String) :
    t.unplaced.get? name = (t.get? name).map Definition.unplaced := by
  obtain ⟨entries⟩ := t
  unfold get? unplaced
  induction entries with
  | nil => rfl
  | cons e entries ih =>
    rw [List.map_cons, List.lookup_cons, List.lookup_cons, ih]
    cases name == e.1 <;> rfl

lemma contains_unplaced (t : DefineTable) (name : String) :
    t.unplaced.contains name = t.contains name := by
  rw [contains, contains, get?_unplaced, Option.isSome_map]

lemma erase_unplaced (t : DefineTable) (name : String) :
    (t.erase name).unplaced = t.unplaced.erase name := by
  simp only [unplaced, erase, List.filter_map]
  rfl

lemma insert_unplaced (t : DefineTable) (name : String) (d : Definition) :
    (t.insert name d).unplaced = t.unplaced.insert name d.unplaced := by
  simp only [insert, ← erase_unplaced]
  rfl

end DefineTable

namespace Condition

variable {t u : DefineTable}

lemma calledMacro?_unplaced (t : DefineTable) (disabled : List String) (token : Token) :
    calledMacro? t.unplaced disabled token =
      (calledMacro? t disabled token).map Definition.unplaced := by
  unfold calledMacro?
  split
  · split
    · rfl
    · exact DefineTable.get?_unplaced t _
  · rfl

lemma expandToken_unplaced (t : DefineTable) (limit room : Nat) (disabled : List String)
    (token : Token) :
    expandToken t.unplaced limit room disabled token =
      expandToken t limit room disabled token := by
  induction room generalizing disabled token with
  | zero =>
    rw [expandToken, expandToken, calledMacro?_unplaced]
    cases calledMacro? t disabled token <;> rfl
  | succ room ih =>
    rw [expandToken, expandToken, calledMacro?_unplaced]
    cases calledMacro? t disabled token with
    | none => rfl
    | some d =>
      have hbody : expandToken t.unplaced limit room (d.name :: disabled) =
          expandToken t limit room (d.name :: disabled) := funext fun _ => ih _ _
      simp only [Option.map_some, Definition.words_unplaced]
      exact congrArg (fun f => replaceEach f d.words) hbody

lemma value_unplaced (t : DefineTable) (limit : Nat) (ts : List Token) :
    value t.unplaced limit ts = value t limit ts := by
  have hcontains : t.unplaced.contains = t.contains := funext (DefineTable.contains_unplaced t)
  have hexpand : expandToken t.unplaced limit limit [] = expandToken t limit limit [] :=
    funext (expandToken_unplaced t limit limit [])
  unfold value expand
  rw [hcontains, hexpand]

/-- Macros that differ only in places give a condition the same value. -/
theorem value_congr (h : t.unplaced = u.unplaced) (limit : Nat) (ts : List Token) :
    value t limit ts = value u limit ts := by
  rw [← value_unplaced t, h, value_unplaced]

end Condition

end Shading
