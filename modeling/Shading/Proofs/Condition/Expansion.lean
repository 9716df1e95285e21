import Mathlib
import Shading.Condition.Expansion

/-!
# Expansion beyond the limit

Expansion stops at the first call of a macro beyond the limit. `leaveOut` leaves such calls out
and goes on: it says what all tokens become and which calls were left out, and expansion succeeds
exactly if there is none.
-/

namespace Shading

def Definition.withoutBreaks (d : Definition) : Definition :=
  { d with body := d.body.filter (·.token != .newline) }

def DefineTable.withoutBreaks (table : DefineTable) : DefineTable :=
  { entries := table.entries.map fun e => (e.1, e.2.withoutBreaks) }

lemma DefineTable.get?_withoutBreaks (table : DefineTable) (name : String) :
    table.withoutBreaks.get? name = (table.get? name).map Definition.withoutBreaks := by
  obtain ⟨entries⟩ := table
  unfold withoutBreaks get?
  induction entries with
  | nil => rfl
  | cons e rest ih =>
    obtain ⟨key, d⟩ := e
    rw [List.map_cons, List.lookup_cons, List.lookup_cons, ih]
    cases name == key <;> rfl

lemma Definition.words_withoutBreaks (d : Definition) : d.withoutBreaks.words = d.words := by
  simp [words, withoutBreaks, List.filter_map, Function.comp_def]

namespace Condition

/-- What a token becomes with room for this many nested expansions, and the names of the macros
whose calls are left out for want of room. -/
def leaveOut (table : DefineTable) :
    (room : Nat) → (disabled : List String) → Token → List Token × List String
  | room, disabled, t =>
    match calledMacro? table disabled t with
    | none => ([t], [])
    | some d =>
      match room with
      | 0 => ([], [d.name])
      | room + 1 =>
        (d.words.flatMap fun t => (leaveOut table room (d.name :: disabled) t).1,
          d.words.flatMap fun t => (leaveOut table room (d.name :: disabled) t).2)

/-- An expansion succeeds with all tokens, or fails with the first call that was left out. -/
def Agrees (limit : Nat) (result : Except CompileError (List Token))
    (all : List Token × List String) : Prop :=
  match result with
  | .ok out => all = (out, [])
  | .error e => ∃ name, all.2.head? = some name ∧ e = .expansionTooDeep name limit

lemma Agrees.unique {limit : Nat} {result result' : Except CompileError (List Token)}
    {all : List Token × List String} (h : Agrees limit result all)
    (h' : Agrees limit result' all) : result = result' := by
  cases result with
  | ok out =>
    have h : all = (out, []) := h
    subst h
    cases result' with
    | ok out' => exact congrArg Except.ok (Prod.mk.inj h').1
    | error e' =>
      obtain ⟨name', hhead', -⟩ := h'
      cases hhead'
  | error e =>
    obtain ⟨name, hhead, rfl⟩ := h
    cases result' with
    | ok out' =>
      have h' : all = (out', []) := h'
      subst h'
      cases hhead
    | error e' =>
      obtain ⟨name', hhead', rfl⟩ := h'
      rw [hhead] at hhead'
      rw [Option.some.inj hhead']

lemma replaceEach_agrees {limit : Nat} {replace : Token → Except CompileError (List Token)}
    {all : Token → List Token × List String} (h : ∀ t, Agrees limit (replace t) (all t))
    (ts : List Token) :
    Agrees limit (replaceEach replace ts)
      (ts.flatMap fun t => (all t).1, ts.flatMap fun t => (all t).2) := by
  induction ts with
  | nil => rfl
  | cons t ts ih =>
    have ht := h t
    rw [replaceEach]
    cases hreplace : replace t with
    | error e =>
      rw [hreplace] at ht
      obtain ⟨name, hhead, he⟩ := ht
      refine ⟨name, ?_, he⟩
      change ((all t).2 ++ ts.flatMap fun t => (all t).2).head? = some name
      rw [List.head?_append, hhead, Option.some_or]
    | ok out =>
      rw [hreplace] at ht
      have ht : all t = (out, []) := ht
      cases hrest : replaceEach replace ts with
      | error e =>
        rw [hrest] at ih
        obtain ⟨name, hhead, he⟩ := ih
        refine ⟨name, ?_, he⟩
        change ((all t).2 ++ ts.flatMap fun t => (all t).2).head? = some name
        rw [ht]
        exact hhead
      | ok following =>
        rw [hrest] at ih
        have ih : (ts.flatMap fun t => (all t).1, ts.flatMap fun t => (all t).2) =
          (following, []) := ih
        obtain ⟨htokens, hnames⟩ := Prod.mk.inj ih
        change (_, _) = (out ++ following, [])
        rw [List.flatMap_cons, List.flatMap_cons, htokens, hnames, ht]
        rfl

lemma expandToken_agrees (table : DefineTable) (limit room : Nat) (disabled : List String)
    (t : Token) :
    Agrees limit (expandToken table limit room disabled t) (leaveOut table room disabled t) := by
  induction room generalizing disabled t with
  | zero =>
    unfold expandToken leaveOut
    cases calledMacro? table disabled t with
    | none => rfl
    | some d => exact ⟨d.name, rfl, rfl⟩
  | succ room ih =>
    unfold expandToken leaveOut
    cases calledMacro? table disabled t with
    | none => rfl
    | some d => exact replaceEach_agrees (ih (d.name :: disabled)) d.words

theorem expand_agrees (table : DefineTable) (limit : Nat) (ts : List Token) :
    Agrees limit (expand table limit ts)
      (ts.flatMap fun t => (leaveOut table limit [] t).1,
        ts.flatMap fun t => (leaveOut table limit [] t).2) :=
  replaceEach_agrees (expandToken_agrees table limit limit []) ts

lemma expand_error {table : DefineTable} {limit : Nat} {ts : List Token} {e : CompileError}
    (h : expand table limit ts = .error e) : ∃ name, e = .expansionTooDeep name limit := by
  have hagrees := expand_agrees table limit ts
  rw [h] at hagrees
  obtain ⟨name, _, he⟩ := hagrees
  exact ⟨name, he⟩

lemma leaveOut_withoutBreaks (table : DefineTable) (room : Nat) (disabled : List String)
    (t : Token) : leaveOut table.withoutBreaks room disabled t = leaveOut table room disabled t := by
  have hcalled (disabled : List String) (t : Token) :
      calledMacro? table.withoutBreaks disabled t =
        (calledMacro? table disabled t).map Definition.withoutBreaks := by
    cases t with
    | identifier name =>
      simp only [calledMacro?, DefineTable.get?_withoutBreaks]
      split <;> rfl
    | _ => rfl
  induction room generalizing disabled t with
  | zero =>
    unfold leaveOut
    rw [hcalled]
    cases calledMacro? table disabled t <;> rfl
  | succ room ih =>
    unfold leaveOut
    rw [hcalled]
    cases calledMacro? table disabled t with
    | none => rfl
    | some d => simp only [Option.map_some, Definition.words_withoutBreaks, ih]; rfl

/-- Line breaks in macros count for nothing. -/
theorem expand_withoutBreaks (table : DefineTable) (limit : Nat) (ts : List Token) :
    expand table.withoutBreaks limit ts = expand table limit ts := by
  have hagrees := expand_agrees table.withoutBreaks limit ts
  simp only [leaveOut_withoutBreaks] at hagrees
  exact hagrees.unique (expand_agrees table limit ts)

end Condition

end Shading
