import Shading.Condition
import Shading.Proofs.Condition.Evaluation
import Shading.Proofs.Condition.Expansion

/-!
# What a refused condition names

A condition is refused with a text only for a token that cannot stand where it does or for a macro that is
nested too deep. The token is one that is written, in the condition or in a macro, or the answer to a question
for a macro.
-/

namespace Shading.Condition

section Macros

variable {table : DefineTable} {limit : Nat} {ts out : List Token}

/-- A token of a macro's body. -/
def IsMacroWord (table : DefineTable) (t : Token) : Prop :=
  ∃ name d, table.get? name = some d ∧ t ∈ d.words

lemma get?_of_calledMacro? {disabled : List String} {t : Token} {d : Definition}
    (h : calledMacro? table disabled t = some d) : ∃ name, table.get? name = some d := by
  unfold calledMacro? at h
  split at h
  · split at h
    · cases h
    · exact ⟨_, h⟩
  · cases h

lemma leaveOut_tokens (table : DefineTable) (room : Nat) (disabled : List String) (t : Token) :
    ∀ u ∈ (leaveOut table room disabled t).1, u = t ∨ IsMacroWord table u := by
  induction room generalizing disabled t with
  | zero =>
    unfold leaveOut
    cases calledMacro? table disabled t <;> simp
  | succ room ih =>
    unfold leaveOut
    cases hcalled : calledMacro? table disabled t with
    | none => simp
    | some d =>
      intro u hu
      obtain ⟨name, hname⟩ := get?_of_calledMacro? hcalled
      obtain ⟨v, hv, hu⟩ := List.mem_flatMap.1 hu
      rcases ih _ v u hu with rfl | hword
      · exact .inr ⟨name, d, hname, hv⟩
      · exact .inr hword

lemma leaveOut_names (table : DefineTable) (room : Nat) (disabled : List String) (t : Token) :
    ∀ name ∈ (leaveOut table room disabled t).2, ∃ key d, table.get? key = some d ∧ name = d.name := by
  induction room generalizing disabled t with
  | zero =>
    unfold leaveOut
    cases hcalled : calledMacro? table disabled t with
    | none => simp
    | some d =>
      obtain ⟨key, hkey⟩ := get?_of_calledMacro? hcalled
      intro name hname
      exact ⟨key, d, hkey, List.mem_singleton.1 hname⟩
  | succ room ih =>
    unfold leaveOut
    cases calledMacro? table disabled t with
    | none => simp
    | some d =>
      intro name hname
      obtain ⟨v, -, hname⟩ := List.mem_flatMap.1 hname
      exact ih _ v name hname

lemma expand_tokens (h : expand table limit ts = .ok out) : ∀ t ∈ out, t ∈ ts ∨ IsMacroWord table t := by
  have hagrees := expand_agrees table limit ts
  rw [h] at hagrees
  intro t ht
  rw [← (Prod.mk.inj hagrees).1] at ht
  obtain ⟨u, hu, ht⟩ := List.mem_flatMap.1 ht
  rcases leaveOut_tokens table limit [] u t ht with rfl | hword
  · exact .inl hu
  · exact .inr hword

lemma expand_refused {e : CompileError} (h : expand table limit ts = .error e) :
    ∃ key d, table.get? key = some d ∧ e = .expansionTooDeep d.name limit := by
  have hagrees := expand_agrees table limit ts
  rw [h] at hagrees
  obtain ⟨name, hname, rfl⟩ := hagrees
  obtain ⟨u, -, hname⟩ := List.mem_flatMap.1 (List.mem_of_mem_head? hname)
  obtain ⟨key, d, hkey, rfl⟩ := leaveOut_names table limit [] u name hname
  exact ⟨key, d, hkey, rfl⟩

/-- What resolving leaves is written or is an answer, and it refuses no token. -/
def IsResolved (ts : List Token) : Except ConditionError (List Token) → Prop
  | .ok out => ∀ t ∈ out, t ∈ ts ∨ ∃ isDefined, t = answer isDefined
  | .error e => ∀ text, e ≠ .unexpectedToken text

lemma IsResolved.cons {outcome : Except ConditionError (List Token)} (h : IsResolved ts outcome)
    {us : List Token} (hsub : ts ⊆ us) {t : Token} (ht : t ∈ us ∨ ∃ isDefined, t = answer isDefined) :
    IsResolved us (outcome.map (t :: ·)) := by
  cases outcome with
  | error e => exact h
  | ok out => exact List.forall_mem_cons.2 ⟨ht, fun u hu => (h u hu).imp_left (hsub ·)⟩

lemma resolveDefined_isResolved (isDefined : String → Bool) (ts : List Token) :
    IsResolved ts (resolveDefined isDefined ts) := by
  fun_induction resolveDefined isDefined ts with
  | case1 => simp [IsResolved]
  | case2 name rest ih => exact ih.cons (List.subset_append_right [_, _] rest) (.inr ⟨_, rfl⟩)
  | case3 name rest ih => exact ih.cons (List.subset_append_right [_, _, _, _] rest) (.inr ⟨_, rfl⟩)
  | case4 => simp [IsResolved]
  | case5 => simp [IsResolved]
  | case6 => simp [IsResolved]
  | case7 t ts hne ih => exact ih.cons (List.subset_cons_self _ _) (.inl List.mem_cons_self)

/-- A refused condition names a macro that there is, or one of its tokens, or none. -/
theorem value_refused {e : CompileError} (h : value table limit ts = .error e) :
    (∃ key d, table.get? key = some d ∧ e = .expansionTooDeep d.name limit) ∨
      ∃ cause, e = .directive (.condition cause) ∧ ∀ text, cause = .unexpectedToken text →
        ∃ t, text = t.text ∧ (t ∈ ts ∨ (∃ isDefined, t = answer isDefined) ∨ IsMacroWord table t) := by
  have hresolve := resolveDefined_isResolved table.contains ts
  unfold value at h
  cases hresolved : resolveDefined table.contains ts with
  | error cause =>
    rw [hresolved] at h hresolve
    obtain rfl := Except.error.inj h
    exact .inr ⟨cause, rfl, fun text htext => absurd htext (hresolve text)⟩
  | ok resolved =>
    rw [hresolved] at h hresolve
    cases hexpanded : expand table limit resolved with
    | error e' =>
      simp only [Except.mapError, bind, Except.bind, hexpanded] at h
      obtain rfl := Except.error.inj h
      exact .inl (expand_refused hexpanded)
    | ok expanded =>
      simp only [Except.mapError, bind, Except.bind, hexpanded] at h
      cases hvalue : evaluate expanded with
      | ok value =>
        rw [hvalue] at h
        cases h
      | error cause =>
        rw [hvalue] at h
        obtain rfl := Except.error.inj h
        refine .inr ⟨cause, rfl, ?_⟩
        rintro text rfl
        obtain ⟨t, ht, htext⟩ := evaluate_refused hvalue
        refine ⟨t, htext, ?_⟩
        rcases expand_tokens hexpanded t ht with ht | hword
        · exact (hresolve t ht).imp_right .inl
        · exact .inr (.inr hword)

end Macros

end Shading.Condition
