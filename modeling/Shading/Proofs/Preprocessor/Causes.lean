import Shading.Proofs.Condition.Expansion
import Shading.Preprocessor.Directive

/-!
# Causes of rejections

Syntax errors are found in the tokens that preprocessing delivers, and whether a directive is in its place
follows from the open groups. No directive is rejected for a syntax error, and what it asks for is never
rejected for its place.
-/

namespace Shading

def CompileError.IsSyntactic : CompileError → Prop
  | syntactic _ => True
  | _ => False

/-- Whether a directive is out of place among the open groups. -/
def DirectiveError.isOfGroup : DirectiveError → Bool
  | withoutIf _ | afterElse _ | unterminatedIf => true
  | _ => false

def CompileError.isOfGroup : CompileError → Bool
  | directive cause => cause.isOfGroup
  | _ => false

/-- An error that is found neither in delivered tokens nor in the nesting of groups. -/
structure CompileError.IsPlain (e : CompileError) : Prop where
  syntactic : ¬e.IsSyntactic
  ofGroup : e.isOfGroup = false

/-- The syntax error that a diagnostic reports, with the token that is shown for it. -/
def Diagnostic.syntaxError? (d : Diagnostic) : Option (LocatedToken × SyntaxError) :=
  match d.problem with
  | .error (.syntactic cause) => some (⟨d.location, d.token⟩, cause)
  | _ => none

lemma syntaxError?_eq_none {d : Diagnostic} (h : ∀ cause, d.problem ≠ .error (.syntactic cause)) :
    d.syntaxError? = none := by
  unfold Diagnostic.syntaxError?
  split
  next cause hcause => exact absurd hcause (h cause)
  · rfl

namespace Directive

variable {d : Directive} {r : Rejection}

lemma macroName_cause (h : d.macroName = .error r) : r.cause.IsPlain := by
  unfold macroName at h
  split at h <;> simp only [Except.error.injEq, reduceCtorEq] at h <;> subst h <;> exact ⟨id, rfl⟩

lemma includedName_cause (h : d.includedName = .error r) : r.cause.IsPlain := by
  unfold includedName at h
  split at h
  · simp at h
  · dsimp only at h
    split at h
    · simp at h
    · obtain rfl := Except.error.inj h
      exact ⟨id, rfl⟩
  · obtain rfl := Except.error.inj h
    exact ⟨id, rfl⟩

lemma definition_cause (h : d.definition = .error r) : r.cause.IsPlain := by
  unfold definition at h
  cases hname : d.macroName with
  | error r' =>
    rw [hname] at h
    obtain rfl : r' = r := Except.error.inj h
    exact macroName_cause hname
  | ok name =>
    rw [hname] at h
    simp only [bind, Except.bind] at h
    split at h
    · have refused {nameEnd location : Location} {m : Definition}
          (h : (if location = nameEnd then
            throw (Rejection.directive location (.punct .leftParen) (.functionLike name))
          else pure m : Except Rejection Definition) = .error r) : r.cause.IsPlain := by
        split at h
        · obtain rfl := Except.error.inj h
          exact ⟨id, rfl⟩
        · simp [pure, Except.pure] at h
      exact refused h
    · simp [pure, Except.pure] at h

lemma asksForMacro_cause {table : DefineTable} {wanted : Bool}
    (h : d.asksForMacro table wanted = .error r) : r.cause.IsPlain := by
  unfold asksForMacro at h
  cases hname : d.macroName with
  | error r' =>
    rw [hname] at h
    obtain rfl : r' = r := Except.error.inj h
    exact macroName_cause hname
  | ok name =>
    rw [hname] at h
    simp [bind, Except.bind, pure, Except.pure] at h

lemma value_error {table : DefineTable} {limit : Nat} {ts : List Token} {e : CompileError}
    (h : Condition.value table limit ts = .error e) :
    (∃ cause, e = .directive (.condition cause)) ∨ ∃ name, e = .expansionTooDeep name limit := by
  unfold Condition.value at h
  cases hresolved : Condition.resolveDefined table.contains ts with
  | error cause =>
    rw [hresolved] at h
    exact .inl ⟨cause, (Except.error.inj h).symm⟩
  | ok resolved =>
    rw [hresolved] at h
    cases hexpanded : Condition.expand table limit resolved with
    | error e' =>
      obtain ⟨name, rfl⟩ := Condition.expand_error hexpanded
      simp only [Except.mapError, bind, Except.bind, hexpanded] at h
      exact .inr ⟨name, (Except.error.inj h).symm⟩
    | ok expanded =>
      simp only [Except.mapError, bind, Except.bind, hexpanded] at h
      split at h
      · exact .inl ⟨_, (Except.error.inj h).symm⟩
      · simp at h

lemma value_cause {table : DefineTable} {limit : Nat} {ts : List Token} {e : CompileError}
    (h : Condition.value table limit ts = .error e) : e.IsPlain := by
  rcases value_error h with ⟨cause, rfl⟩ | ⟨name, rfl⟩ <;> exact ⟨id, rfl⟩

lemma asksForTruth_cause {table : DefineTable} {limit : Nat}
    (h : d.asksForTruth table limit = .error r) : r.cause.IsPlain := by
  unfold asksForTruth at h
  split at h
  · simp at h
  next hvalue =>
    obtain rfl := Except.error.inj h
    exact value_cause hvalue

end Directive

lemma parseDirective_cause {hash : Location} {line : List LocatedToken} {r : Rejection}
    (h : Preprocessor.parseDirective hash line = some (.error r)) : r.cause.IsPlain := by
  unfold Preprocessor.parseDirective at h
  split at h
  · cases h
  · cases Option.some.inj h
  · obtain rfl := Except.error.inj (Option.some.inj h)
    exact ⟨id, rfl⟩

/-- What prevents an include is an error of its own kind. -/
theorem includedFrame_error {fs : FileSystem} {base : Source} {isLocal : Bool} {name : String}
    {e : CompileError} (h : Preprocessor.includedFrame fs base isLocal name = .error e) :
    e = .searchPathUnsupported name ∨ e = .noParentDirectory name ∨
      (∃ cause, e = .includeNotFound name cause) ∨ ∃ cause, e = .file cause := by
  have resolve_error {e : CompileError} (h : base.resolveInclude fs isLocal name = .error e) :
      e = .searchPathUnsupported name ∨ e = .noParentDirectory name ∨
        ∃ cause, e = .includeNotFound name cause := by
    unfold Source.resolveInclude at h
    split at h
    · exact .inl (Except.error.inj h).symm
    · split at h
      · exact .inr (.inl (Except.error.inj h).symm)
      · split at h
        · simp at h
        · exact .inr (.inr ⟨_, (Except.error.inj h).symm⟩)
  unfold Preprocessor.includedFrame at h
  cases hsource : base.resolveInclude fs isLocal name with
  | error e' =>
    rw [hsource] at h
    obtain rfl : e' = e := Except.error.inj h
    rcases resolve_error hsource with h | h | h
    · exact .inl h
    · exact .inr (.inl h)
    · exact .inr (.inr (.inl h))
  | ok source =>
    rw [hsource] at h
    simp only [bind, Except.bind] at h
    split at h
    · simp [pure, Except.pure] at h
    · exact .inr (.inr (.inr ⟨_, (Except.error.inj h).symm⟩))

lemma includedFrame_cause {fs : FileSystem} {base : Source} {isLocal : Bool} {name : String}
    {e : CompileError} (h : Preprocessor.includedFrame fs base isLocal name = .error e) :
    e.IsPlain := by
  rcases includedFrame_error h with rfl | rfl | ⟨cause, rfl⟩ | ⟨cause, rfl⟩ <;> exact ⟨id, rfl⟩

end Shading
