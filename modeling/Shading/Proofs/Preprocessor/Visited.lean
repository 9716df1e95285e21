import Shading.Proofs.Preprocessor.Order

/-!
# Visited states

Preprocessing goes from state to state by single steps. The token that a step delivers is returned, or is
kept for the next call if it has only been looked at, and in between problems are reported from outside.
-/

namespace Shading.Preprocessor

/-- What changes a state: a step, a step whose token is kept, the return of the token that was kept, and a
report from outside. -/
inductive Moves (fs : FileSystem) : Preprocessor → Preprocessor → Prop
  | step {p : Preprocessor} (hp : p.lookahead = none) : Moves fs p (p.step fs).next
  | keep {p q : Preprocessor} {t : LocatedToken} (hp : p.lookahead = none)
      (h : p.step fs = .deliver t q) : Moves fs p { q with lookahead := some t }
  | release (p : Preprocessor) : Moves fs p { p with lookahead := none }
  | report (p : Preprocessor) (t : LocatedToken) (problem : Problem) : Moves fs p (p.report t problem)

/-- The states on the way of any source, between calls and within them. -/
inductive Visited (fs : FileSystem) : Preprocessor → Prop
  | start {c : Compiler} (hc : c.Reachable) (source : Source) : Visited fs (c.preprocessor fs source)
  | move {p q : Preprocessor} (hp : Visited fs p) (h : Moves fs p q) : Visited fs q

variable {fs : FileSystem} {p q : Preprocessor}

lemma Moves.eq (h : Moves fs p q) : ∃ lookahead log,
    q = { p with lookahead, log } ∨ q = { (p.step fs).next with lookahead, log } := by
  cases h with
  | step hp => exact ⟨_, _, .inr rfl⟩
  | @keep q t hp hstep =>
    refine ⟨some t, q.log, .inr ?_⟩
    rw [hstep]
    rfl
  | release => exact ⟨_, _, .inl rfl⟩
  | report t problem => exact ⟨_, _, .inl rfl⟩

/-- What holds at the start, is kept by steps, and has nothing to do with the token that is kept or with
reports holds in all visited states. -/
theorem Visited.induction {I : Preprocessor → Prop} (h : p.Visited fs)
    (hstart : ∀ c : Compiler, c.Reachable → ∀ source, I (c.preprocessor fs source))
    (hstep : ∀ p, I p → I (p.step fs).next)
    (hsame : ∀ p lookahead log, I p → I { p with lookahead, log }) : I p := by
  induction h with
  | start hc source => exact hstart _ hc source
  | @move p q _ hmove ih =>
    obtain ⟨lookahead, log, rfl | rfl⟩ := hmove.eq
    · exact hsame p lookahead log ih
    · exact hsame _ lookahead log (hstep p ih)

lemma Visited.isSound (h : p.Visited fs) : p.IsSound :=
  h.induction (fun _ hc source => isSound_start hc source) (fun _ hp => isSound_step fs hp)
    (fun _ _ _ hp => ⟨hp.defines, hp.lexemes⟩)

lemma Visited.steps (h : p.Visited fs) (hp : p.lookahead = none) (n : Nat) : (p.steps fs n).Visited fs := by
  induction n with
  | zero => exact h
  | succ n ih =>
    rw [steps_succ]
    exact .move ih (.step (lookahead_steps fs hp n))

/-- The state behind a call for the next token is visited. -/
theorem Visited.next (h : p.Visited fs) : (p.next fs).2.Visited fs := by
  cases hp : p.lookahead with
  | some t =>
    unfold Preprocessor.next
    rw [hp]
    exact .move h (.release p)
  | none =>
    obtain ⟨n, -, hstate⟩ := next_steps fs hp
    rw [hstate]
    exact h.steps hp (n + 1)

/-- The state behind a look at the next token is visited. -/
theorem Visited.peek (h : p.Visited fs) : (p.peek fs).2.Visited fs := by
  unfold Preprocessor.peek
  cases hp : p.lookahead with
  | some t => exact h
  | none =>
    obtain ⟨n, hdeliver, -⟩ := produce_steps fs p
    exact .move (h.steps hp n) (.keep (lookahead_steps fs hp n) hdeliver)

end Shading.Preprocessor
