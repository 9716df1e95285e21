import Shading.Proofs.Preprocessor.Disguise

/-!
# Earlier diagnostics

Preprocessing only adds to its diagnostics and never looks at them: what steps do after other
earlier diagnostics is the same, with these in front.
-/

namespace Shading.Preprocessor

/-- The state with more diagnostics from before. -/
def precededBy (earlier : Array Diagnostic) (p : Preprocessor) : Preprocessor :=
  { p with log := earlier ++ p.log }

section PrecededBy

variable (earlier : Array Diagnostic) (p : Preprocessor)

lemma precededBy_log : p = ({ p with log := #[] } : Preprocessor).precededBy p.log := by
  simp [precededBy]

/-- The disguise that changes nothing but the diagnostics. -/
lemma state_earlier : ({ earlier } : Disguise).state = precededBy earlier := by
  have hframe : ({ earlier } : Disguise).frame = id := rfl
  have hdiagnostic : ({ earlier } : Disguise).diagnostic = id := rfl
  funext p
  simp [Disguise.state, precededBy, hframe, hdiagnostic]

lemma step_precededBy (fs : FileSystem) :
    (p.precededBy earlier).step fs = (p.step fs).map (precededBy earlier) := by
  rw [← state_earlier]
  exact Disguise.step_state _ p fs fun _ _ _ => .inl ⟨rfl, rfl⟩

lemma next_precededBy (fs : FileSystem) :
    (p.precededBy earlier).next fs = ((p.next fs).1, (p.next fs).2.precededBy earlier) := by
  rw [← state_earlier]
  refine (Disguise.next_state (I := fun _ => True) (fun p _ => ⟨?_, trivial⟩) (fun _ _ _ => trivial)
    trivial).1
  rw [state_earlier, step_precededBy]

lemma drain_precededBy (fs : FileSystem) :
    (p.precededBy earlier).drain fs = ((p.drain fs).1, (p.drain fs).2.precededBy earlier) := by
  rw [← state_earlier]
  refine Disguise.drain_state (I := fun _ => True) (fun p _ => ⟨?_, trivial⟩) (fun _ _ _ => trivial)
    trivial
  rw [state_earlier, step_precededBy]

end PrecededBy

/-- What only adds to the diagnostics leads to the same state whatever has been reported before, but for
the diagnostics. -/
lemma exists_log_of_precededBy (change : Preprocessor → Preprocessor)
    (h : ∀ earlier p, change (p.precededBy earlier) = (change p).precededBy earlier) (p : Preprocessor)
    (log : Array Diagnostic) : ∃ log', change { p with log } = { change p with log := log' } := by
  have hsame := h p.log { p with log := #[] }
  rw [← precededBy_log] at hsame
  refine ⟨log ++ (change { p with log := #[] }).log, ?_⟩
  rw [precededBy_log { p with log }, h, hsame]
  rfl

lemma exists_log_next (fs : FileSystem) (p : Preprocessor) (log : Array Diagnostic) :
    ∃ log', (({ p with log } : Preprocessor).step fs).next = { (p.step fs).next with log := log' } := by
  have hstep (earlier : Array Diagnostic) (p : Preprocessor) :
      ((p.precededBy earlier).step fs).next = (p.step fs).next.precededBy earlier := by
    rw [step_precededBy, Step.next_map]
  exact exists_log_of_precededBy (fun p => (p.step fs).next) hstep p log

lemma exists_log_drain (fs : FileSystem) (p : Preprocessor) (log : Array Diagnostic) :
    ∃ log', (({ p with log } : Preprocessor).drain fs).2 = { (p.drain fs).2 with log := log' } := by
  have hdrain (earlier : Array Diagnostic) (p : Preprocessor) :
      ((p.precededBy earlier).drain fs).2 = (p.drain fs).2.precededBy earlier := by
    rw [drain_precededBy]
  exact exists_log_of_precededBy (fun p => (p.drain fs).2) hdrain p log

/-- The tokens that are delivered do not depend on the diagnostics before. -/
theorem drain_tokens_log (fs : FileSystem) (p : Preprocessor) (log : Array Diagnostic) :
    (({ p with log } : Preprocessor).drain fs).1 = (p.drain fs).1 := by
  have hempty (log : Array Diagnostic) : (({ p with log } : Preprocessor).drain fs).1 =
      (({ p with log := #[] } : Preprocessor).drain fs).1 := by
    rw [precededBy_log { p with log }, drain_precededBy]
  exact (hempty log).trans (hempty p.log).symm

end Shading.Preprocessor
