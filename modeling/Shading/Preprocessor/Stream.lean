import Shading.Preprocessor.Termination

/-!
# The tokens that preprocessing delivers

Tokens are delivered one at a time, and the next one can be looked at before it is taken. The
end of the main source is delivered again and again.
-/
namespace Shading.Preprocessor

/-- The next token that steps deliver, and the state behind it. -/
def produce (fs : FileSystem) (p : Preprocessor) : LocatedToken × Preprocessor :=
  match _h : p.step fs with
  | .deliver t q => (t, q)
  | .proceed q => produce fs q
termination_by p
decreasing_by
  have hd := step_descends fs p
  rw [_h] at hd
  exact .single hd

/-- The next token is looked at and kept. -/
def peek (fs : FileSystem) (p : Preprocessor) : LocatedToken × Preprocessor :=
  match p.lookahead with
  | some t => (t, p)
  | none =>
    let produced := p.produce fs
    (produced.1, { produced.2 with lookahead := some produced.1 })

/-- The next token is taken. -/
def next (fs : FileSystem) (p : Preprocessor) : LocatedToken × Preprocessor :=
  match p.lookahead with
  | some t => (t, { p with lookahead := none })
  | none => p.produce fs

theorem produce_smaller {fs : FileSystem} {p : Preprocessor}
    (h : (p.produce fs).1.token ≠ .eof) :
    Relation.TransGen Smaller (p.produce fs).2 p := by
  fun_induction produce fs p with
  | case1 p t q hstep =>
    have hd := step_descends fs p
    rw [hstep] at hd
    exact .single (hd h)
  | case2 p q hstep ih =>
    have hd := step_descends fs p
    rw [hstep] at hd
    exact (ih h).tail hd

theorem next_smaller {fs : FileSystem} {p : Preprocessor} (h : (p.next fs).1.token ≠ .eof) :
    Relation.TransGen Smaller (p.next fs).2 p := by
  unfold next at *
  split at h
  next t ht =>
    refine .single (.of_weight rfl rfl ?_)
    simp [weight, ht]
  next ht => exact produce_smaller h

/-- All tokens up to the end of the main source, the end among them, and the state behind
them. -/
def drain (fs : FileSystem) (p : Preprocessor) : List LocatedToken × Preprocessor :=
  let taken := p.next fs
  if _h : taken.1.token = .eof then ([taken.1], taken.2)
  else
    let following := drain fs taken.2
    (taken.1 :: following.1, following.2)
termination_by p
decreasing_by exact next_smaller _h

end Shading.Preprocessor
