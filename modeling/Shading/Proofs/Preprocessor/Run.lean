import Shading.Proofs.Preprocessor.Changes

/-!
# Runs of steps

A run goes from one state to another by steps and delivers tokens on the way. What is delivered
from its first state begins with these tokens and goes on with what its last state delivers.
-/

namespace Shading.Preprocessor

/-- From the first state steps deliver the tokens and lead to the last state. -/
inductive Run (fs : FileSystem) : Preprocessor → List LocatedToken → Preprocessor → Prop
  | done (p : Preprocessor) : Run fs p [] p
  | deliver {p q r : Preprocessor} {t : LocatedToken} {ts : List LocatedToken}
      (h : p.step fs = .deliver t q) (hr : Run fs q ts r) : Run fs p (t :: ts) r
  | proceed {p q r : Preprocessor} {ts : List LocatedToken} (h : p.step fs = .proceed q)
      (hr : Run fs q ts r) : Run fs p ts r

/-- What is delivered from the state `p` begins with the tokens and goes on with what is delivered
from `q`, and both lead to the same end. -/
def Delivers (fs : FileSystem) (p : Preprocessor) (ts : List LocatedToken) (q : Preprocessor) :
    Prop :=
  p.drain fs = (ts ++ (q.drain fs).1, (q.drain fs).2)

/-- A step goes on with a run to the last state. -/
def Follows (fs : FileSystem) (s : Step) (ts : List LocatedToken) (r : Preprocessor) : Prop :=
  match s with
  | .deliver t q => ∃ following, ts = t :: following ∧ Run fs q following r
  | .proceed q => Run fs q ts r

section Run

variable {fs : FileSystem} {p q r : Preprocessor} {ts us : List LocatedToken}

lemma Run.trans (h : Run fs p ts q) (h' : Run fs q us r) : Run fs p (ts ++ us) r := by
  induction h with
  | done => exact h'
  | deliver hstep _ ih => exact .deliver hstep (ih h')
  | proceed hstep _ ih => exact .proceed hstep (ih h')

lemma Follows.run (h : Follows fs (p.step fs) ts r) : Run fs p ts r := by
  cases hstep : p.step fs with
  | deliver t q =>
    rw [hstep] at h
    obtain ⟨following, rfl, hrun⟩ := h
    exact .deliver hstep hrun
  | proceed q =>
    rw [hstep] at h
    exact .proceed hstep h

lemma Follows.trans {s : Step} (h : Follows fs s ts q) (h' : Run fs q us r) :
    Follows fs s (ts ++ us) r := by
  cases s with
  | deliver t q' =>
    obtain ⟨following, rfl, hrun⟩ := h
    exact ⟨following ++ us, rfl, hrun.trans h'⟩
  | proceed q' => exact Run.trans h h'

lemma step_lookahead (fs : FileSystem) {p q : Preprocessor} (h : (p.step fs).next = q) :
    q.lookahead = p.lookahead := by
  subst h
  exact (changes_keep (changes_step fs p)).2.2

lemma Run.settings (h : Run fs p ts q) : q.limits = p.limits ∧ q.lookahead = p.lookahead := by
  have hstep {p q : Preprocessor} (h : (p.step fs).next = q) :
      q.limits = p.limits ∧ q.lookahead = p.lookahead := by
    subst h
    obtain ⟨hlimits, -, hlookahead⟩ := changes_keep (changes_step fs p)
    exact ⟨hlimits, hlookahead⟩
  induction h with
  | done => exact ⟨rfl, rfl⟩
  | deliver h _ ih =>
    have hfirst := hstep (congrArg Step.next h)
    exact ⟨ih.1.trans hfirst.1, ih.2.trans hfirst.2⟩
  | proceed h _ ih =>
    have hfirst := hstep (congrArg Step.next h)
    exact ⟨ih.1.trans hfirst.1, ih.2.trans hfirst.2⟩

lemma next_deliver {t : LocatedToken} (hp : p.lookahead = none)
    (h : p.step fs = .deliver t q) : p.next fs = (t, q) := by
  rw [next, hp]
  simp only
  rw [produce, h]

lemma next_proceed (hp : p.lookahead = none) (h : p.step fs = .proceed q) :
    p.next fs = q.next fs := by
  have hq : q.lookahead = none := by
    rw [step_lookahead fs (p := p) (by rw [h]; rfl), hp]
  rw [next, next, hp, hq]
  simp only
  rw [produce, h]

lemma drain_eof {t : LocatedToken} (hp : p.lookahead = none) (h : p.step fs = .deliver t q)
    (ht : t.token = .eof) : p.drain fs = ([t], q) :=
  drain_of_eof (next_deliver hp h) ht

lemma drain_next (h : p.next fs = q.next fs) : p.drain fs = q.drain fs := by
  rw [drain, h, eq_comm, drain]

theorem Run.delivers (h : Run fs p ts q) (hp : p.lookahead = none)
    (hts : ∀ t ∈ ts, t.token ≠ .eof) : Delivers fs p ts q := by
  unfold Delivers
  induction h with
  | done => rfl
  | @deliver p q r t ts hstep _ ih =>
    have hq : q.lookahead = none := by
      rw [step_lookahead fs (p := p) (by rw [hstep]; rfl), hp]
    have ht := hts t List.mem_cons_self
    rw [drain_of_ne_eof (next_deliver hp hstep) ht, ih hq fun u hu => hts u (List.mem_cons_of_mem t hu)]
    rfl
  | @proceed p q r ts hstep _ ih =>
    have hq : q.lookahead = none := by
      rw [step_lookahead fs (p := p) (by rw [hstep]; rfl), hp]
    rw [drain_next (next_proceed hp hstep), ih hq hts]

end Run

/-! ### Runs that are computed -/

/-- The tokens up to the end and the state behind them, if at most `n` steps lead there. -/
def drainWithin (fs : FileSystem) : Nat → Preprocessor → Option (List LocatedToken × Preprocessor)
  | 0, _ => none
  | n + 1, p =>
    match p.step fs with
    | .deliver t q =>
      if t.token = .eof then some ([t], q)
      else (drainWithin fs n q).map fun following => (t :: following.1, following.2)
    | .proceed q => drainWithin fs n q

lemma drain_eq_of_drainWithin {fs : FileSystem} {n : Nat} {p : Preprocessor}
    {r : List LocatedToken × Preprocessor} (h : drainWithin fs n p = some r) (hp : p.lookahead = none) :
    p.drain fs = r := by
  induction n generalizing p r with
  | zero => cases h
  | succ n ih =>
    rw [drainWithin] at h
    cases hstep : p.step fs with
    | deliver t q =>
      have hq := (step_lookahead fs (congrArg Step.next hstep)).trans hp
      rw [hstep] at h
      dsimp only at h
      split at h
      next ht =>
        obtain rfl := Option.some.inj h
        exact drain_eof hp hstep ht
      next ht =>
        obtain ⟨following, hfollowing, rfl⟩ := Option.map_eq_some_iff.1 h
        have hrun : Delivers fs p [t] q :=
          (Run.deliver hstep (.done q)).delivers hp (by simpa using ht)
        rw [hrun, ih hfollowing hq]
        rfl
    | proceed q =>
      have hq := (step_lookahead fs (congrArg Step.next hstep)).trans hp
      rw [hstep] at h
      rw [drain_next (next_proceed hp hstep), ih h hq]

/-- What is seen of the tokens and the last state, computed by steps. -/
lemma drain_computed {α : Type} (view : List LocatedToken × Preprocessor → α) {fs : FileSystem} {n : Nat}
    {p : Preprocessor} {a : α} (h : (drainWithin fs n p).map view = some a) (hp : p.lookahead = none) :
    view (p.drain fs) = a := by
  obtain ⟨r, hr, rfl⟩ := Option.map_eq_some_iff.1 h
  rw [drain_eq_of_drainWithin hr hp]

/-! ### More diagnostics -/

def noteAll (p : Preprocessor) (ds : List Diagnostic) : Preprocessor :=
  { p with log := p.log ++ ds.toArray }

section NoteAll

variable (p : Preprocessor)

@[simp]
lemma noteAll_nil : p.noteAll [] = p := by
  simp [noteAll]

@[simp]
lemma noteAll_noteAll (ds es : List Diagnostic) :
    (p.noteAll ds).noteAll es = p.noteAll (ds ++ es) := by
  simp [noteAll]

lemma report_eq_noteAll (t : LocatedToken) (problem : Problem) :
    p.report t problem =
      p.noteAll [{ source := p.currentName, location := t.location, token := t.token, problem }] := by
  simp [report, note, noteAll]

end NoteAll

end Shading.Preprocessor
