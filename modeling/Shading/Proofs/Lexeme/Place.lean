import Shading.Proofs.Lexeme.Joint

/-!
# Places of lexemes

Where a text begins decides only where its lexemes are, and a text that begins some lines further down
has them as many lines further down.
-/

namespace Shading

namespace Location

/-- The place `k` lines further down. -/
def lower (k : Nat) (l : Location) : Location :=
  { l with line := l.line + k }

/-- The place `m` is `l` or one behind it. -/
def Precedes (l m : Location) : Prop :=
  l.line < m.line ∨ l.line = m.line ∧ l.column ≤ m.column

variable {l m n : Location}

@[simp]
lemma lower_zero (l : Location) : l.lower 0 = l := rfl

lemma lower_injective (k : Nat) : Function.Injective (lower k) := by
  intro l m h
  obtain ⟨hline, hcolumn⟩ := Location.mk.inj h
  have hline' := Nat.add_right_cancel hline
  cases l
  cases m
  congr

lemma right_lower (k n : Nat) (l : Location) : (l.lower k).right n = (l.right n).lower k := rfl

lemma nextLine_lower (k : Nat) (l : Location) : (l.lower k).nextLine = l.nextLine.lower k := by
  simp only [nextLine, lower, Nat.add_right_comm]

lemma after_lower (k : Nat) (l : Location) (bs : List UInt8) :
    (l.lower k).after bs = (l.after bs).lower k := by
  induction bs generalizing l with
  | nil => rfl
  | cons b bs ih =>
    rw [after, after]
    split
    · exact ih l
    · split
      · rw [nextLine_lower, ih]
      · rw [right_lower, ih]

lemma precedes_refl (l : Location) : Precedes l l :=
  .inr ⟨rfl, le_rfl⟩

lemma Precedes.trans (h : Precedes l m) (h' : Precedes m n) : Precedes l n := by
  unfold Precedes at *
  omega

lemma precedes_after (l : Location) (bs : List UInt8) : Precedes l (l.after bs) := by
  induction bs generalizing l with
  | nil => exact precedes_refl l
  | cons b bs ih =>
    rw [after]
    split
    · exact ih l
    · split
      · exact Precedes.trans (m := l.nextLine) (.inl (Nat.lt_succ_self _)) (ih _)
      · exact Precedes.trans (m := l.right 1) (.inr ⟨rfl, Nat.le_add_right _ _⟩) (ih _)

open Text

lemma after_inline {bs : List UInt8} (h : bs.any isBreak = false) :
    l.after bs = l.right bs.length := by
  induction bs generalizing l with
  | nil => rfl
  | cons b bs ih =>
    obtain ⟨hb, hbs⟩ : isBreak b = false ∧ bs.any isBreak = false := by simpa using h
    have hreturn : b ≠ ascii '\r' := by
      rintro rfl
      cases hb
    rw [after, if_neg (by simp [hreturn]), if_neg (by simp [hb]), ih hbs]
    simp [right, Nat.add_comm, Nat.add_left_comm]

lemma after_append {front back : List UInt8} (h : SplitsNoBreak front back) :
    l.after (front ++ back) = (l.after front).after back := by
  induction front generalizing l with
  | nil => rfl
  | cons b front ih =>
    have hfront {m : Location} := ih (l := m) (h.suffix (List.suffix_cons b front))
    have hcrlf : (b = ascii '\r' && (front ++ back).head? = some (ascii '\n')) =
        (b = ascii '\r' && front.head? = some (ascii '\n')) := by
      cases front with
      | nil =>
        have hjoint : ¬(b = ascii '\r' ∧ back.head? = some (ascii '\n')) := by
          simpa [SplitsNoBreak] using h
        simpa using hjoint
      | cons c front => rfl
    rw [List.cons_append, after, after, hcrlf]
    split
    · exact hfront
    · split <;> exact hfront

lemma line_after (l : Location) (bs : List UInt8) :
    (l.after bs).line = l.line + (start.after bs).line := by
  have hline (l m : Location) (h : l.line = m.line) : (l.after bs).line = (m.after bs).line := by
    induction bs generalizing l m with
    | nil => exact h
    | cons b bs ih =>
      rw [after, after]
      split
      · exact ih l m h
      · split
        · exact ih _ _ (congrArg (· + 1) h)
        · exact ih _ _ h
  have hlower := after_lower l.line start bs
  rw [hline l (start.lower l.line) (by simp [lower, start]), hlower]
  exact Nat.add_comm _ _

end Location

def Lexeme.lower (k : Nat) (x : Lexeme) : Lexeme :=
  { x with location := x.location.lower k }

def LocatedToken.lower (k : Nat) (t : LocatedToken) : LocatedToken :=
  { t with location := t.location.lower k }

@[simp]
lemma Lexeme.lower_zero (x : Lexeme) : x.lower 0 = x := rfl

@[simp]
lemma LocatedToken.lower_zero (t : LocatedToken) : t.lower 0 = t := rfl

namespace Cursor

variable {c : Cursor}

def lower (k : Nat) (c : Cursor) : Cursor :=
  { c with location := c.location.lower k }

lemma endOf_lower (k : Nat) (l : Location) (bs : List UInt8) (r : Reading) :
    endOf (l.lower k) bs r = (endOf l bs r).lower k := by
  unfold endOf
  dsimp only
  split
  · exact Location.after_lower k l _
  · rfl

lemma read_lower (k : Nat) (c : Cursor) :
    (c.lower k).read = (c.read.1.lower k, c.read.2.lower k) := by
  unfold read
  dsimp only [lower]
  split
  · rfl
  · simp only [endOf_lower]
    rfl

lemma precedes_read (c : Cursor) :
    c.location.Precedes c.read.1.location ∧ c.location.Precedes c.read.2.location := by
  unfold read
  split
  · exact ⟨.inr ⟨rfl, le_rfl⟩, .inr ⟨rfl, le_rfl⟩⟩
  · refine ⟨.inr ⟨rfl, le_rfl⟩, ?_⟩
    unfold endOf
    dsimp only
    split
    · exact Location.precedes_after _ _
    · exact .inr ⟨rfl, Nat.le_add_right _ _⟩

end Cursor

namespace Lexemes

def lower (k : Nat) (xs : Lexemes) : Lexemes :=
  { list := xs.list.map (·.lower k), stop := xs.stop.lower k }

variable {c : Cursor}

theorem ofCursor_lower (k : Nat) (c : Cursor) : ofCursor (c.lower k) = (ofCursor c).lower k := by
  fun_induction ofCursor c with
  | case1 c h => rw [ofCursor_nil (c := c.lower k) h]; rfl
  | case2 c h reading following ih =>
    rw [ofCursor_read (c := c.lower k) h, Cursor.read_lower, ih]
    rfl

lemma ofCursor_line (n : Nat) (bs : List UInt8) :
    ofCursor { location := ⟨n, 0⟩, rest := bs } = (ofBytes bs).lower n := by
  rw [ofBytes, ← ofCursor_lower, Cursor.lower]
  congr 2
  simp [Location.lower, Location.start]

lemma precedes_ofCursor (c : Cursor) : ∀ x ∈ (ofCursor c).list, c.location.Precedes x.location := by
  fun_induction ofCursor c with
  | case1 c h => simp
  | case2 c h reading following ih =>
    obtain ⟨hfirst, hnext⟩ := Cursor.precedes_read c
    intro x hx
    rcases List.mem_cons.1 hx with rfl | hx
    · exact hfirst
    · exact hnext.trans (ih x hx)

/-- The place where a text begins does not change its tokens and their faults. -/
theorem tokens_ofCursor (l m : Location) (bs : List UInt8) :
    (ofCursor ⟨l, bs⟩).list.map (fun x => (x.token, x.fault)) =
      (ofCursor ⟨m, bs⟩).list.map (fun x => (x.token, x.fault)) := by
  induction h : bs.length using Nat.strong_induction_on generalizing l m bs with
  | _ length ih =>
    subst h
    cases bs with
    | nil => rw [ofCursor_nil rfl, ofCursor_nil rfl]
    | cons b bs =>
      have hshorter := (Reading.read_rest b bs).2
      rw [ofCursor_read (c := ⟨l, b :: bs⟩) (by simp), ofCursor_read (c := ⟨m, b :: bs⟩) (by simp),
        List.map_cons, List.map_cons]
      exact congrArg _ (ih _ hshorter _ _ _ rfl)

lemma stop_newline (hlast : EndsLine (ofCursor c).list) (hc : c.rest ≠ []) :
    ∃ n, (ofCursor c).stop = ⟨n + 1, 0⟩ := by
  fun_induction ofCursor c with
  | case1 c h => exact absurd h hc
  | case2 c h reading following ih =>
    by_cases hend : reading.2.rest = []
    · have hnewline : reading.1.token = .newline := by
        apply hlast
        simp [following, list_ofCursor_eq_nil.2 hend]
      have hread := Cursor.read_of_break (Cursor.read_newline hnewline)
      have hstop : following.stop = reading.2.location := by
        simp only [following, ofCursor_nil hend]
      refine ⟨c.location.line, ?_⟩
      simp only [hstop, reading]
      rw [hread]
      rfl
    · exact ih hlast.tail hend

end Lexemes

end Shading
