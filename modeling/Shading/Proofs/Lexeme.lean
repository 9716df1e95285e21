import Mathlib
import Shading.Compiler

/-!
# Lexemes before the end of a source

No lexeme of a source is the end of one, so no macro holds an end.
-/

namespace Shading

lemma Numeral.token_ne (n : Numeral) : n.token.1 ≠ .eof ∧ n.token.1 ≠ .newline := by
  cases n with
  | integer radix digits unsigned => cases unsigned <;> simp [token]
  | floating whole fraction exponent suffix =>
    unfold token
    dsimp only
    split <;> simp

/-- A token that is read is no end, and a line break has no fault. -/
def Reading.IsProper (r : Reading) : Prop :=
  r.token ≠ .eof ∧ (r.token = .newline → r.fault = none)

lemma Reading.isProper_of_ne {r : Reading} (heof : r.token ≠ .eof) (hnewline : r.token ≠ .newline) :
    r.IsProper := by
  refine ⟨heof, ?_⟩
  intro h
  exact absurd h hnewline

lemma Reading.isProper_invalid (cause : LexicalError) (rest : List UInt8) :
    (invalid cause rest).IsProper := by
  apply isProper_of_ne <;> simp [invalid]

lemma Reading.isProper_numeral (bs : List UInt8) : (readNumeral bs).IsProper := by
  unfold readNumeral
  dsimp only
  split
  · exact isProper_invalid _ _
  next numeral _ =>
    obtain ⟨heof, hnewline⟩ := numeral.token_ne
    exact isProper_of_ne heof hnewline

lemma Reading.isProper_string (bs : List UInt8) : (readString bs).IsProper := by
  unfold readString
  dsimp only
  split
  · exact isProper_invalid _ _
  · split
    · apply isProper_of_ne <;> simp
    · exact isProper_invalid _ _

lemma Reading.isProper_read (b : UInt8) (bs : List UInt8) : (read b bs).IsProper := by
  apply read_cases (motive := IsProper)
  case newline => exact fun _ _ => ⟨by simp, fun _ => rfl⟩
  case unterminatedComment => exact fun _ => isProper_invalid _ _
  case string => exact fun _ => isProper_string bs
  case numeral => exact fun _ => isProper_numeral _
  case unexpected => exact fun _ => isProper_invalid _ _
  all_goals
    intros
    apply isProper_of_ne <;> simp

lemma Cursor.read_proper {c : Cursor} (h : c.rest ≠ []) :
    c.read.1.token ≠ .eof ∧ (c.read.1.token = .newline → c.read.1.fault = none) := by
  unfold read
  split
  next hc => exact absurd hc h
  · exact Reading.isProper_read _ _

lemma Lexemes.ofCursor_nil {c : Cursor} (h : c.rest = []) :
    ofCursor c = { list := [], stop := c.location } := by
  rw [ofCursor, dif_pos h]

lemma Lexemes.ofCursor_read {c : Cursor} (h : c.rest ≠ []) :
    ofCursor c =
      { list := c.read.1 :: (ofCursor c.read.2).list, stop := (ofCursor c.read.2).stop } := by
  rw [ofCursor, dif_neg h]

theorem Lexemes.ofCursor_proper (c : Cursor) :
    ∀ x ∈ (ofCursor c).list, x.token ≠ .eof ∧ (x.token = .newline → x.fault = none) := by
  fun_induction ofCursor c with
  | case1 c h => simp
  | case2 c h reading following ih =>
    intro x hx
    rcases List.mem_cons.1 hx with rfl | hx
    · exact Cursor.read_proper h
    · exact ih x hx

lemma Definition.capture_read {c c' : Cursor} {x : Lexeme} (hc : c.rest ≠ [])
    (hread : c.read = (x, c')) (hx : x.fault = none) :
    capture c = (capture c').map fun body => if x.token.isSkipped then body else x.located :: body := by
  rw [capture, dif_neg hc]
  simp only [hread, hx]

lemma Definition.capture_words (c : Cursor) :
    ∀ body, capture c = .ok body → ∀ t ∈ body, t.token ≠ .eof ∧ t.token.isSkipped = false := by
  fun_induction capture c with
  | case1 c hc =>
    intro body h
    obtain rfl := Except.ok.inj h
    simp
  | case2 c hc reading cause hfault =>
    intro body h
    cases h
  | case3 c hc reading hfault ih =>
    intro body h
    cases hfollowing : capture reading.2 with
    | error e =>
      rw [hfollowing] at h
      cases h
    | ok following =>
      rw [hfollowing] at h
      obtain rfl := Except.ok.inj h
      have hread : reading.1.token ≠ .eof := (Cursor.read_proper hc).1
      intro t ht
      dsimp only at ht
      cases hskipped : reading.1.token.isSkipped with
      | true =>
        rw [hskipped, if_pos rfl] at ht
        exact ih following hfollowing t ht
      | false =>
        rw [hskipped, if_neg Bool.false_ne_true] at ht
        rcases List.mem_cons.1 ht with rfl | ht
        · exact ⟨hread, hskipped⟩
        · exact ih following hfollowing t ht

end Shading
