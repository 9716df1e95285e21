import Shading.Proofs.Lexeme.Tiling
import Shading.Proofs.Lexeme.Word
import Shading.Proofs.Numeral.Simple

/-!
# Names in a text

A name is read from its own bytes, and every name that is read is an identifier. What is left of the lexemes of
a text is read from a cursor in it.
-/

namespace Shading

open Text

lemma Identifier.exists_name {b : UInt8} (hb : canStart b = true) (bs : List UInt8) :
    ∃ name, bytes name = b :: bs.takeWhile canContinue ∧ isValid name = true := by
  have hascii (c : UInt8) (hc : canContinue c = true) : isAscii c = true :=
    (Bool.and_eq_true_iff.1 (isSimple_of_canContinue c hc)).1
  obtain ⟨name, hname⟩ : ∃ name, bytes name = b :: bs.takeWhile canContinue := by
    apply exists_ascii_text
    refine List.forall_mem_cons.2 ⟨hascii b (by simp [canContinue, hb]), fun c hc => ?_⟩
    exact hascii c (List.mem_takeWhile_imp hc)
  refine ⟨name, hname, ?_⟩
  rw [isValid, hname, spells, hb, Bool.true_and, List.all_takeWhile]

lemma Numeral.name?_token (n : Numeral) : n.token.1.name? = none := by
  cases n with
  | integer radix digits unsigned => cases unsigned <;> rfl
  | floating whole fraction exponent suffix =>
    unfold token
    dsimp only
    split <;> rfl

namespace Reading

lemma name?_numeral (bs : List UInt8) : (readNumeral bs).token.name? = none := by
  unfold readNumeral
  dsimp only
  split
  · rfl
  next numeral _ => exact numeral.name?_token

lemma name?_string (bs : List UInt8) : (readString bs).token.name? = none := by
  unfold readString
  dsimp only
  split
  · rfl
  · split <;> rfl

lemma name_read (b : UInt8) (bs : List UInt8) : ∀ name ∈ (read b bs).token.name?,
    Identifier.isValid name = true ∧ (read b bs).fault = none ∧
      b :: bs = bytes name ++ (read b bs).rest := by
  have hother {r : Reading} (h : r.token.name? = none) : ∀ name ∈ r.token.name?,
      Identifier.isValid name = true ∧ r.fault = none ∧ b :: bs = bytes name ++ r.rest := by
    rw [h]
    nofun
  apply read_cases (motive := fun r => ∀ name ∈ r.token.name?,
    Identifier.isValid name = true ∧ r.fault = none ∧ b :: bs = bytes name ++ r.rest)
  case string => exact fun _ => hother (name?_string bs)
  case numeral => exact fun _ => hother (name?_numeral _)
  case identifier =>
    intro hb
    obtain ⟨name, hname, hvalid⟩ := Identifier.exists_name hb bs
    have htake : (b :: bs).takeWhile Identifier.canContinue = bytes name := by
      rw [List.takeWhile_cons_of_pos (by simp [Identifier.canContinue, hb]), hname]
    rintro _ ⟨⟩
    rw [htake, decode_bytes]
    refine ⟨hvalid, rfl, ?_⟩
    rw [hname, List.cons_append, List.takeWhile_append_dropWhile]
  case blank | unterminatedComment | unexpected => exact fun _ => hother rfl
  case newline | lineComment | punct => exact fun _ _ => hother rfl
  case blockComment => exact fun _ _ _ _ => hother rfl

end Reading

lemma Cursor.name_read {c : Cursor} {name : String} (h : c.read.1.token = .identifier name) :
    Identifier.isValid name = true ∧ c.taken = bytes name ∧
      c.read.2.location = c.location.right name.utf8ByteSize := by
  obtain ⟨location, _ | ⟨b, bs⟩⟩ := c
  · cases h
  have htoken : (Reading.read b bs).token = .identifier name := h
  obtain ⟨hvalid, hfault, hbytes⟩ := Reading.name_read b bs name (by rw [htoken]; rfl)
  have hend := endOf_append location (bytes name) (Reading.read b bs)
  rw [← hbytes, if_neg (by simp [Reading.spansLines, htoken, hfault]), length_bytes] at hend
  have htaken := (Cursor.mk location (b :: bs)).rest_eq_taken
  exact ⟨hvalid, List.append_cancel_right (htaken.symm.trans hbytes), hend⟩

namespace Lexemes

variable {c : Cursor} {x : Lexeme} {xs : List Lexeme}

lemma valid_of_identifier (c : Cursor) : ∀ x ∈ (ofCursor c).list, ∀ name, x.token = .identifier name →
    Identifier.isValid name = true := by
  fun_induction ofCursor c with
  | case1 c h => simp
  | case2 c h reading following ih =>
    intro x hx name hname
    rcases List.mem_cons.1 hx with rfl | hx
    · exact (Cursor.name_read hname).1
    · exact ih x hx name hname

/-- What is left of the lexemes of a text is what is read from some cursor in it. -/
lemma exists_afterReads (h : xs <:+ (ofCursor c).list) : ∃ n, (ofCursor (c.afterReads n)).list = xs := by
  fun_induction ofCursor c with
  | case1 c hc =>
    refine ⟨0, ?_⟩
    rw [List.suffix_nil.1 h]
    exact congrArg Lexemes.list (ofCursor_nil hc)
  | case2 c hc reading following ih =>
    rcases List.suffix_cons_iff.1 h with rfl | h
    · refine ⟨0, ?_⟩
      exact congrArg Lexemes.list (ofCursor_read hc)
    · obtain ⟨n, hn⟩ := ih h
      exact ⟨n + 1, hn⟩

lemma ofCursor_eq_cons (h : (ofCursor c).list = x :: xs) :
    c.read.1 = x ∧ (ofCursor c.read.2).list = xs := by
  have hc : c.rest ≠ [] := by
    intro hnil
    rw [ofCursor_nil hnil] at h
    cases h
  rw [ofCursor_read hc] at h
  exact List.cons.inj h

end Lexemes

end Shading
