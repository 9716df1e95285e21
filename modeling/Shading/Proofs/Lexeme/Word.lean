import Shading.Proofs.Lexeme.Place
import Shading.Proofs.Text.Encoding

/-!
# Words at the front of a text

An identifier is read back from its own bytes wherever nothing behind it could belong to it, and blanks
in front of a text are one lexeme together with those at its beginning.
-/

namespace Shading

open Text

lemma Identifier.canStart_only {b : UInt8} (h : canStart b = true) :
    isBreak b = false ∧ isBlank b = false ∧ isDigitIn 10 b = false ∧
      b ≠ ascii '\\' ∧ b ≠ ascii '/' ∧ b ≠ ascii '"' ∧ b ≠ ascii '.' := by
  revert b
  decide +kernel

namespace Reading

lemma read_identifier {b : UInt8} {bs back : List UInt8} (h : Identifier.spells (b :: bs) = true)
    (hback : back.head?.any Identifier.canContinue = false) :
    read b (bs ++ back) = { token := .identifier (decode (b :: bs)), rest := back } := by
  obtain ⟨hstart, hall⟩ : Identifier.canStart b = true ∧ ∀ c ∈ bs, Identifier.canContinue c = true := by
    simpa [Identifier.spells] using h
  obtain ⟨hbreak, hblank, hdigit, hbackslash, hslash, hquote, hdot⟩ := Identifier.canStart_only hstart
  have htake : (bs ++ back).takeWhile Identifier.canContinue = bs ∧
      (bs ++ back).dropWhile Identifier.canContinue = back := by
    rw [List.takeWhile_append_of_pos hall, List.dropWhile_append_of_pos hall]
    cases back with
    | nil => simp
    | cons c back => simp [show Identifier.canContinue c = false from hback]
  unfold read
  rw [afterBreak?_cons_eq_none.2 hbreak]
  dsimp only
  rw [if_neg (by simp [startsBlanks, hblank, hbackslash]), if_neg (by simp [hslash]),
    if_neg (by simp [hslash]), if_neg hquote, if_neg (by simp [startsNumeral, hdigit, hdot]),
    if_pos hstart, htake.2, List.takeWhile_cons_of_pos (by simp [Identifier.canContinue, hstart]),
    htake.1]

lemma skipBlanks_of_startsBlanks {b : UInt8} {bs : List UInt8} (h : startsBlanks b bs = false) :
    skipBlanks (b :: bs) = b :: bs := by
  obtain ⟨hblank, hbackslash⟩ := Bool.or_eq_false_iff.1 h
  rw [skipBlanks, if_neg (by simp [hblank])]
  split
  next hb =>
    have hnone : afterBreak? bs = none := by simpa [hb] using hbackslash
    split
    next hsome => simp [hnone] at hsome
    · rfl
  · rfl

lemma skipBlanks_space (bs : List UInt8) : skipBlanks (ascii ' ' :: bs) = skipBlanks bs := by
  rw [skipBlanks, if_pos (by rfl)]

end Reading

namespace Cursor

variable {l : Location} {back : List UInt8}

lemma read_word {name : String} (h : Identifier.isValid name = true)
    (hback : back.head?.any Identifier.canContinue = false) :
    read ⟨l, bytes name ++ back⟩ =
      ({ location := l, token := .identifier name }, ⟨l.right name.utf8ByteSize, back⟩) := by
  unfold Identifier.isValid at h
  cases hbytes : bytes name with
  | nil =>
    rw [hbytes] at h
    cases h
  | cons b bs =>
    rw [hbytes] at h
    have hread := Reading.read_identifier h hback
    have hend := endOf_append l (b :: bs) (Reading.read b (bs ++ back))
    rw [hread] at hend
    simp only [read, List.cons_append, hread]
    rw [← List.cons_append, hend, if_neg (by simp [Reading.spansLines]), ← hbytes, decode_bytes,
      length_bytes]

lemma read_blanks {b : UInt8} {bs consumed : List UInt8} (h : Reading.startsBlanks b bs = true)
    (hconsumed : b :: bs = consumed ++ Reading.skipBlanks (b :: bs)) (l : Location) :
    read ⟨l, b :: bs⟩ = ({ location := l, token := .blank },
      ⟨l.after consumed, Reading.skipBlanks (b :: bs)⟩) := by
  have hb : isBlank b = true ∨ b = ascii '\\' := by
    rw [Reading.startsBlanks, Bool.or_eq_true] at h
    exact h.imp id fun hb => by simpa using (Bool.and_eq_true_iff.1 hb).1
  have hbreak : ∀ b ∈ [ascii ' ', ascii '\t', ascii '\x0b', ascii '\x0c', ascii '\\'],
      isBreak b = false := by decide +kernel
  have hmem : b ∈ [ascii ' ', ascii '\t', ascii '\x0b', ascii '\x0c', ascii '\\'] := by
    simpa [isBlank, or_assoc] using hb
  have hread : Reading.read b bs = { token := .blank, rest := Reading.skipBlanks (b :: bs) } := by
    unfold Reading.read
    rw [afterBreak?_cons_eq_none.2 (hbreak b hmem)]
    dsimp only
    rw [if_pos h]
  have hend := endOf_append l consumed (Reading.read b bs)
  rw [hread] at hend
  dsimp only at hend
  rw [← hconsumed, if_pos (by rfl)] at hend
  simp only [read, hread, hend]

lemma read_space {bs : List UInt8} (h : Reading.skipBlanks bs = bs) (l : Location) :
    read ⟨l, ascii ' ' :: bs⟩ = ({ location := l, token := .blank }, ⟨l.right 1, bs⟩) := by
  have hskip : Reading.skipBlanks (ascii ' ' :: bs) = bs := (Reading.skipBlanks_space bs).trans h
  have hsplit : ascii ' ' :: bs = [ascii ' '] ++ Reading.skipBlanks (ascii ' ' :: bs) := by
    rw [hskip]
    rfl
  rw [read_blanks (by rfl) hsplit, hskip]
  rfl

lemma read_blank {name : String} (h : Identifier.isValid name = true) (l : Location)
    (back : List UInt8) :
    read ⟨l, ascii ' ' :: (bytes name ++ back)⟩ =
      ({ location := l, token := .blank }, ⟨l.right 1, bytes name ++ back⟩) := by
  refine read_space ?_ l
  unfold Identifier.isValid at h
  cases hbytes : bytes name with
  | nil =>
    rw [hbytes] at h
    cases h
  | cons b bs =>
    rw [hbytes, Identifier.spells, Bool.and_eq_true] at h
    obtain ⟨-, hblank, -, hbackslash, -⟩ := Identifier.canStart_only h.1
    exact Reading.skipBlanks_of_startsBlanks (by simp [Reading.startsBlanks, hblank, hbackslash])

lemma read_single {b : UInt8} {p : Punct} {back : List UInt8}
    (h : Reading.read b back = { token := .punct p, rest := back }) (l : Location) :
    read ⟨l, b :: back⟩ = ({ location := l, token := .punct p }, ⟨l.right 1, back⟩) := by
  have hend := endOf_append l [b] (Reading.read b back)
  rw [h] at hend
  simp only [read, h]
  exact congrArg _ (congrArg (Cursor.mk · back) hend)

lemma read_hash (l : Location) (back : List UInt8) :
    read ⟨l, ascii '#' :: back⟩ =
      ({ location := l, token := .punct .hash }, ⟨l.right 1, back⟩) :=
  read_single rfl l

lemma read_leftParen (l : Location) (back : List UInt8) :
    read ⟨l, ascii '(' :: back⟩ =
      ({ location := l, token := .punct .leftParen }, ⟨l.right 1, back⟩) :=
  read_single rfl l

end Cursor

namespace Lexemes

/-- The blanks at the beginning of a text are one lexeme, if there are any. -/
lemma ofCursor_skipBlanks {bs consumed : List UInt8} (hconsumed : bs = consumed ++ Reading.skipBlanks bs)
    (l : Location) :
    ∃ gap : List Lexeme, (∀ x ∈ gap, x.token = .blank ∧ x.fault = none) ∧ ofCursor ⟨l, bs⟩ =
      { list := gap ++ (ofCursor ⟨l.after consumed, Reading.skipBlanks bs⟩).list
        stop := (ofCursor ⟨l.after consumed, Reading.skipBlanks bs⟩).stop } := by
  by_cases hsame : Reading.skipBlanks bs = bs
  · rw [hsame] at hconsumed ⊢
    obtain rfl : consumed = [] := by simpa using hconsumed
    exact ⟨[], by simp, rfl⟩
  · cases bs with
    | nil => exact absurd (by rw [Reading.skipBlanks]) hsame
    | cons b bs =>
      cases hblanks : Reading.startsBlanks b bs with
      | false => exact absurd (Reading.skipBlanks_of_startsBlanks hblanks) hsame
      | true =>
        rw [ofCursor_read (c := ⟨l, b :: bs⟩) (by simp), Cursor.read_blanks hblanks hconsumed]
        exact ⟨[{ location := l, token := .blank }], by simp, rfl⟩

lemma ofCursor_blank (l : Location) (bs : List UInt8) :
    ∃ gap back, (∀ x ∈ gap, x.token = .blank ∧ x.fault = none) ∧
      (ofCursor ⟨l.right 1, bs⟩).list = gap ++ back ∧
      ofCursor ⟨l, ascii ' ' :: bs⟩ =
        { list := { location := l, token := .blank } :: back
          stop := (ofCursor ⟨l.right 1, bs⟩).stop } := by
  obtain ⟨consumed, hconsumed⟩ := Reading.skipBlanks_suffix bs
  have hskip := Reading.skipBlanks_space bs
  have hafter : l.after (ascii ' ' :: consumed) = (l.right 1).after consumed := by
    rw [Location.after, if_neg (by simp [show ascii ' ' ≠ ascii '\r' by decide]), if_neg (by decide)]
  have hsplit : ascii ' ' :: bs = (ascii ' ' :: consumed) ++ Reading.skipBlanks (ascii ' ' :: bs) := by
    rw [hskip, List.cons_append, hconsumed]
  have hread := Cursor.read_blanks (by rfl) hsplit l
  obtain ⟨gap, hgap, hbs⟩ := ofCursor_skipBlanks hconsumed.symm (l.right 1)
  rw [hskip, hafter] at hread
  rw [ofCursor_read (c := ⟨l, ascii ' ' :: bs⟩) (by simp), hread, hbs]
  exact ⟨gap, _, hgap, rfl, rfl⟩

end Lexemes

end Shading
