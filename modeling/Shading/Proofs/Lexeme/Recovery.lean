import Shading.Proofs.Lexeme.Exact
import Shading.Proofs.Lexeme.Faults

/-!
# Recovery behind unexpected characters

A character that begins no token is passed over together with the bytes that its first byte announces. In
a text these are the bytes of the character and nothing else. Where a character is cut short, the bytes that
cut it short are lost with it.
-/

namespace Shading

namespace Reading

open Text

variable {b : UInt8} {bs : List UInt8} {shown : String}

/-- Nothing but an unexpected character is reported as one. -/
theorem read_eq_unexpected (h : (read b bs).fault = some (.error (.unexpectedCharacter shown))) :
    isBreak b = false ∧ read b bs = unexpected b bs := by
  have hread := isReading_read b bs
  generalize hr : read b bs = r at *
  cases hread with
  | unexpected hb => exact ⟨hb, rfl⟩
  | @numeral n rest hnumeral =>
    cases hoverflow : n.token.2 <;> simp [hoverflow] at h
  | @malformed cause rest hmalformed =>
    have hcause := Numeral.failsKnown_read (b :: bs) cause (by rw [hmalformed])
    obtain rfl : cause = .unexpectedCharacter shown := by simpa [invalid] using h
    simp [Numeral.causes] at hcause
  | _ => simp [invalid] at h

/-- The bytes behind `b` that are taken for the rest of its character. -/
def announced (b : UInt8) (bs : List UInt8) : List UInt8 :=
  bs.take (announcedLength b - 1)

lemma unexpected_rest (b : UInt8) (bs : List UInt8) :
    b :: bs = (b :: announced b bs) ++ (unexpected b bs).rest := by
  have hlength := announcedLength_pos b
  obtain ⟨n, hn⟩ := Nat.exists_eq_succ_of_ne_zero hlength.ne'
  have hrest : (unexpected b bs).rest = (b :: bs).drop (announcedLength b) := rfl
  rw [hrest, announced, hn, List.drop_succ_cons, Nat.succ_sub_one, List.cons_append,
    List.take_append_drop]

lemma take_any_isAscii (n : Nat) (bs : List UInt8) :
    (bs.take n).any isAscii = true ↔ (bs.takeWhile (!isAscii ·)).length < (bs.take n).length := by
  constructor
  · intro hany
    by_contra hlong
    have hfront : bs.take n <+: bs.takeWhile (!isAscii ·) :=
      List.prefix_of_prefix_length_le (List.take_prefix n bs) (List.takeWhile_prefix _) (by omega)
    obtain ⟨c, hc, hascii⟩ := List.any_eq_true.1 hany
    have hother := List.mem_takeWhile_imp (hfront.subset hc)
    simp [hascii] at hother
  · intro hshort
    by_contra hany
    have hall : ∀ c ∈ bs.take n, (!isAscii c) = true := by simpa using hany
    have hlong : (bs.take n).length ≤ (bs.takeWhile (!isAscii ·)).length := by
      conv => rhs; rw [← List.take_append_drop n bs]
      rw [List.takeWhile_append_of_pos hall, List.length_append]
      exact Nat.le_add_right _ _
    omega

/-- In the bytes of a text the first byte announces exactly the rest of its character. -/
lemma announced_text {s : String} (hs : b :: bs = bytes s) :
    ∃ (c : Char) (t : String), s = String.ofList [c] ++ t ∧ b :: announced b bs = bytes (String.ofList [c]) ∧
      (announced b bs).any isAscii = false := by
  obtain ⟨cs, rfl⟩ : ∃ cs, s = String.ofList cs := ⟨s.toList, String.ofList_toList.symm⟩
  cases cs with
  | nil => cases hs
  | cons c cs =>
    obtain ⟨d, tail, hchar⟩ := List.exists_cons_of_ne_nil (String.utf8EncodeChar_ne_nil (c := c))
    rw [bytes_cons, hchar, List.cons_append] at hs
    obtain ⟨rfl, rfl⟩ := List.cons.inj hs
    have hannounced : announced b (tail ++ bytes (String.ofList cs)) = tail := by
      rw [announced, announcedLength_encoded hchar, List.length_cons, Nat.add_sub_cancel, List.take_left]
    refine ⟨c, String.ofList cs, ?_, ?_, ?_⟩
    · rw [← String.ofList_append]
      rfl
    · rw [hannounced, bytes_singleton, hchar]
    · rw [hannounced]
      rcases encoded_cases c with ⟨-, hsingle⟩ | ⟨-, hhigh⟩
      · obtain rfl : [] = tail := (List.cons.inj (hsingle.symm.trans hchar)).2
        rfl
      · rw [hchar] at hhigh
        exact List.any_eq_false.2 fun x hx => by simp [hhigh x (List.mem_cons_of_mem b hx)]

end Reading

namespace Cursor

open Reading Text

variable {c : Cursor} {shown : String}

lemma read_unexpected (h : c.read.1.fault = some (.error (.unexpectedCharacter shown))) :
    ∃ b bs, c.rest = b :: bs ∧ isBreak b = false ∧ c.taken = b :: announced b bs ∧
      c.read.2.location = c.location.right c.taken.length := by
  obtain ⟨location, _ | ⟨b, bs⟩⟩ := c
  · cases h
  obtain ⟨hb, hread⟩ := read_eq_unexpected h
  have hrest : (read ⟨location, b :: bs⟩).2.rest = (unexpected b bs).rest := congrArg Reading.rest hread
  have htaken : taken ⟨location, b :: bs⟩ = b :: announced b bs := by
    apply taken_eq
    rw [hrest]
    exact unexpected_rest b bs
  refine ⟨b, bs, rfl, hb, htaken, ?_⟩
  have hend : (read ⟨location, b :: bs⟩).2.location = endOf location (b :: bs) (Reading.read b bs) := rfl
  rw [hend, hread]
  unfold endOf taken
  rw [hrest]
  rfl

/-- An unexpected character takes the bytes that its first byte announces. Among them are bytes of ASCII
exactly if fewer others follow than are taken, and the place behind them is that of the rest exactly if
there is no line break among them. In a text one character is taken, and none of this happens. -/
theorem unexpected_takes (h : c.read.1.fault = some (.error (.unexpectedCharacter shown))) :
    ∃ b bs, c.rest = b :: bs ∧ c.taken = b :: announced b bs ∧ c.read.2.rest = bs.drop (announcedLength b - 1) ∧
      ((announced b bs).any isAscii = true ↔
        (bs.takeWhile (!isAscii ·)).length < (announced b bs).length) ∧
      (c.read.2.location = c.location.after c.taken ↔ (announced b bs).any isBreak = false) ∧
      ∀ s : String, c.rest = bytes s → (announced b bs).any isAscii = false ∧
        ∃ (d : Char) (t : String), s = String.ofList [d] ++ t ∧ c.taken = bytes (String.ofList [d]) ∧
          Lexemes.ofCursor c.read.2 = Lexemes.ofCursor ⟨c.location.after c.taken, bytes t⟩ := by
  obtain ⟨b, bs, hc, hb, htaken, hplace⟩ := read_unexpected h
  have hsplit : bs = announced b bs ++ c.read.2.rest := by
    have htiles := c.rest_eq_taken
    rw [hc, htaken] at htiles
    exact (List.cons.inj htiles).2
  have hinline : (announced b bs).any isBreak = false → c.read.2.location = c.location.after c.taken := by
    intro hannounced
    rw [hplace, Location.after_inline]
    rw [htaken, List.any_cons, hb, hannounced]
    rfl
  refine ⟨b, bs, hc, htaken, ?_, take_any_isAscii _ bs, ⟨?_, hinline⟩, ?_⟩
  · rw [announced] at hsplit
    exact List.append_cancel_left (hsplit.symm.trans (List.take_append_drop _ bs).symm)
  · intro hexact
    by_contra hbreak
    have hany : c.taken.any isBreak = true := by
      rw [htaken, List.any_cons, Bool.eq_true_of_not_eq_false hbreak, Bool.or_true]
    have hlater := c.location.line_lt_after hany
    rw [← hexact, hplace] at hlater
    exact lt_irrefl _ hlater
  · intro s hs
    obtain ⟨d, t, rfl, hchar, hother⟩ := announced_text (hc.symm.trans hs)
    have hrest : c.read.2.rest = bytes t := by
      apply @List.append_cancel_left _ c.taken
      rw [← rest_eq_taken, htaken, hchar, ← bytes_append, hs]
    have hnobreak : (announced b bs).any isBreak = false := by
      rw [List.any_eq_false] at hother ⊢
      exact fun x hx hbreak => hother x hx (isAscii_of_isBreak hbreak)
    refine ⟨hother, d, t, rfl, htaken.trans hchar, ?_⟩
    rw [← hinline hnobreak, ← hrest]

/-- The first byte of a character of two bytes, with a line break behind it: the break is lost, and the name
on the next line is read as if it stood on the first. -/
theorem unexpected_takes_break :
    ¬(∀ (c : Cursor) (shown : String), c.read.1.fault = some (.error (.unexpectedCharacter shown)) →
        c.taken.tail.any isAscii = false) ∧
      (Lexemes.ofBytes (0xC3 :: bytes "\nx")).list.map Lexeme.located =
        [⟨⟨0, 0⟩, .invalid⟩, ⟨⟨0, 2⟩, .identifier "x"⟩] := by
  refine ⟨?_, by decide +kernel⟩
  intro hclaim
  have htail := hclaim { rest := 0xC3 :: bytes "\nx" } "0xc3" (by decide +kernel)
  revert htail
  decide +kernel

/-- A character of two bytes with a punctuator behind it. -/
theorem unexpected_takes_character :
    (read { rest := bytes "é;" }).1.fault = some (.error (.unexpectedCharacter "'é'")) ∧
      taken { rest := bytes "é;" } = bytes "é" := by
  have hfault : (read { rest := bytes "é;" }).1.fault = some (.error (.unexpectedCharacter "'é'")) := by
    decide +kernel
  obtain ⟨b, bs, -, -, -, -, -, htext⟩ := unexpected_takes hfault
  obtain ⟨-, d, t, hsplit, htaken, -⟩ := htext "é;" rfl
  refine ⟨hfault, htaken.trans ?_⟩
  obtain ⟨rfl, -⟩ : d = 'é' ∧ t.toList = [';'] := by
    simpa [eq_comm] using congrArg String.toList hsplit
  rfl

end Cursor

end Shading
