import Shading.Numeral
import Shading.Proofs.Text.Encoding

/-!
# The bytes of a constant

A numeric constant, also a malformed one, is made of letters, digits, underscores, points and signs. These
are ASCII bytes of one line, so it ends neither within a character nor within a line break.
-/

namespace Shading

namespace Text

/-- Whether the byte is a character of its own that does not end the line. -/
def isSimple (b : UInt8) : Bool :=
  isAscii b && !isBreak b

/-- Only simple bytes stand in front of the rest. -/
def SimpleTo (bs rest : List UInt8) : Prop :=
  ∃ consumed, bs = consumed ++ rest ∧ ∀ b ∈ consumed, isSimple b = true

/-- All bytes in front of the rest satisfy the predicate. -/
def AllTo (p : UInt8 → Bool) (bs rest : List UInt8) : Prop :=
  ∃ consumed, bs = consumed ++ rest ∧ ∀ b ∈ consumed, p b = true

namespace AllTo

variable {bs middle rest front : List UInt8} {p q : UInt8 → Bool}

lemma refl (bs : List UInt8) : AllTo p bs bs :=
  ⟨[], rfl, by simp⟩

lemma trans (h : AllTo p bs middle) (h' : AllTo p middle rest) : AllTo p bs rest := by
  obtain ⟨front, rfl, hfront⟩ := h
  obtain ⟨back, rfl, hback⟩ := h'
  refine ⟨front ++ back, (List.append_assoc _ _ _).symm, ?_⟩
  intro b hb
  exact (List.mem_append.1 hb).elim (hfront b) (hback b)

lemma mono (h : AllTo p bs rest) (hpq : ∀ b, p b = true → q b = true) : AllTo q bs rest := by
  obtain ⟨consumed, hconsumed, hall⟩ := h
  exact ⟨consumed, hconsumed, fun b hb => hpq b (hall b hb)⟩

lemma dropWhile (hp : ∀ b, q b = true → p b = true) (bs : List UInt8) : AllTo p bs (bs.dropWhile q) :=
  ⟨bs.takeWhile q, List.takeWhile_append_dropWhile.symm, fun b hb => hp b (List.mem_takeWhile_imp hb)⟩

lemma tail (hp : ∀ b, q b = true → p b = true) (h : Numeral.startsWith q bs = true) :
    AllTo p bs bs.tail := by
  cases bs with
  | nil => exact refl []
  | cons b bs => exact ⟨[b], rfl, by simpa using hp b h⟩

lemma drop (hfront : ∀ b ∈ front, p b = true) (h : front.isPrefixOf bs = true) :
    AllTo p bs (bs.drop front.length) := by
  obtain ⟨rest, rfl⟩ := List.isPrefixOf_iff_prefix.1 h
  exact ⟨front, by rw [List.drop_left], hfront⟩

lemma append {b : UInt8} {back : List UInt8} (hb : p b = false) (h : AllTo p (bs ++ b :: back) rest) :
    ∃ rest', rest = rest' ++ b :: back ∧ AllTo p bs rest' := by
  obtain ⟨consumed, hconsumed, hall⟩ := h
  rcases List.append_eq_append_iff.1 hconsumed with ⟨stop, rfl, hstop⟩ | ⟨rest', rfl, hrest⟩
  · cases stop with
    | nil => exact ⟨[], hstop.symm, bs, by simp, fun c hc => hall c (by simpa using hc)⟩
    | cons c stop =>
      obtain ⟨rfl, -⟩ := List.cons.inj hstop
      rw [hall b (by simp)] at hb
      cases hb
  · exact ⟨rest', hrest, consumed, rfl, hall⟩

end AllTo

end Text

open Text

lemma Identifier.isSimple_of_canContinue :
    ∀ b : UInt8, canContinue b = true → isSimple b = true := by
  decide +kernel

namespace Numeral

/-- Whether the byte may stand in a constant. -/
def isPart (b : UInt8) : Bool :=
  isRemnant b || b = ascii '+' || b = ascii '-'

lemma isSimple_of_isPart (b : UInt8) (h : isPart b = true) : isSimple b = true := by
  have hother : ∀ b ∈ [ascii '.', ascii '+', ascii '-'], isSimple b = true := by decide +kernel
  have hcases : Identifier.canContinue b = true ∨ b ∈ [ascii '.', ascii '+', ascii '-'] := by
    simpa [isPart, isRemnant, or_assoc] using h
  exact hcases.elim (Identifier.isSimple_of_canContinue b) (hother b)

lemma isPart_of_isDigitIn : ∀ b : UInt8, isDigitIn 16 b = true → isPart b = true := by
  decide +kernel

lemma isPart_of_isDecimal (b : UInt8) (h : isDigitIn 10 b = true) : isPart b = true := by
  apply isPart_of_isDigitIn
  simp only [isDigitIn, decide_eq_true_eq] at h ⊢
  omega

lemma isPart_of_mem (letters : List UInt8) (hletters : letters.all isPart = true) {p : UInt8 → Bool}
    (hp : ∀ b, p b = true → b ∈ letters) (b : UInt8) (h : p b = true) : isPart b = true :=
  List.all_eq_true.1 hletters b (hp b h)

lemma malformed_allTo (cause : LexicalError) (rest : List UInt8) :
    AllTo isPart rest (malformed cause rest).rest :=
  .dropWhile (fun b hb => by simp [isPart, hb]) rest

lemma finish_allTo (numeral : Numeral) (cause : LexicalError) (rest : List UInt8) :
    AllTo isPart rest (finish numeral cause rest).rest := by
  unfold finish
  split
  · exact malformed_allTo cause rest
  · exact .refl rest

lemma readInteger_allTo (radix : Nat) (digits rest : List UInt8) :
    AllTo isPart rest (readInteger radix digits rest).rest := by
  unfold readInteger
  refine .trans ?_ (finish_allTo _ _ _)
  split
  next h => exact .tail (isPart_of_mem [ascii 'u', ascii 'U'] rfl (by simp)) h
  · exact .refl rest

lemma readFloatSuffix_allTo (rest : List UInt8) : AllTo isPart rest (readFloatSuffix rest).2 := by
  unfold readFloatSuffix
  split
  next h =>
    rcases (Bool.or_eq_true _ _).mp h with hlower | hupper
    · exact .drop (List.all_eq_true.1 rfl) hlower
    · exact .drop (List.all_eq_true.1 rfl) hupper
  · split
    next h => exact .tail (isPart_of_mem [ascii 'f', ascii 'F'] rfl (by simp)) h
    · exact .refl rest

lemma readFraction_allTo (rest : List UInt8) : AllTo isPart rest (readFraction rest).2 := by
  unfold readFraction
  split
  next h =>
    have hpoint : AllTo isPart rest rest.tail := .tail (isPart_of_mem [ascii '.'] rfl (by simp)) h
    exact hpoint.trans (.dropWhile isPart_of_isDecimal _)
  · exact .refl rest

lemma readExponent_allTo (rest : List UInt8) : AllTo isPart rest (readExponent rest).2 := by
  unfold readExponent
  split
  next h =>
    have hletter : AllTo isPart rest rest.tail := .tail (isPart_of_mem [ascii 'e', ascii 'E'] rfl (by simp)) h
    refine hletter.trans (.trans ?_ (.dropWhile isPart_of_isDecimal _))
    split
    next hsigned =>
      rcases (Bool.or_eq_true _ _).mp hsigned with hsign | hsign
      · exact .tail (isPart_of_mem [ascii '-'] rfl (by simp)) hsign
      · exact .tail (isPart_of_mem [ascii '+'] rfl (by simp)) hsign
    · exact .refl _
  · exact .refl rest

lemma readHexadecimal_allTo (rest : List UInt8) : AllTo isPart rest (readHexadecimal rest).rest := by
  unfold readHexadecimal
  dsimp only
  refine (AllTo.dropWhile isPart_of_isDigitIn rest).trans ?_
  split
  · exact malformed_allTo _ _
  · exact readInteger_allTo _ _ _

lemma readWhole_allTo (digits rest : List UInt8) : AllTo isPart rest (readWhole digits rest).rest := by
  unfold readWhole
  split
  · split
    · exact readInteger_allTo _ _ _
    · exact malformed_allTo _ _
  · exact readInteger_allTo _ _ _

lemma readFloating_allTo (whole fraction : List UInt8) (exponent : Int) (rest : List UInt8) :
    AllTo isPart rest (readFloating whole fraction exponent rest).rest :=
  (readFloatSuffix_allTo rest).trans (finish_allTo _ _ _)

lemma readDecimal_allTo (bs : List UInt8) : AllTo isPart bs (readDecimal bs).rest := by
  unfold readDecimal
  dsimp only
  refine (AllTo.dropWhile isPart_of_isDecimal bs).trans
    ((readFraction_allTo _).trans ((readExponent_allTo _).trans ?_))
  split
  · exact malformed_allTo _ _
  · split
    · exact readFloating_allTo _ _ _ _
    · exact readWhole_allTo _ _

/-- A constant, also a malformed one, takes only bytes that may stand in one. -/
theorem read_allTo (bs : List UInt8) : AllTo isPart bs (read bs).rest := by
  unfold read
  split
  next h =>
    refine .trans ?_ (readHexadecimal_allTo _)
    rcases (Bool.or_eq_true _ _).mp h with hlower | hupper
    · exact .drop (List.all_eq_true.1 rfl) hlower
    · exact .drop (List.all_eq_true.1 rfl) hupper
  · exact readDecimal_allTo bs

end Numeral

end Shading
