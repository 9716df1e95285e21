import Shading.Numeral
import Shading.Proofs.Text.Joint

/-!
# Constants in front of a joint

No part of a numeric constant is a line break, so a constant does not depend on the text behind a
joint where a line break stands.
-/

namespace Shading

namespace Numeral

open Text

def Reading.append (r : Reading) (back : List UInt8) : Reading :=
  { r with rest := r.rest ++ back }

lemma inline_isDigitIn {radix : Nat} (h : radix ≤ 16) : Inline (isDigitIn radix) := by
  have hn : digitValue (ascii '\n') = 16 := by decide
  have hr : digitValue (ascii '\r') = 16 := by decide
  exact ⟨by simp [isDigitIn, hn, h], by simp [isDigitIn, hr, h]⟩

section Append

variable {rest back : List UInt8} (h : Apart rest back) {p : UInt8 → Bool}
include h

lemma startsWith_append (hp : Inline p) : startsWith p (rest ++ back) = startsWith p rest :=
  head?_append_apart h hp

omit h in
lemma ne_nil_of_startsWith {bs : List UInt8} (hbs : startsWith p bs = true) : bs ≠ [] := by
  rintro rfl
  cases hbs

lemma apart_tail (hp : Inline p) (hrest : startsWith p rest = true) : Apart rest.tail back := by
  cases rest with
  | nil => cases hrest
  | cons b rest => exact h.tail (hp.not_isBreak hrest)

lemma malformed_append (cause : LexicalError) :
    malformed cause (rest ++ back) = (malformed cause rest).append back := by
  rw [malformed, dropWhile_append_apart h ⟨rfl, rfl⟩]
  rfl

lemma finish_append (numeral : Numeral) (cause : LexicalError) :
    finish numeral cause (rest ++ back) = (finish numeral cause rest).append back := by
  unfold finish
  rw [startsWith_append h ⟨rfl, rfl⟩]
  split
  · exact malformed_append h cause
  · rfl

lemma readInteger_append (radix : Nat) (digits : List UInt8) :
    readInteger radix digits (rest ++ back) = (readInteger radix digits rest).append back := by
  have hinline : Inline fun b => b = ascii 'u' || b = ascii 'U' := ⟨rfl, rfl⟩
  unfold readInteger
  rw [startsWith_append h hinline]
  dsimp only
  split
  next hsuffix =>
    rw [List.tail_append_of_ne_nil (ne_nil_of_startsWith hsuffix)]
    exact finish_append (apart_tail h hinline hsuffix) _ _
  · exact finish_append h _ _

lemma readFloatSuffix_append :
    readFloatSuffix (rest ++ back) = ((readFloatSuffix rest).1, (readFloatSuffix rest).2 ++ back) ∧
      Apart (readFloatSuffix rest).2 back := by
  have hinline : Inline fun b => b = ascii 'f' || b = ascii 'F' := ⟨rfl, rfl⟩
  unfold readFloatSuffix
  rw [isPrefixOf_append_apart h [ascii 'l', ascii 'f'] rfl,
    isPrefixOf_append_apart h [ascii 'L', ascii 'F'] rfl, startsWith_append h hinline]
  split
  next hdouble =>
    have hdrop : (rest ++ back).drop 2 = rest.drop 2 ++ back ∧ Apart (rest.drop 2) back := by
      rcases (Bool.or_eq_true _ _).mp hdouble with hlower | hupper
      · exact h.drop rfl hlower
      · exact h.drop rfl hupper
    exact ⟨Prod.ext rfl hdrop.1, hdrop.2⟩
  · split
    next hfloat =>
      rw [List.tail_append_of_ne_nil (ne_nil_of_startsWith hfloat)]
      exact ⟨rfl, apart_tail h hinline hfloat⟩
    · exact ⟨rfl, h⟩

lemma readFraction_append :
    readFraction (rest ++ back) = ((readFraction rest).1, (readFraction rest).2 ++ back) ∧
      Apart (readFraction rest).2 back := by
  have hpoint : Inline (· = ascii '.') := ⟨rfl, rfl⟩
  have hdigit : Inline (isDigitIn 10) := inline_isDigitIn (by omega)
  unfold readFraction
  rw [startsWith_append h hpoint]
  split
  next hstart =>
    have htail := apart_tail h hpoint hstart
    rw [List.tail_append_of_ne_nil (ne_nil_of_startsWith hstart),
      takeWhile_append_apart htail hdigit, dropWhile_append_apart htail hdigit]
    exact ⟨rfl, htail.dropWhile hdigit⟩
  · exact ⟨rfl, h⟩

lemma readExponent_append :
    readExponent (rest ++ back) = ((readExponent rest).1, (readExponent rest).2 ++ back) ∧
      Apart (readExponent rest).2 back := by
  have hmarker : Inline fun b => b = ascii 'e' || b = ascii 'E' := ⟨rfl, rfl⟩
  have hminus : Inline (· = ascii '-') := ⟨rfl, rfl⟩
  have hplus : Inline (· = ascii '+') := ⟨rfl, rfl⟩
  have hdigit : Inline (isDigitIn 10) := inline_isDigitIn (by omega)
  unfold readExponent
  rw [startsWith_append h hmarker]
  split
  next hstart =>
    have htail := apart_tail h hmarker hstart
    rw [List.tail_append_of_ne_nil (ne_nil_of_startsWith hstart), startsWith_append htail hminus,
      startsWith_append htail hplus]
    dsimp only
    split
    next hsigned =>
      have hunsigned : Apart rest.tail.tail back ∧ rest.tail ≠ [] := by
        rcases (Bool.or_eq_true _ _).mp hsigned with hsign | hsign
        · exact ⟨apart_tail htail hminus hsign, ne_nil_of_startsWith hsign⟩
        · exact ⟨apart_tail htail hplus hsign, ne_nil_of_startsWith hsign⟩
      rw [List.tail_append_of_ne_nil hunsigned.2, takeWhile_append_apart hunsigned.1 hdigit,
        dropWhile_append_apart hunsigned.1 hdigit]
      exact ⟨rfl, hunsigned.1.dropWhile hdigit⟩
    · rw [takeWhile_append_apart htail hdigit, dropWhile_append_apart htail hdigit]
      exact ⟨rfl, htail.dropWhile hdigit⟩
  · exact ⟨rfl, h⟩

lemma readHexadecimal_append :
    readHexadecimal (rest ++ back) = (readHexadecimal rest).append back := by
  have hdigit : Inline (isDigitIn 16) := inline_isDigitIn (by omega)
  unfold readHexadecimal
  rw [takeWhile_append_apart h hdigit, dropWhile_append_apart h hdigit]
  dsimp only
  split
  · exact malformed_append (h.dropWhile hdigit) _
  · exact readInteger_append (h.dropWhile hdigit) _ _

lemma readWhole_append (digits : List UInt8) :
    readWhole digits (rest ++ back) = (readWhole digits rest).append back := by
  unfold readWhole
  split
  · split
    · exact readInteger_append h _ _
    · exact malformed_append h _
  · exact readInteger_append h _ _

lemma readFloating_append (whole fraction : List UInt8) (exponent : Int) :
    readFloating whole fraction exponent (rest ++ back) =
      (readFloating whole fraction exponent rest).append back := by
  obtain ⟨hsuffix, hapart⟩ := readFloatSuffix_append h
  unfold readFloating
  rw [hsuffix]
  exact finish_append hapart _ _

lemma readDecimal_append : readDecimal (rest ++ back) = (readDecimal rest).append back := by
  have hdigit : Inline (isDigitIn 10) := inline_isDigitIn (by omega)
  obtain ⟨hfraction, hapart⟩ := readFraction_append (h.dropWhile hdigit)
  obtain ⟨hexponent, hapart'⟩ := readExponent_append hapart
  unfold readDecimal
  rw [takeWhile_append_apart h hdigit, dropWhile_append_apart h hdigit, hfraction]
  dsimp only
  rw [hexponent]
  dsimp only
  rw [(readFloatSuffix_append hapart').1]
  split
  · exact malformed_append hapart' _
  · split
    · exact readFloating_append hapart' _ _ _
    · exact readWhole_append hapart' _

lemma read_append : read (rest ++ back) = (read rest).append back := by
  unfold read isHexadecimal
  rw [isPrefixOf_append_apart h [ascii '0', ascii 'x'] rfl,
    isPrefixOf_append_apart h [ascii '0', ascii 'X'] rfl]
  split
  next hmarker =>
    have hdrop : (rest ++ back).drop 2 = rest.drop 2 ++ back ∧ Apart (rest.drop 2) back := by
      rcases (Bool.or_eq_true _ _).mp hmarker with hlower | hupper
      · exact h.drop rfl hlower
      · exact h.drop rfl hupper
    rw [hdrop.1]
    exact readHexadecimal_append hdrop.2
  · exact readDecimal_append h

end Append

end Numeral

end Shading
