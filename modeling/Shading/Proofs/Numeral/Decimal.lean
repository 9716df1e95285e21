import Shading.Proofs.Numeral.Grammar
import Shading.Proofs.Numeral.Word
import Shading.Proofs.Text.Encoding

/-!
# The decimal text of a number

The text of a number is a literal for it, so a number of 32 bits is read back from its text and is not too
large.
-/

namespace Shading

namespace Text

lemma bytes_nat (n : Nat) :
    bytes (toString n) =
      (if n < 10 then [] else bytes (toString (n / 10))) ++ [ascii (Nat.digitChar (n % 10))] := by
  have hdigit : ∀ d < 10, String.utf8EncodeChar (Nat.digitChar d) = [ascii (Nat.digitChar d)] := by decide
  have hlast : String.utf8EncodeChar (Nat.digitChar (n % 10)) = [ascii (Nat.digitChar (n % 10))] :=
    hdigit _ (Nat.mod_lt n (by decide))
  rw [Nat.toString_eq_ofList_toDigits, Nat.toString_eq_ofList_toDigits, bytes_ofList, bytes_ofList,
    Nat.toDigits_eq_if (by decide)]
  split
  next hn =>
    rw [Nat.mod_eq_of_lt hn] at hlast ⊢
    rw [List.flatMap_singleton, hlast, List.nil_append]
  · rw [List.flatMap_append, List.flatMap_singleton, hlast]

end Text

namespace Numeral

open Text

lemma valueIn_concat (radix : Nat) (digits : List UInt8) (d : UInt8) :
    valueIn radix (digits ++ [d]) = valueIn radix digits * radix + digitValue d := by
  rw [valueIn, List.foldl_append]
  rfl

lemma bytes_nat_pos {n : Nat} (hn : 0 < n) :
    ∃ d digits, bytes (toString n) = d :: digits ∧ isDigitIn 10 d = true ∧ d ≠ ascii '0' ∧
      AllDigits 10 digits ∧ valueIn 10 (d :: digits) = n := by
  have hdigit : ∀ d < 10, isDigitIn 10 (ascii (Nat.digitChar d)) = true ∧
      digitValue (ascii (Nat.digitChar d)) = d ∧ (0 < d → ascii (Nat.digitChar d) ≠ ascii '0') := by
    decide +kernel
  induction n using Nat.strong_induction_on with
  | h n ih =>
    obtain ⟨hlast, hvalue, hzero⟩ := hdigit (n % 10) (Nat.mod_lt n (by decide))
    rw [bytes_nat]
    split
    next hsmall =>
      rw [Nat.mod_eq_of_lt hsmall] at hlast hvalue hzero ⊢
      refine ⟨_, [], rfl, hlast, hzero hn, allDigits_nil 10, ?_⟩
      simp [valueIn, hvalue]
    next hlarge =>
      obtain ⟨d, digits, htenth, hd, hfirst, hdigits, htenthValue⟩ := ih (n / 10) (by omega) (by omega)
      refine ⟨d, digits ++ [ascii (Nat.digitChar (n % 10))], ?_, hd, hfirst, ?_, ?_⟩
      · rw [htenth, List.cons_append]
      · intro e he
        rcases List.mem_append.1 he with he | he
        · exact hdigits e he
        · rwa [List.mem_singleton.1 he]
      · rw [← List.cons_append, valueIn_concat, htenthValue, hvalue]
        omega

/-- The text of a number is a decimal literal for it, or the octal literal for zero. -/
theorem spellsWhole_nat (n : Nat) :
    ∃ radix digits, SpellsWhole (bytes (toString n)) radix digits ∧ 0 < radix ∧ radix ≤ 16 ∧
      valueIn radix digits = n := by
  rcases Nat.eq_zero_or_pos n with rfl | hn
  · exact ⟨8, [], .octal (allDigits_nil 8), by decide, by decide, rfl⟩
  · obtain ⟨d, digits, hbytes, hd, hfirst, hdigits, hvalue⟩ := bytes_nat_pos hn
    rw [hbytes]
    exact ⟨10, d :: digits, .decimal hd hfirst hdigits, by decide, by decide, hvalue⟩

/-- The text of a number of 32 bits is a literal for it that is not too large. -/
theorem spellsWhole_word (u : UInt32) :
    ∃ radix digits, SpellsWhole (bytes (toString u.toNat)) radix digits ∧
      ∀ unsigned, (integer radix digits unsigned).token =
        (if unsigned then .uint u else .int u.toInt32, false) := by
  obtain ⟨radix, digits, hspells, hpos, hradix, hvalue⟩ := spellsWhole_nat u.toNat
  obtain ⟨hregister, hoverflow⟩ := Word.keeps_ofDigits hpos hradix digits
  have hsmall : u.toNat < 2 ^ 32 := u.toNat_lt
  rw [hvalue] at hregister hoverflow
  have hbits : (Word.ofDigits radix digits).bits = u := by
    apply UInt32.toNat_inj.1
    rw [Word.bits, UInt64.toNat_toUInt32, hregister, Nat.mod_mod, Nat.mod_eq_of_lt hsmall]
  refine ⟨radix, digits, hspells, fun unsigned => ?_⟩
  rw [token, hbits, hoverflow, decide_eq_false (by omega)]

end Numeral

end Shading
