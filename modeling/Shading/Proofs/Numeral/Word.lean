import Mathlib
import Shading.Numeral.Word

/-!
# Words keep the lowest bits

A word that is cut back to 32 bits after each digit holds the lowest 32 bits of the number that all digits
stand for, and it remembers whether the number has more.
-/

namespace Shading.Numeral.Word

open Text

/-- The word is what 32 bits keep of the number, and knows whether they keep less than all. -/
structure Keeps (w : Word) (n : Nat) : Prop where
  register : w.register.toNat = n % 2 ^ 32
  overflow : w.overflow = decide (2 ^ 32 ≤ n)

lemma keeps_start : Keeps {} 0 where
  register := rfl
  overflow := rfl

lemma digitValue_le (b : UInt8) : digitValue b ≤ 16 := by
  revert b
  decide +kernel

lemma toNat_next {radix : Nat} (hradix : radix ≤ 16) {w : Word} {n : Nat} (hw : w.Keeps n) (b : UInt8) :
    (w.register * radix.toUInt64 + (digitValue b).toUInt64).toNat = n % 2 ^ 32 * radix + digitValue b := by
  have hdigit := digitValue_le b
  have hproduct : n % 2 ^ 32 * radix ≤ (2 ^ 32 - 1) * 16 := by
    apply Nat.mul_le_mul _ hradix
    omega
  rw [UInt64.toNat_add, UInt64.toNat_mul, hw.register]
  simp only [Nat.toUInt64, UInt64.toNat_ofNat']
  rw [Nat.mod_eq_of_lt (a := radix) (by omega), Nat.mod_eq_of_lt (a := digitValue b) (by omega),
    Nat.mod_eq_of_lt (a := n % 2 ^ 32 * radix) (by omega), Nat.mod_eq_of_lt (by omega)]

lemma Keeps.push {radix : Nat} (hpos : 0 < radix) (hradix : radix ≤ 16) {w : Word} {n : Nat}
    (hw : w.Keeps n) (b : UInt8) : (push radix w b).Keeps (n * radix + digitValue b) := by
  have hnext := toNat_next hradix hw b
  have hgrows : n ≤ n * radix := Nat.le_mul_of_pos_right n hpos
  have hmod : (n * radix + digitValue b) % 2 ^ 32 = (n % 2 ^ 32 * radix + digitValue b) % 2 ^ 32 :=
    ((Nat.mod_modEq n _).symm.mul_right radix).add_right _
  have hmask : mask.toNat = 2 ^ 32 - 1 := rfl
  unfold Word.push
  dsimp only
  split
  next hcut =>
    rw [gt_iff_lt, UInt64.lt_iff_toNat_lt, hnext, hmask] at hcut
    refine ⟨?_, ?_⟩
    · rw [UInt64.toNat_and, hnext, hmask, Nat.and_two_pow_sub_one_eq_mod, hmod]
    · symm
      rw [decide_eq_true_eq]
      by_contra hsmall
      have hn : n % 2 ^ 32 = n := Nat.mod_eq_of_lt (by omega)
      rw [hn] at hcut
      omega
  next hcut =>
    rw [gt_iff_lt, UInt64.lt_iff_toNat_lt, hnext, hmask] at hcut
    refine ⟨?_, ?_⟩
    · have hsmall : n % 2 ^ 32 * radix + digitValue b < 2 ^ 32 := by omega
      rw [hnext, hmod, Nat.mod_eq_of_lt hsmall]
    · rw [hw.overflow, decide_eq_decide]
      constructor
      · omega
      · intro hlarge
        by_contra hsmall
        have hn : n % 2 ^ 32 = n := Nat.mod_eq_of_lt (by omega)
        rw [hn] at hcut
        omega

lemma keeps_ofDigits {radix : Nat} (hpos : 0 < radix) (hradix : radix ≤ 16) (digits : List UInt8) :
    (ofDigits radix digits).Keeps (valueIn radix digits) := by
  unfold ofDigits valueIn
  induction digits using List.reverseRecOn with
  | nil => exact keeps_start
  | append_singleton digits b ih =>
    rw [List.foldl_append, List.foldl_append]
    exact ih.push hpos hradix b

end Shading.Numeral.Word
