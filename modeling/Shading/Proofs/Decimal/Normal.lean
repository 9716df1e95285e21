import Mathlib
import Shading.Decimal.Shortest

/-!
# Decimals as numbers

A number has many decimals, but only one without zeros at the end of its coefficient.
-/

namespace Shading.Decimal

variable {d d' : Decimal}

/-- The number that a decimal stands for. -/
def value (d : Decimal) : ℚ :=
  d.coefficient * 10 ^ d.exponent

/-- The decimal of the same number without zeros at the end of its coefficient. -/
def normal (d : Decimal) : Decimal :=
  if d.coefficient = 0 then ⟨0, 0⟩
  else ⟨d.coefficient.divMaxPow 10, d.exponent + padicValNat 10 d.coefficient⟩

lemma value_normal (d : Decimal) : d.normal.value = d.value := by
  unfold normal value
  split
  next hzero => simp [hzero]
  next =>
    have hcoefficient : (d.coefficient.divMaxPow 10 : ℚ) * 10 ^ padicValNat 10 d.coefficient =
        d.coefficient := by
      exact_mod_cast Nat.divMaxPow_mul_pow_padicValNat 10 d.coefficient
    rw [zpow_add₀ (by norm_num), zpow_natCast, ← hcoefficient]
    ring

lemma value_eq_zero : d.value = 0 ↔ d.coefficient = 0 := by
  simp [value, zpow_ne_zero]

lemma exponent_le_of_value_eq (h : d.value = d'.value) (hd : ¬10 ∣ d'.coefficient) :
    d.exponent ≤ d'.exponent := by
  by_contra hlt
  obtain ⟨k, hk⟩ : ∃ k : Nat, d.exponent = d'.exponent + (k + 1) :=
    ⟨(d.exponent - d'.exponent - 1).toNat, by omega⟩
  have hten : (10 : ℚ) ^ d'.exponent ≠ 0 := zpow_ne_zero _ (by norm_num)
  have hcoefficient : (d.coefficient : ℚ) * 10 ^ (k + 1) = d'.coefficient := by
    refine mul_right_cancel₀ hten ?_
    have hpower : (10 : ℚ) ^ ((k : Int) + 1) = 10 ^ (k + 1) := by
      exact_mod_cast zpow_natCast (10 : ℚ) (k + 1)
    rw [value, value, hk, zpow_add₀ (by norm_num), hpower] at h
    rw [← h]
    ring
  have hdvd : d.coefficient * 10 ^ (k + 1) = d'.coefficient := by exact_mod_cast hcoefficient
  exact hd (hdvd ▸ Dvd.dvd.mul_left (dvd_pow_self 10 k.succ_ne_zero) d.coefficient)

lemma eq_of_value_eq (h : d.value = d'.value) (hd : ¬10 ∣ d.coefficient) (hd' : ¬10 ∣ d'.coefficient) :
    d = d' := by
  have hexponent : d.exponent = d'.exponent :=
    le_antisymm (exponent_le_of_value_eq h hd') (exponent_le_of_value_eq h.symm hd)
  have hten : (10 : ℚ) ^ d'.exponent ≠ 0 := zpow_ne_zero _ (by norm_num)
  have hrational : (d.coefficient : ℚ) = d'.coefficient := by
    refine mul_right_cancel₀ hten ?_
    rwa [value, value, hexponent] at h
  have hcoefficient : d.coefficient = d'.coefficient := by exact_mod_cast hrational
  rw [Decimal.mk.injEq]
  exact ⟨hcoefficient, hexponent⟩

lemma not_dvd_coefficient_normal (hd : d.coefficient ≠ 0) : ¬10 ∣ d.normal.coefficient := by
  rw [normal, if_neg hd]
  exact Nat.not_dvd_divMaxPow (by decide) hd

/-- Decimals have the same normal form exactly if they stand for the same number. -/
theorem normal_eq_iff : d.normal = d'.normal ↔ d.value = d'.value := by
  constructor
  · intro h
    rw [← value_normal d, ← value_normal d', h]
  · intro h
    have hzero : d.coefficient = 0 ↔ d'.coefficient = 0 := by
      rw [← value_eq_zero, ← value_eq_zero, h]
    by_cases hd : d.coefficient = 0
    · rw [normal, normal, if_pos hd, if_pos (hzero.1 hd)]
    · have hvalue : d.normal.value = d'.normal.value := by
        rw [value_normal, value_normal, h]
      exact eq_of_value_eq hvalue (not_dvd_coefficient_normal hd)
        (not_dvd_coefficient_normal (hzero.not.1 hd))

end Shading.Decimal
