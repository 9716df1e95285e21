import Shading.Condition.Arithmetic
import Shading.Proofs.Condition.Grammar

/-!
# Operators on machine words

The operators of conditions compute the values of the grammar's operators, and fail only where a
division has zero on its right.
-/

namespace Shading.Condition

lemma toInt_ofBool {b : Bool} {p : Prop} [Decidable p] (h : b = true ↔ p) :
    (ofBool b).toInt = truth p := by
  unfold truth
  by_cases hp : p
  · rw [if_pos hp, h.2 hp]
    rfl
  · rw [if_neg hp, Bool.eq_false_of_not_eq_true (fun hb => hp (h.1 hb))]
    rfl

lemma bits_toInt (x : Int64) : bits x.toInt = x.toBitVec.toNat := by
  have hcond := x.toBitVec.toInt_eq_toNat_cond
  have hlt := x.toBitVec.isLt
  have hx : x.toInt = x.toBitVec.toInt := rfl
  unfold bits
  rw [hx, hcond]
  split <;> omega

lemma toInt_eq_zero_iff (x : Int64) : x.toInt = 0 ↔ x = 0 :=
  Int64.toInt_inj (y := 0)

lemma shiftCount (y : Int64) : (y.toBitVec.smod 64).toNat = (y.toInt % 64).toNat := by
  have h : (y.toBitVec.smod 64).toInt = y.toInt % 64 := by
    rw [BitVec.toInt_smod]
    exact Int.fmod_eq_emod_of_nonneg y.toInt (by decide)
  have hcond := (y.toBitVec.smod 64).toInt_eq_toNat_cond
  have hlt := (y.toBitVec.smod 64).isLt
  rw [h] at hcond
  split at hcond <;> omega

lemma toInt_shiftLeft (x y : Int64) :
    (x <<< y).toInt = wrap (x.toInt * 2 ^ (y.toInt % 64).toNat) := by
  have hx : (x <<< y).toInt = (x.toBitVec <<< (y.toBitVec.smod 64).toNat).toInt := rfl
  have hbits : (x.toBitVec.toNat : Int) = x.toInt % 2 ^ 64 := by
    rw [← bits_toInt, bits]
    exact Int.toNat_of_nonneg (Int.emod_nonneg _ (by decide))
  rw [hx, BitVec.toInt_shiftLeft, shiftCount, wrap, Nat.shiftLeft_eq, Int.natCast_mul, hbits,
    Int.natCast_pow]
  exact Int.emod_mul_bmod x.toInt (2 ^ 64)

lemma toInt_shiftRight (x y : Int64) :
    (x >>> y).toInt = x.toInt / 2 ^ (y.toInt % 64).toNat := by
  have hx : (x >>> y).toInt = (x.toBitVec.sshiftRight (y.toBitVec.smod 64).toNat).toInt := rfl
  rw [hx, BitVec.toInt_sshiftRight, shiftCount, Int.shiftRight_eq_div_pow]
  rfl

lemma binaryValue_punct (op : BinaryOp) (x y : Int64)
    (h : op = .div ∨ op = .mod → y.toInt ≠ 0) :
    ∃ z, binaryValue op.punct x y = .ok z ∧ z.toInt = op.value x.toInt y.toInt := by
  have hx := toInt_eq_zero_iff x
  have hy := toInt_eq_zero_iff y
  cases op with
  | or =>
    refine ⟨_, rfl, toInt_ofBool ?_⟩
    simp [hx, hy]
  | and =>
    refine ⟨_, rfl, toInt_ofBool ?_⟩
    simp [hx, hy]
  | bitOr =>
    refine ⟨_, rfl, ?_⟩
    rw [BinaryOp.value, bits_toInt, bits_toInt]
    exact BitVec.toInt_or _ _
  | bitXor =>
    refine ⟨_, rfl, ?_⟩
    rw [BinaryOp.value, bits_toInt, bits_toInt]
    exact BitVec.toInt_xor _ _
  | bitAnd =>
    refine ⟨_, rfl, ?_⟩
    rw [BinaryOp.value, bits_toInt, bits_toInt]
    exact BitVec.toInt_and _ _
  | equal =>
    refine ⟨_, rfl, toInt_ofBool ?_⟩
    simp [Int64.toInt_inj]
  | notEqual =>
    refine ⟨_, rfl, toInt_ofBool ?_⟩
    simp [Int64.toInt_inj]
  | less =>
    refine ⟨_, rfl, toInt_ofBool ?_⟩
    simp [Int64.lt_iff_toInt_lt]
  | greater =>
    refine ⟨_, rfl, toInt_ofBool ?_⟩
    simp [Int64.lt_iff_toInt_lt]
  | lessEqual =>
    refine ⟨_, rfl, toInt_ofBool ?_⟩
    simp [Int64.le_iff_toInt_le]
  | greaterEqual =>
    refine ⟨_, rfl, toInt_ofBool ?_⟩
    simp [Int64.le_iff_toInt_le]
  | shiftLeft => exact ⟨_, rfl, toInt_shiftLeft x y⟩
  | shiftRight => exact ⟨_, rfl, toInt_shiftRight x y⟩
  | add => exact ⟨_, rfl, Int64.toInt_add x y⟩
  | sub => exact ⟨_, rfl, Int64.toInt_sub x y⟩
  | mul => exact ⟨_, rfl, Int64.toInt_mul x y⟩
  | div =>
    have hne : y ≠ 0 := fun h0 => h (.inl rfl) (hy.2 h0)
    exact ⟨x / y, if_neg hne, Int64.toInt_div x y⟩
  | mod =>
    have hne : y ≠ 0 := fun h0 => h (.inr rfl) (hy.2 h0)
    exact ⟨x % y, if_neg hne, Int64.toInt_mod x y⟩

lemma binaryValue_by_zero (op : BinaryOp) (x y : Int64) (hop : op = .div ∨ op = .mod)
    (hy : y.toInt = 0) : binaryValue op.punct x y = .error .divisionByZero := by
  have hzero := (toInt_eq_zero_iff y).1 hy
  rcases hop with rfl | rfl
  · exact if_pos hzero
  · exact if_pos hzero

lemma binaryValue_ok {op : BinaryOp} {x y z : Int64} (h : binaryValue op.punct x y = .ok z) :
    (op = .div ∨ op = .mod → y.toInt ≠ 0) ∧ z.toInt = op.value x.toInt y.toInt := by
  have hsafe : op = .div ∨ op = .mod → y.toInt ≠ 0 := by
    intro hop hy
    rw [binaryValue_by_zero op x y hop hy] at h
    cases h
  obtain ⟨z', hz', hvalue⟩ := binaryValue_punct op x y hsafe
  rw [hz'] at h
  obtain rfl := Except.ok.inj h
  exact ⟨hsafe, hvalue⟩

lemma unary?_punct (op : UnaryOp) :
    ∃ f, unary? op.punct = some f ∧ ∀ x : Int64, (f x).toInt = op.value x.toInt := by
  cases op with
  | not =>
    refine ⟨_, rfl, fun x => toInt_ofBool ?_⟩
    simp [toInt_eq_zero_iff]
  | complement =>
    refine ⟨_, rfl, fun x => ?_⟩
    have hle := x.le_toInt
    have hlt := x.toInt_lt
    rw [Int64.toInt_not, UnaryOp.value]
    exact Int.bmod_eq_of_le (by omega) (by omega)
  | negate => exact ⟨_, rfl, fun x => Int64.toInt_neg x⟩
  | plus => exact ⟨_, rfl, fun x => rfl⟩

lemma unary?_eq_some {p : Punct} {f : Int64 → Int64} (h : unary? p = some f) :
    ∃ op : UnaryOp, op.punct = p := by
  cases p <;> first
    | exact ⟨.not, rfl⟩
    | exact ⟨.complement, rfl⟩
    | exact ⟨.negate, rfl⟩
    | exact ⟨.plus, rfl⟩
    | cases h

lemma toInt_uint (value : UInt32) : value.toUInt64.toInt64.toInt = value.toNat := by
  have hlt := value.toNat_lt
  have hcond := value.toUInt64.toBitVec.toInt_eq_toNat_cond
  have hx : value.toUInt64.toInt64.toInt = value.toUInt64.toBitVec.toInt := rfl
  have hnat : value.toUInt64.toBitVec.toNat = value.toNat := UInt32.toNat_toUInt64 value
  rw [hx, hcond, hnat]
  split <;> omega

end Shading.Condition
