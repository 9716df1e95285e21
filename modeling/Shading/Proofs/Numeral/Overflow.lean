import Shading.Proofs.Numeral.Decimal
import Shading.Proofs.Numeral.Longest

/-!
# Integer constants of any length

An integer constant has the lowest 32 bits of the number that its digits stand for. There is a warning if
the number has more of them, and one only, however long the constant is.
-/

namespace Shading

namespace Numeral

open Text

variable {radix : Nat} {literal digits bs : List UInt8} {unsigned : Bool}

/-- The digits stand for the sum of their values, each with its power of the radix. -/
theorem valueIn_eq_ofDigits (radix : Nat) (digits : List UInt8) :
    valueIn radix digits = Nat.ofDigits radix (digits.reverse.map digitValue) := by
  induction digits using List.reverseRecOn with
  | nil => rfl
  | append_singleton digits d ih =>
    rw [valueIn_concat, ih, List.reverse_append, List.reverse_singleton, List.singleton_append, List.map_cons,
      Nat.ofDigits_cons]
    ring

namespace Word

lemma Keeps.room (hradix : radix ≤ 16) {w : Word} {n : Nat} (h : w.Keeps n) (b : UInt8) :
    w.register.toNat * radix + digitValue b < 2 ^ 64 := by
  have hdigit := digitValue_le b
  have hregister : w.register.toNat < 2 ^ 32 := by
    rw [h.register]
    exact Nat.mod_lt n (by decide)
  have hproduct : w.register.toNat * radix ≤ (2 ^ 32 - 1) * 16 := Nat.mul_le_mul (by omega) hradix
  omega

lemma Keeps.toNat_bits {w : Word} {n : Nat} (h : w.Keeps n) : w.bits.toNat = n % 2 ^ 32 := by
  rw [bits, UInt64.toNat_toUInt32, h.register, Nat.mod_mod]

end Word

lemma toInt_toInt32 {u : UInt32} {n : Nat} (h : u.toNat = n % 2 ^ 32) :
    u.toInt32.toInt = (n : Int).bmod (2 ^ 32) := by
  rw [← Int32.toInt_toBitVec, UInt32.toBitVec_toInt32, BitVec.toInt_eq_toNat_bmod, UInt32.toNat_toBitVec, h,
    Int.natCast_mod]
  exact Int.emod_bmod _ _

lemma Spells.startsNumeral (h : Spells literal (.integer radix digits unsigned)) (rest : List UInt8) :
    ∃ b bs, literal ++ rest = b :: bs ∧ Shading.Reading.startsNumeral b bs = true := by
  cases h with
  | hexadecimal => exact ⟨_, _, rfl, rfl⟩
  | decimal h =>
    cases h with
    | integer hwhole hmark =>
      obtain ⟨hdigits, hne⟩ := hwhole.allDigits
      obtain ⟨d, tail, rfl⟩ := List.exists_cons_of_ne_nil hne
      have hd : isDigitIn 10 d = true := hdigits d List.mem_cons_self
      exact ⟨d, _, rfl, by simp [Shading.Reading.startsNumeral, hd]⟩

lemma exists_token (hpos : 0 < radix) (hradix : radix ≤ 16) (digits : List UInt8) (unsigned : Bool) :
    ∃ u : UInt32, u.toNat = valueIn radix digits % 2 ^ 32 ∧
      (integer radix digits unsigned).token =
        (if unsigned then .uint u else .int u.toInt32, decide (2 ^ 32 ≤ valueIn radix digits)) := by
  have hkeeps := Word.keeps_ofDigits hpos hradix digits
  refine ⟨(Word.ofDigits radix digits).bits, hkeeps.toNat_bits, ?_⟩
  rw [token, hkeeps.overflow]

end Numeral

namespace Cursor

open Numeral Text

variable {c : Cursor}

/-- An integer literal that no word runs on behind is read as its token, and nothing is reported of it but an
overflow. -/
theorem read_integer {radix : Nat} {literal digits rest : List UInt8} {unsigned : Bool}
    (hspells : Spells literal (.integer radix digits unsigned)) (hc : c.rest = literal ++ rest)
    (hlongest : IsLongest literal c.rest) (hboundary : startsWith Identifier.canContinue rest = false) :
    c.taken = literal ∧ c.read.1 =
      ⟨c.location, (integer radix digits unsigned).token.1,
        if (integer radix digits unsigned).token.2 then some (.overflow (if unsigned then .uint else .int))
        else none⟩ := by
  obtain ⟨b, bs, hbs, hstart⟩ := hspells.startsNumeral rest
  rw [hc, hbs] at hlongest
  have hread := (read_isLongest hstart hbs.symm hlongest).1 hboundary _ hspells
  obtain ⟨hlexeme, hrest⟩ := read_numeral (hc.trans hbs) hstart hread
  refine ⟨taken_eq ?_, ?_⟩
  · rw [hrest, hc]
  · rw [hlexeme, token_scanned, type_scanned]
    rfl

/-- An integer constant holds the number that its digits stand for modulo two to the power 32, as a signed
number where no suffix says otherwise, and a number that is larger than that is reported once. Between two
digits the register holds at most 32 bits, so that with the next digit it stays below 64. -/
theorem integer_modulo {radix : Nat} (hradix : radix ∈ [8, 10, 16]) (digits : List UInt8) (unsigned : Bool) :
    let value (digits : List UInt8) := Nat.ofDigits radix (digits.reverse.map digitValue)
    (∀ front b back, digits = front ++ b :: back →
      (Word.ofDigits radix front).register.toNat = value front % 2 ^ 32 ∧
      (Word.ofDigits radix front).register.toNat * radix + digitValue b < 2 ^ 64) ∧
    ∃ u : UInt32, u.toNat = value digits % 2 ^ 32 ∧ u.toInt32.toInt = (value digits : Int).bmod (2 ^ 32) ∧
      ∀ (c : Cursor) (source : String) (literal rest : List UInt8),
        Spells literal (.integer radix digits unsigned) → c.rest = literal ++ rest →
        IsLongest literal c.rest → startsWith Identifier.canContinue rest = false →
          c.taken = literal ∧ c.read.1.token = (if unsigned then .uint u else .int u.toInt32) ∧
          (c.read.1.diagnostic? source).toList =
            if 2 ^ 32 ≤ value digits then
              [⟨source, c.location, c.read.1.token,
                .warning (.constantOverflow (if unsigned then .uint else .int))⟩]
            else [] := by
  intro value
  have hbounds : 0 < radix ∧ radix ≤ 16 := by
    simp only [List.mem_cons, List.not_mem_nil, or_false] at hradix
    omega
  have hvalue (digits : List UInt8) : value digits = valueIn radix digits :=
    (valueIn_eq_ofDigits radix digits).symm
  constructor
  · intro front b back _
    have hkeeps := Word.keeps_ofDigits hbounds.1 hbounds.2 front
    rw [hvalue]
    exact ⟨hkeeps.register, hkeeps.room hbounds.2 b⟩
  · obtain ⟨u, hu, htoken⟩ := exists_token hbounds.1 hbounds.2 digits unsigned
    rw [hvalue]
    refine ⟨u, hu, toInt_toInt32 hu, ?_⟩
    intro c source literal rest hspells hc hlongest hboundary
    obtain ⟨htaken, hread⟩ := read_integer hspells hc hlongest hboundary
    rw [hread, htoken]
    refine ⟨htaken, rfl, ?_⟩
    by_cases hlarge : 2 ^ 32 ≤ valueIn radix digits
    · rw [decide_eq_true hlarge, if_pos hlarge]
      rfl
    · rw [decide_eq_false hlarge, if_neg hlarge]
      rfl

/-- A hexadecimal number of 33 bits, behind leading zeros. -/
theorem integer_modulo_manyDigits :
    let c : Cursor := { rest := Text.bytes "0x000180000001;" }
    let literal := Text.bytes "0x000180000001"
    16 ∈ [8, 10, 16] ∧ Spells literal (.integer 16 (Text.bytes "000180000001") false) ∧
      IsLongest literal c.rest ∧ c.taken = literal ∧ c.read.1.token = .int (-2147483647) ∧
      (c.read.1.diagnostic? "s").toList =
        [⟨"s", .start, .int (-2147483647), .warning (.constantOverflow .int)⟩] := by
  intro c literal
  have hdigits : AllDigits 16 (Text.bytes "000180000001") := by
    unfold AllDigits
    decide +kernel
  have hspells : Spells literal (.integer 16 (Text.bytes "000180000001") false) :=
    .hexadecimal (.inl rfl) (by decide +kernel) hdigits (by decide)
  have hread : Numeral.read c.rest =
      { outcome := .ok (.integer 16 (Text.bytes "000180000001") false), rest := [ascii ';'] } := rfl
  obtain ⟨hlongest, hboundary⟩ :
      IsLongest literal c.rest ∧ startsWith Identifier.canContinue [ascii ';'] = false :=
    isLongest_of_read (by decide +kernel) rfl hread
  have hradix : 16 ∈ [8, 10, 16] := by decide
  obtain ⟨-, u, hu, -, hconstant⟩ := integer_modulo hradix (Text.bytes "000180000001") false
  obtain rfl : (0x80000001 : UInt32) = u := UInt32.toNat_inj.1 (Eq.trans (by decide +kernel) hu.symm)
  obtain ⟨htaken, htoken, hreports⟩ := hconstant c "s" literal [ascii ';'] hspells rfl hlongest hboundary
  rw [htoken] at hreports
  exact ⟨hradix, hspells, hlongest, htaken, htoken, hreports⟩

end Cursor

end Shading
