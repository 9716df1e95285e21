import Mathlib
import Shading.CommandLine.Json
import Shading.Proofs.Decimal.Normal

/-!
# Reading numbers

A reader takes digits without a leading zero, perhaps digits behind a point, and perhaps an exponent.
Digits alone are an integer; everything else is the decimal of the number that is written.
-/

namespace Shading.CommandLine.Json

/-! ### The reader -/

/-- At least one digit, and what stands behind the digits. -/
def readDigits? (cs : List Char) : Option (List Char × List Char) :=
  let digits := cs.takeWhile Char.isDigit
  if digits = [] then none else some (digits, cs.dropWhile Char.isDigit)

/-- The digits behind a point, none without a point, and what stands behind them. -/
def readFraction? : List Char → Option (List Char × List Char)
  | '.' :: rest => readDigits? rest
  | rest => some ([], rest)

/-- Digits with a sign in front or none, and what stands behind them. -/
def readSigned? : List Char → Option (Int × List Char)
  | '-' :: rest => (readDigits? rest).map fun (digits, rest) => (-Nat.ofDigitChars 10 digits 0, rest)
  | '+' :: rest => (readDigits? rest).map fun (digits, rest) => (Nat.ofDigitChars 10 digits 0, rest)
  | rest => (readDigits? rest).map fun (digits, rest) => (Nat.ofDigitChars 10 digits 0, rest)

/-- The exponent behind its letter, if there is one, and what stands behind it. -/
def readExponent? : List Char → Option (Option Int × List Char)
  | 'e' :: rest | 'E' :: rest => (readSigned? rest).map fun (exponent, rest) => (some exponent, rest)
  | rest => some (none, rest)

/-- The number that digits, those behind a point and an exponent stand for. -/
def ofParts (whole fraction : List Char) (exponent : Option Int) : Json :=
  let coefficient := Nat.ofDigitChars 10 (whole ++ fraction) 0
  if fraction = [] ∧ exponent = none then number coefficient
  else decimal (Decimal.normal ⟨coefficient, exponent.getD 0 - fraction.length⟩)

/-- A number, and what stands behind it. -/
def readNumber (cs : List Char) : Option (Json × List Char) := do
  let (whole, rest) ← readDigits? cs
  if whole.head? = some '0' ∧ whole ≠ ['0'] then none
  else
    let (fraction, rest) ← readFraction? rest
    let (exponent, rest) ← readExponent? rest
    return (ofParts whole fraction exponent, rest)

/-- Whether a number in front goes on with the character. -/
def continuesNumber (c : Char) : Bool :=
  c.isDigit || c = '.' || c = 'e' || c = 'E'

/-! ### Written numbers -/

/-- Digits without a leading zero. -/
structure IsWhole (digits : List Char) : Prop where
  ne_nil : digits ≠ []
  isDigit : ∀ c ∈ digits, c.isDigit = true
  first : digits.head? = some '0' → digits = ['0']

/-- Digits behind a point, if there are any. -/
def pointed (fraction : List Char) : List Char :=
  if fraction = [] then [] else '.' :: fraction

/-- An exponent behind its letter, if there is one. -/
def raised : Option Int → List Char
  | none => []
  | some exponent => 'e' :: (toString exponent).toList

lemma head?_toDigits {n : Nat} (hn : n ≠ 0) : (Nat.toDigits 10 n).head? ≠ some '0' := by
  have hdigit : ∀ d < 10, d ≠ 0 → Nat.digitChar d ≠ '0' := by decide
  induction n using Nat.strong_induction_on with
  | h n ih =>
    rw [Nat.toDigits_eq_if (by decide)]
    split
    next hsmall => simpa using hdigit n hsmall hn
    next hlarge =>
      rw [List.head?_append_of_ne_nil _ Nat.toDigits_ne_nil]
      exact ih (n / 10) (by omega) (by omega)

lemma isWhole_toDigits (n : Nat) : IsWhole (Nat.toDigits 10 n) where
  ne_nil := Nat.toDigits_ne_nil
  isDigit _ hc := Nat.isDigit_of_mem_toDigits (by decide) (by decide) hc
  first h := by
    by_cases hn : n = 0
    · rw [hn, Nat.toDigits_zero]
    · exact absurd h (head?_toDigits hn)

lemma IsWhole.exists_cons {digits : List Char} (h : IsWhole digits) :
    ∃ c cs, digits = c :: cs ∧ c.isDigit = true := by
  obtain ⟨c, cs, rfl⟩ := List.exists_cons_of_ne_nil h.ne_nil
  exact ⟨c, cs, rfl, h.isDigit c List.mem_cons_self⟩

section Parts

variable {digits fraction rest : List Char}

lemma readDigits?_append (hne : digits ≠ []) (hdigits : ∀ c ∈ digits, c.isDigit = true)
    (hrest : ∀ c ∈ rest.head?, c.isDigit = false) : readDigits? (digits ++ rest) = some (digits, rest) := by
  have hstop : rest.takeWhile Char.isDigit = [] ∧ rest.dropWhile Char.isDigit = rest := by
    cases rest with
    | nil => exact ⟨rfl, rfl⟩
    | cons c rest => simp [hrest c rfl]
  have htake : (digits ++ rest).takeWhile Char.isDigit = digits := by
    rw [List.takeWhile_append_of_pos hdigits, hstop.1, List.append_nil]
  have hdrop : (digits ++ rest).dropWhile Char.isDigit = rest := by
    rw [List.dropWhile_append_of_pos hdigits, hstop.2]
  simp [readDigits?, htake, hdrop, hne]

lemma readFraction?_pointed (hdigits : ∀ c ∈ fraction, c.isDigit = true)
    (hrest : ∀ c ∈ rest.head?, c.isDigit = false ∧ c ≠ '.') :
    readFraction? (pointed fraction ++ rest) = some (fraction, rest) := by
  by_cases hnil : fraction = []
  · subst hnil
    cases rest with
    | nil => rfl
    | cons c rest =>
      rw [pointed, if_pos rfl, List.nil_append, readFraction?]
      rintro rest' hc
      exact (hrest c rfl).2 (List.cons.inj hc).1
  · rw [pointed, if_neg hnil, List.cons_append, readFraction?]
    exact readDigits?_append hnil hdigits fun c hc => (hrest c hc).1

lemma readDigits?_toDigits (n : Nat) (hrest : ∀ c ∈ rest.head?, c.isDigit = false) :
    readDigits? (Nat.toDigits 10 n ++ rest) = some (Nat.toDigits 10 n, rest) :=
  readDigits?_append Nat.toDigits_ne_nil
    (fun _ hc => Nat.isDigit_of_mem_toDigits (by decide) (by decide) hc) hrest

lemma readSigned?_toString (n : Int) (hrest : ∀ c ∈ rest.head?, c.isDigit = false) :
    readSigned? ((toString n).toList ++ rest) = some (n, rest) := by
  cases n with
  | ofNat n =>
    have htext : (toString (Int.ofNat n)).toList = Nat.toDigits 10 n := by
      change (toString n).toList = _
      rw [Nat.toString_eq_ofList_toDigits, String.toList_ofList]
    obtain ⟨c, cs, hdigits, hc⟩ := (isWhole_toDigits n).exists_cons
    have hread := readDigits?_toDigits n hrest
    have hvalue := Nat.ofDigitChars_ten_toDigits (n := n)
    rw [htext]
    rw [hdigits, List.cons_append] at hread ⊢
    rw [hdigits] at hvalue
    rw [readSigned?, hread]
    · simp [hvalue]
    · rintro rest' h
      rw [(List.cons.inj h).1] at hc
      cases hc
    · rintro rest' h
      rw [(List.cons.inj h).1] at hc
      cases hc
  | negSucc n =>
    have htext : (toString (Int.negSucc n)).toList = '-' :: Nat.toDigits 10 (n + 1) := by
      change ("-" ++ toString (n + 1)).toList = _
      rw [String.toList_append, Nat.toString_eq_ofList_toDigits, String.toList_ofList,
        String.toList_ofList]
      rfl
    rw [htext, List.cons_append, readSigned?, readDigits?_toDigits (n + 1) hrest]
    simp [Nat.ofDigitChars_ten_toDigits, Int.negSucc_eq]

lemma readExponent?_raised (exponent : Option Int) (hrest : ∀ c ∈ rest.head?, continuesNumber c = false) :
    readExponent? (raised exponent ++ rest) = some (exponent, rest) := by
  cases exponent with
  | none =>
    cases rest with
    | nil => rfl
    | cons c rest =>
      have hc := hrest c rfl
      simp only [continuesNumber, Bool.or_eq_false_iff, decide_eq_false_iff_not] at hc
      rw [raised, List.nil_append, readExponent?]
      · intro rest' h
        exact hc.1.2 (List.cons.inj h).1
      · intro rest' h
        exact hc.2 (List.cons.inj h).1
  | some exponent =>
    have hdigit : ∀ c ∈ rest.head?, c.isDigit = false := by
      intro c hc
      have hcontinues := hrest c hc
      simp only [continuesNumber, Bool.or_eq_false_iff] at hcontinues
      exact hcontinues.1.1.1
    rw [raised, List.cons_append, readExponent?, readSigned?_toString exponent hdigit]
    rfl

end Parts

/-- A number is read from its parts, in front of anything that does not go on with it. -/
theorem readNumber_parts {whole fraction rest : List Char} (hwhole : IsWhole whole)
    (hfraction : ∀ c ∈ fraction, c.isDigit = true) (exponent : Option Int)
    (hrest : ∀ c ∈ rest.head?, continuesNumber c = false) :
    readNumber (whole ++ (pointed fraction ++ (raised exponent ++ rest))) =
      some (ofParts whole fraction exponent, rest) := by
  have hexponent : ∀ c ∈ (raised exponent ++ rest).head?, c.isDigit = false ∧ c ≠ '.' := by
    cases exponent with
    | none =>
      intro c hc
      have hcontinues := hrest c hc
      simp only [continuesNumber, Bool.or_eq_false_iff, decide_eq_false_iff_not] at hcontinues
      exact ⟨hcontinues.1.1.1, hcontinues.1.1.2⟩
    | some exponent =>
      intro c hc
      obtain rfl : 'e' = c := Option.some.inj hc
      decide
  have hpoint : ∀ c ∈ (pointed fraction ++ (raised exponent ++ rest)).head?, c.isDigit = false := by
    intro c hc
    unfold pointed at hc
    split at hc
    · exact (hexponent c hc).1
    · obtain rfl : '.' = c := Option.some.inj hc
      rfl
  have hzero : ¬(whole.head? = some '0' ∧ whole ≠ ['0']) := fun h => h.2 (hwhole.first h.1)
  rw [readNumber, readDigits?_append hwhole.ne_nil hwhole.isDigit hpoint]
  simp only [Option.bind_eq_bind, Option.bind_some, if_neg hzero,
    readFraction?_pointed hfraction hexponent, readExponent?_raised exponent hrest]
  rfl

/-! ### The text of a decimal -/

/-- The parts stand for the same number as the decimal, and for no integer. -/
structure Spells (whole fraction : List Char) (exponent : Option Int) (d : Decimal) : Prop where
  isWhole : IsWhole whole
  isFraction : ∀ c ∈ fraction, c.isDigit = true
  isDecimal : ¬(fraction = [] ∧ exponent = none)
  value_eq : Decimal.value ⟨Nat.ofDigitChars 10 (whole ++ fraction) 0, exponent.getD 0 - fraction.length⟩ =
    d.value

section Text

variable {whole fraction digits : List Char} {exponent : Option Int} {d : Decimal}

lemma Spells.ofParts_eq (h : Spells whole fraction exponent d) :
    ofParts whole fraction exponent = decimal d.normal := by
  rw [ofParts, if_neg h.isDecimal, Decimal.normal_eq_iff.2 h.value_eq]

lemma IsWhole.take (h : IsWhole digits) (hzero : digits.head? ≠ some '0') {n : Nat} (hn : 0 < n) :
    IsWhole (digits.take n) where
  ne_nil := by simp [List.take_eq_nil_iff, h.ne_nil, hn.ne']
  isDigit c hc := h.isDigit c (List.mem_of_mem_take hc)
  first hfirst := by
    rw [List.head?_take, if_neg hn.ne'] at hfirst
    exact absurd hfirst hzero

lemma IsWhole.append (h : IsWhole digits) (hzero : digits.head? ≠ some '0') {others : List Char}
    (hothers : ∀ c ∈ others, c.isDigit = true) : IsWhole (digits ++ others) where
  ne_nil := by simp [h.ne_nil]
  isDigit c hc := (List.mem_append.1 hc).elim (h.isDigit c) (hothers c)
  first hfirst := by
    rw [List.head?_append_of_ne_nil _ h.ne_nil] at hfirst
    exact absurd hfirst hzero

lemma isDigit_replicate (n : Nat) : ∀ c ∈ List.replicate n '0', c.isDigit = true := by
  intro c hc
  rw [List.eq_of_mem_replicate hc]
  rfl

lemma spells_small (c n : Nat) :
    Spells ['0'] (List.replicate n '0' ++ Nat.toDigits 10 c) none
      ⟨c, -(n + (Nat.toDigits 10 c).length : Nat)⟩ where
  isWhole := ⟨by simp, by simp, fun _ => rfl⟩
  isFraction d hd := (List.mem_append.1 hd).elim (isDigit_replicate n d) ((isWhole_toDigits c).isDigit d)
  isDecimal h := by simp [Nat.toDigits_ne_nil] at h
  value_eq := by
    simp [Decimal.value, Nat.ofDigitChars_append, Nat.ofDigitChars_cons, Nat.ofDigitChars_replicate_zero]

lemma spells_divided {c : Nat} (hc : c ≠ 0) {n : Nat} (hn : 0 < n) (hlt : n < (Nat.toDigits 10 c).length) :
    Spells ((Nat.toDigits 10 c).take n) ((Nat.toDigits 10 c).drop n) none
      ⟨c, -((Nat.toDigits 10 c).length - n : Nat)⟩ where
  isWhole := (isWhole_toDigits c).take (head?_toDigits hc) hn
  isFraction d hd := (isWhole_toDigits c).isDigit d (List.mem_of_mem_drop hd)
  isDecimal h := by
    have hnil := List.drop_eq_nil_iff.1 h.1
    omega
  value_eq := by simp [Decimal.value, Nat.ofDigitChars_ten_toDigits]

lemma spells_large {c : Nat} (hc : c ≠ 0) (n : Nat) :
    Spells (Nat.toDigits 10 c ++ List.replicate n '0') ['0'] none ⟨c, n⟩ where
  isWhole := (isWhole_toDigits c).append (head?_toDigits hc) (isDigit_replicate n)
  isFraction := by simp
  isDecimal h := by simp at h
  value_eq := by
    have hdigits : Nat.ofDigitChars 10 (Nat.toDigits 10 c ++ List.replicate n '0' ++ ['0']) 0 =
        10 * (10 ^ n * c) := by
      simp [Nat.ofDigitChars_append, Nat.ofDigitChars_ten_toDigits, Nat.ofDigitChars_cons,
        Nat.ofDigitChars_replicate_zero]
    rw [hdigits]
    simp [Decimal.value]
    ring

lemma positional_neg (c : Nat) {k : Nat} (hk : 0 < k) :
    let digits := Nat.toDigits 10 c
    let whole := digits.take (digits.length - k)
    (Decimal.positional ⟨c, -(k : Nat)⟩).toList = (if whole = [] then ['0'] else whole) ++
      '.' :: (List.replicate (k - digits.length) '0' ++ digits.drop (digits.length - k)) := by
  intro digits whole
  have hpoint : (".").toList = ['.'] := rfl
  have hnegative : -(k : Int) < 0 := by omega
  have hcount : (-(-(k : Int))).toNat = k := by omega
  have hfraction : List.replicate (k - digits.length) '0' ++ digits.drop (digits.length - k) ≠ [] := by
    intro hnil
    have hlength := congrArg List.length hnil
    simp only [List.length_append, List.length_replicate, List.length_drop, List.length_nil] at hlength
    omega
  unfold Decimal.positional Decimal.digits
  simp only [if_pos hnegative, hcount, String.toList_append, String.toList_ofList, hpoint,
    List.isEmpty_iff]
  rw [if_neg hfraction, List.append_assoc, List.singleton_append]

lemma exists_positional (hd : d.coefficient ≠ 0) : ∃ whole fraction,
    (Decimal.positional d).toList = whole ++ pointed fraction ∧ Spells whole fraction none d := by
  obtain ⟨c, e⟩ := d
  dsimp only at hd
  rcases Int.lt_or_le e 0 with he | he
  · obtain ⟨k, rfl⟩ : ∃ k : Nat, e = -(k : Nat) := ⟨(-e).toNat, by omega⟩
    have hpositional := positional_neg c (k := k) (by omega)
    rcases Nat.lt_or_ge k (Nat.toDigits 10 c).length with hk | hk
    · have hspells := spells_divided hd (n := (Nat.toDigits 10 c).length - k) (by omega) (by omega)
      rw [Nat.sub_sub_self hk.le] at hspells
      refine ⟨_, _, ?_, hspells⟩
      rw [hpositional, if_neg hspells.isWhole.ne_nil, Nat.sub_eq_zero_of_le hk.le, pointed, if_neg]
      · rfl
      · exact fun hnil => hspells.isDecimal ⟨hnil, rfl⟩
    · obtain ⟨n, rfl⟩ := Nat.exists_eq_add_of_le' hk
      refine ⟨_, _, ?_, spells_small c n⟩
      have hnone : (Nat.toDigits 10 c).length - (n + (Nat.toDigits 10 c).length) = 0 := by omega
      rw [hpositional, hnone, Nat.add_sub_cancel]
      simp [pointed, Nat.toDigits_ne_nil]
  · obtain ⟨n, rfl⟩ := Int.eq_ofNat_of_zero_le he
    have hn : ¬(n : Int) < 0 := by omega
    have hpoint : (".").toList = ['.'] := rfl
    refine ⟨_, _, ?_, spells_large hd n⟩
    simp [Decimal.positional, Decimal.digits, pointed, hpoint, hn, Nat.toDigits_ne_nil]

lemma exists_scientific (hd : d.coefficient ≠ 0) : ∃ whole fraction exponent,
    (Decimal.scientific d).toList = whole ++ (pointed fraction ++ raised exponent) ∧
      Spells whole fraction exponent d := by
  have hpoint : (".").toList = ['.'] := rfl
  have hletter : ("e").toList = ['e'] := rfl
  refine ⟨(Nat.toDigits 10 d.coefficient).take 1, (Nat.toDigits 10 d.coefficient).drop 1, some d.magnitude,
    ?_, ⟨(isWhole_toDigits _).take (head?_toDigits hd) Nat.one_pos, ?_, by simp, ?_⟩⟩
  · unfold Decimal.scientific Decimal.digits pointed raised
    simp only [String.toList_append, String.toList_ofList, hletter, List.isEmpty_iff]
    split <;> simp [hpoint]
  · exact fun c hc => (isWhole_toDigits _).isDigit c (List.mem_of_mem_drop hc)
  · have hlength := Nat.length_toDigits_pos (b := 10) (n := d.coefficient)
    have hexponent : d.magnitude - ((Nat.toDigits 10 d.coefficient).length - 1 : Nat) = d.exponent := by
      unfold Decimal.magnitude Decimal.digits
      omega
    rw [List.take_append_drop, Nat.ofDigitChars_ten_toDigits, List.length_drop, Option.getD_some, hexponent]

/-- The text of a decimal spells its number. -/
theorem exists_decimalText (d : Decimal) : ∃ whole fraction exponent,
    (decimalText d).toList = whole ++ (pointed fraction ++ raised exponent) ∧
      Spells whole fraction exponent d := by
  unfold decimalText Decimal.Layout.text
  split
  next hzero =>
    refine ⟨['0'], ['0'], none, rfl, ⟨by simp, by simp, fun _ => rfl⟩, by simp, by simp, ?_⟩
    rw [Decimal.value_eq_zero.2 hzero, Decimal.value_eq_zero.2 rfl]
  next hd =>
    split
    · obtain ⟨whole, fraction, htext, hspells⟩ := exists_positional hd
      exact ⟨whole, fraction, none, by rw [htext, raised, List.append_nil], hspells⟩
    · exact exists_scientific hd

end Text

lemma exists_decimalText_cons (d : Decimal) :
    ∃ c cs, (decimalText d).toList = c :: cs ∧ c.isDigit = true := by
  obtain ⟨whole, fraction, exponent, htext, hspells⟩ := exists_decimalText d
  obtain ⟨c, cs, rfl, hc⟩ := hspells.isWhole.exists_cons
  exact ⟨c, _, htext, hc⟩

/-- A decimal is read back as the normal one of the same number, in front of anything that does not go on
with it. -/
theorem readNumber_decimalText (d : Decimal) {rest : List Char}
    (hrest : ∀ c ∈ rest.head?, continuesNumber c = false) :
    readNumber ((decimalText d).toList ++ rest) = some (decimal d.normal, rest) := by
  obtain ⟨whole, fraction, exponent, htext, hspells⟩ := exists_decimalText d
  rw [htext, List.append_assoc, List.append_assoc,
    readNumber_parts hspells.isWhole hspells.isFraction exponent hrest, hspells.ofParts_eq]

/-- An integer is read back, in front of anything that does not go on with it. -/
theorem readNumber_toDigits (n : Nat) {rest : List Char}
    (hrest : ∀ c ∈ rest.head?, continuesNumber c = false) :
    readNumber (Nat.toDigits 10 n ++ rest) = some (number n, rest) := by
  have hfraction : ∀ c ∈ ([] : List Char), c.isDigit = true := by simp
  have hread := readNumber_parts (isWhole_toDigits n) hfraction none hrest
  simpa [pointed, raised, ofParts, Nat.ofDigitChars_ten_toDigits] using hread

end Shading.CommandLine.Json
