import Shading.Proofs.Numeral.Grammar

/-!
# Constants are longest literals

What is read without an error is a literal. All of the longest literal is read in any case, so it is the
constant, or a word runs on behind it and there is an error.
-/

namespace Shading

namespace Numeral

open Text

variable {bs rest whole fraction : List UInt8} {n : Numeral} {cause : LexicalError}

/-! ### What is read is a literal -/

/-- If a constant has been read in front of the rest, it is a literal that no word runs on behind. -/
def Reading.Sound (bs : List UInt8) (r : Reading) : Prop :=
  ∀ m, r.outcome = .ok m →
    ∃ literal, (∃ n, Spells literal n) ∧ bs = literal ++ r.rest ∧
      startsWith Identifier.canContinue r.rest = false

lemma sound_malformed (bs : List UInt8) (cause : LexicalError) (rest : List UInt8) :
    (malformed cause rest).Sound bs := by
  intro m h
  cases h

lemma sound_finish {literal : List UInt8} (hliteral : ∃ n, Spells literal n) (hbs : bs = literal ++ rest) :
    (finish n cause rest).Sound bs := by
  unfold finish
  split
  · exact sound_malformed _ _ _
  next hboundary => exact fun _ _ => ⟨literal, hliteral, hbs, Bool.eq_false_of_not_eq_true hboundary⟩

lemma sound_readInteger (front : List UInt8)
    (hfront : ∀ m ∈ unsignedMarks, ∃ n, Spells (front ++ m.1) n) (radix : Nat) (digits rest : List UInt8) :
    (readInteger radix digits rest).Sound (front ++ rest) := by
  have hsigned := hfront ([], false) (by decide)
  unfold readInteger
  dsimp only
  split
  next hmark =>
    cases rest with
    | nil => cases hmark
    | cons b rest =>
      have hb : b = ascii 'u' ∨ b = ascii 'U' := by simpa [startsWith] using hmark
      exact sound_finish (hfront ([b], true) (by simp [unsignedMarks, hb])) (by simp)
  · exact sound_finish hsigned (by simp)

lemma sound_readWhole (hwhole : AllDigits 10 whole) (hne : whole ≠ []) (rest : List UInt8) :
    (readWhole whole rest).Sound (whole ++ rest) := by
  have hliteral {radix : Nat} {digits : List UInt8} (h : SpellsWhole whole radix digits) :
      ∀ m ∈ unsignedMarks, ∃ n, Spells (whole ++ m.1) n :=
    fun m hm => ⟨_, .decimal (.integer h hm)⟩
  obtain ⟨d, tail, rfl⟩ := List.exists_cons_of_ne_nil hne
  obtain ⟨hd, htail⟩ := List.forall_mem_cons.1 hwhole
  unfold readWhole
  split
  next hzero =>
    obtain rfl : d = ascii '0' := by simpa using (Bool.and_eq_true_iff.1 hzero).1
    split
    next hall =>
      exact sound_readInteger _ (hliteral (.octal (List.forall_mem_cons.1 (List.all_eq_true.1 hall)).2)) _ _ _
    · exact sound_malformed _ _ _
  next hzero =>
    by_cases hd' : d = ascii '0'
    · obtain rfl : tail = [] := by
        cases tail with
        | nil => rfl
        | cons c tail => simp [hd'] at hzero
      subst hd'
      exact sound_readInteger _ (hliteral (.octal (allDigits_nil 8))) _ _ _
    · exact sound_readInteger _ (hliteral (.decimal hd hd' htail)) _ _ _

lemma exists_floatMark (rest : List UInt8) :
    ∃ mark, (mark, (readFloatSuffix rest).1) ∈ floatMarks ∧ rest = mark ++ (readFloatSuffix rest).2 := by
  unfold readFloatSuffix
  split
  next hdouble =>
    rcases (Bool.or_eq_true _ _).mp hdouble with hlower | hupper
    · obtain ⟨rest, rfl⟩ := List.isPrefixOf_iff_prefix.1 hlower
      exact ⟨_, by simp [floatMarks], rfl⟩
    · obtain ⟨rest, rfl⟩ := List.isPrefixOf_iff_prefix.1 hupper
      exact ⟨_, by simp [floatMarks], rfl⟩
  · split
    next hfloat =>
      cases rest with
      | nil => cases hfloat
      | cons b rest =>
        have hb : b = ascii 'f' ∨ b = ascii 'F' := by simpa [startsWith] using hfloat
        exact ⟨[b], by simp [floatMarks, hb], rfl⟩
    · exact ⟨[], by simp [floatMarks], rfl⟩

lemma sound_readFloating (rest : List UInt8) {body : List UInt8} {x : Int}
    (hbody : SpellsBody (readFloatSuffix rest).1 body whole fraction x) :
    (readFloating whole fraction x rest).Sound (body ++ rest) := by
  obtain ⟨mark, hmark, hrest⟩ := exists_floatMark rest
  have hread : readFloating whole fraction x rest =
      finish (.floating whole fraction x (readFloatSuffix rest).1) .invalidFloatSuffix
        (readFloatSuffix rest).2 := rfl
  rw [hread]
  refine sound_finish ⟨_, .decimal (.floating hbody hmark)⟩ ?_
  rw [List.append_assoc, ← hrest]

lemma allDigits_takeWhile (bs : List UInt8) : AllDigits 10 (bs.takeWhile (isDigitIn 10)) :=
  fun _ hd => List.mem_takeWhile_imp hd

lemma exists_sign (rest : List UInt8) :
    ∃ sign, (sign, startsWith (· = ascii '-') rest) ∈ signs ∧ sign ++
      (if startsWith (· = ascii '-') rest || startsWith (· = ascii '+') rest then rest.tail else rest) =
        rest := by
  cases rest with
  | nil => exact ⟨[], by decide, rfl⟩
  | cons b rest =>
    by_cases hminus : b = ascii '-'
    · subst hminus
      exact ⟨[ascii '-'], by simp [signs, startsWith], by simp [startsWith]⟩
    by_cases hplus : b = ascii '+'
    · subst hplus
      exact ⟨[ascii '+'], by simp [signs, startsWith, hminus], by simp [startsWith]⟩
    · exact ⟨[], by simp [signs, startsWith, hminus], by simp [startsWith, hminus, hplus]⟩

lemma exists_exponent (rest : List UInt8) :
    readExponent rest = (none, rest) ∨ ∃ y e, (readExponent rest).1 = some y ∧
      rest = e ++ (readExponent rest).2 ∧ (y.digits ≠ [] → SpellsExponent e y.value) := by
  unfold readExponent
  split
  next hstart =>
    cases rest with
    | nil => cases hstart
    | cons letter rest =>
      have hletter : letter = ascii 'e' ∨ letter = ascii 'E' := by simpa [startsWith] using hstart
      obtain ⟨sign, hsign, hrest⟩ := exists_sign rest
      refine .inr ⟨_, letter :: (sign ++ List.takeWhile (isDigitIn 10) _), rfl, ?_,
        fun hne => .mk hletter hsign hne (allDigits_takeWhile _)⟩
      rw [List.cons_append, List.append_assoc, List.takeWhile_append_dropWhile]
      exact congrArg (letter :: ·) hrest.symm
  · exact .inl rfl

lemma exists_fraction (rest : List UInt8) :
    readFraction rest = (none, rest) ∨ ∃ fraction, AllDigits 10 fraction ∧
      (readFraction rest).1 = some fraction ∧ rest = ascii '.' :: (fraction ++ (readFraction rest).2) := by
  unfold readFraction
  split
  next hpoint =>
    cases rest with
    | nil => cases hpoint
    | cons b rest =>
      obtain rfl : b = ascii '.' := by simpa [startsWith] using hpoint
      refine .inr ⟨_, allDigits_takeWhile rest, rfl, ?_⟩
      rw [List.tail_cons, List.takeWhile_append_dropWhile]
  · exact .inl rfl

lemma sound_point (hwhole : AllDigits 10 whole) (hfraction : AllDigits 10 fraction)
    (hne : whole ≠ [] ∨ fraction ≠ []) (rest : List UInt8) :
    (conclude whole (some fraction) (readExponent rest).1 (readExponent rest).2).Sound
      (whole ++ ascii '.' :: (fraction ++ rest)) := by
  rcases exists_exponent rest with hnone | ⟨y, e, hsome, hrest, he⟩
  · rw [hnone]
    have hsound := sound_readFloating rest (.point hwhole hfraction hne (.inl ⟨rfl, rfl⟩))
    simpa [conclude] using hsound
  · by_cases hdigits : y.digits = []
    · rw [hsome, conclude, if_pos (by simp [hdigits])]
      exact sound_malformed _ _ _
    · have hsound := sound_readFloating (readExponent rest).2
        (.point hwhole hfraction hne (.inr (he hdigits)))
      rw [List.append_assoc, List.cons_append, List.append_assoc, ← hrest] at hsound
      simpa [hsome, conclude, hdigits] using hsound

lemma sound_noPoint (hwhole : AllDigits 10 whole) (hne : whole ≠ []) (rest : List UInt8) :
    (conclude whole none (readExponent rest).1 (readExponent rest).2).Sound (whole ++ rest) := by
  rcases exists_exponent rest with hnone | ⟨y, e, hsome, hrest, he⟩
  · rw [hnone, conclude, if_neg (by simp)]
    split
    next hsuffix =>
      have hmark : (readFloatSuffix rest).1 ≠ .none := by simpa using hsuffix
      exact sound_readFloating rest (.digits hmark hwhole hne)
    · exact sound_readWhole hwhole hne rest
  · by_cases hdigits : y.digits = []
    · rw [hsome, conclude, if_pos (by simp [hdigits])]
      exact sound_malformed _ _ _
    · have hsound := sound_readFloating (readExponent rest).2 (.exponent hwhole hne (he hdigits))
      rw [List.append_assoc, ← hrest] at hsound
      simpa [hsome, conclude, hdigits] using hsound

lemma sound_readHexadecimal {marker : UInt8} (hmarker : marker = ascii 'x' ∨ marker = ascii 'X')
    (rest : List UInt8) : (readHexadecimal rest).Sound (ascii '0' :: marker :: rest) := by
  unfold readHexadecimal
  dsimp only
  split
  · exact sound_malformed _ _ _
  next hne =>
    have hdigits : AllDigits 16 (rest.takeWhile (isDigitIn 16)) := fun _ hd => List.mem_takeWhile_imp hd
    have hsound := sound_readInteger (ascii '0' :: marker :: rest.takeWhile (isDigitIn 16))
      (fun m hm => ⟨_, .hexadecimal hmarker (by simpa using hne) hdigits hm⟩) 16
      (rest.takeWhile (isDigitIn 16)) (rest.dropWhile (isDigitIn 16))
    rwa [List.cons_append, List.cons_append, List.takeWhile_append_dropWhile] at hsound

lemma sound_readDecimal {b : UInt8} (hstart : Shading.Reading.startsNumeral b bs = true) :
    (readDecimal (b :: bs)).Sound (b :: bs) := by
  rw [Shading.Reading.startsNumeral, Bool.or_eq_true, Bool.and_eq_true, decide_eq_true_eq] at hstart
  rcases hstart with hb | ⟨rfl, hfirst⟩
  · have hne : (b :: bs).takeWhile (isDigitIn 10) ≠ [] := by simp [hb]
    have hwhole := allDigits_takeWhile (b :: bs)
    have hsplit := List.takeWhile_append_dropWhile (p := isDigitIn 10) (l := b :: bs)
    rw [readDecimal_eq_conclude]
    generalize (b :: bs).takeWhile (isDigitIn 10) = whole at *
    generalize (b :: bs).dropWhile (isDigitIn 10) = behind at *
    rw [← hsplit]
    rcases exists_fraction behind with hnone | ⟨fraction, hfraction, hsome, hbehind⟩
    · rw [hnone]
      exact sound_noPoint hwhole hne behind
    · have hsound := sound_point hwhole hfraction (.inl hne) (readFraction behind).2
      rw [← hbehind] at hsound
      rwa [hsome]
  · have hfraction : bs.takeWhile (isDigitIn 10) ≠ [] := by
      cases bs with
      | nil => cases hfirst
      | cons d bs => simp [show isDigitIn 10 d = true from hfirst]
    have hsound := sound_point (allDigits_nil 10) (allDigits_takeWhile bs) (.inr hfraction)
      (bs.dropWhile (isDigitIn 10))
    rwa [List.takeWhile_append_dropWhile] at hsound

theorem sound_read {b : UInt8} (hstart : Shading.Reading.startsNumeral b bs = true) :
    (read (b :: bs)).Sound (b :: bs) := by
  unfold read
  split
  next hread =>
    rcases (Bool.or_eq_true _ _).mp hread with hlower | hupper
    · obtain ⟨rest, hrest⟩ := List.isPrefixOf_iff_prefix.1 hlower
      rw [← hrest]
      exact sound_readHexadecimal (.inl rfl) rest
    · obtain ⟨rest, hrest⟩ := List.isPrefixOf_iff_prefix.1 hupper
      rw [← hrest]
      exact sound_readHexadecimal (.inr rfl) rest
  · exact sound_readDecimal hstart

/-! ### The longest literal -/

section Longest

variable {b : UInt8} {literal : List UInt8}

lemma exists_literal (hstart : Shading.Reading.startsNumeral b bs = true) :
    ∃ literal, (∃ n, Spells literal n) ∧ literal <+: b :: bs := by
  rw [Shading.Reading.startsNumeral, Bool.or_eq_true, Bool.and_eq_true, decide_eq_true_eq] at hstart
  rcases hstart with hb | ⟨rfl, hfirst⟩
  · refine ⟨[b], ?_, bs, rfl⟩
    have hnone : ([], false) ∈ unsignedMarks := by decide
    by_cases hzero : b = ascii '0'
    · rw [hzero]
      exact ⟨_, .decimal (.integer (.octal (allDigits_nil 8)) hnone)⟩
    · exact ⟨_, .decimal (.integer (.decimal hb hzero (allDigits_nil 10)) hnone)⟩
  · cases bs with
    | nil => cases hfirst
    | cons d bs =>
      have hd : AllDigits 10 [d] := by simpa [AllDigits, startsWith] using hfirst
      have hbody : SpellsBody .none [ascii '.', d] [] [d] 0 :=
        .point (allDigits_nil 10) hd (.inr (by simp)) (.inl ⟨rfl, rfl⟩)
      exact ⟨[ascii '.', d], ⟨_, .decimal (.floating hbody nil_mem_floatMarks)⟩, bs, rfl⟩

open Classical in
theorem exists_isLongest (hstart : Shading.Reading.startsNumeral b bs = true) :
    ∃ literal, IsLongest literal (b :: bs) := by
  let literalOf (k : Nat) : Prop := ∃ n, Spells ((b :: bs).take k) n
  obtain ⟨literal, ⟨n, hn⟩, hfront⟩ := exists_literal hstart
  have hknown {other : List UInt8} (m : Numeral) (hm : Spells other m) (hother : other <+: b :: bs) :
      literalOf other.length := ⟨m, by rwa [← List.prefix_iff_eq_take.1 hother]⟩
  refine ⟨(b :: bs).take (Nat.findGreatest literalOf (b :: bs).length), ?_, List.take_prefix _ _, ?_⟩
  · exact Nat.findGreatest_spec hfront.length_le (hknown n hn hfront)
  · intro other m hm hother
    have hle := Nat.le_findGreatest hother.length_le (hknown m hm hother)
    rw [List.length_take]
    exact le_min hle hother.length_le

/-- Behind the longest literal no point follows digits. -/
lemma IsLongest.no_point {rest : List UInt8} (h : IsLongest literal (literal ++ rest))
    (hdigits : AllDigits 10 literal) : startsWith (· = ascii '.') rest = false := by
  by_contra hpoint
  cases rest with
  | nil => exact hpoint rfl
  | cons c rest =>
    obtain rfl : c = ascii '.' := by simpa [startsWith] using hpoint
    obtain ⟨n, hn⟩ := h.spells
    have hbody : SpellsBody .none (literal ++ [ascii '.']) literal [] 0 :=
      .point (e := []) hdigits (allDigits_nil 10) (.inl hn.ne_nil) (.inl ⟨rfl, rfl⟩)
    have hlonger := h.longest _ _ (.decimal (.floating hbody nil_mem_floatMarks)) (by simp)
    simp at hlonger

/-- The longest literal is the constant that is read, unless a word runs on behind it. -/
theorem read_isLongest {rest : List UInt8} (hstart : Shading.Reading.startsNumeral b bs = true)
    (hbs : b :: bs = literal ++ rest) (h : IsLongest literal (b :: bs)) :
    (startsWith Identifier.canContinue rest = false → ∀ n, Spells literal n →
        read (b :: bs) = { outcome := .ok n.scanned, rest }) ∧
      (startsWith Identifier.canContinue rest = true → ∃ cause, (read (b :: bs)).outcome = .error cause) := by
  constructor
  · intro hboundary n hn
    rw [hbs] at h ⊢
    exact read_spelled hn hboundary h.no_point
  · intro hword
    cases hread : (read (b :: bs)).outcome with
    | error cause => exact ⟨cause, rfl⟩
    | ok m =>
      obtain ⟨other, ⟨k, hk⟩, hsplit, hboundary⟩ := sound_read hstart m hread
      obtain ⟨n, hn⟩ := h.spells
      have hpasses := (read_suffix_rest hn rest).length_le
      rw [← hbs] at hpasses
      have hshorter := h.longest other k hk ⟨_, hsplit.symm⟩
      have hlengths := congrArg List.length (hsplit.symm.trans hbs)
      simp only [List.length_append] at hlengths
      have hrest : (read (b :: bs)).rest = rest :=
        List.append_inj_right' (hsplit.symm.trans hbs) (by omega)
      rw [hrest, hword] at hboundary
      cases hboundary

/-- What is read without an error is the longest literal, and no word runs on behind it. -/
theorem isLongest_of_read {rest : List UInt8} (hstart : Shading.Reading.startsNumeral b bs = true)
    (hbs : b :: bs = literal ++ rest) (hread : read (b :: bs) = { outcome := .ok n, rest }) :
    IsLongest literal (b :: bs) ∧ startsWith Identifier.canContinue rest = false := by
  obtain ⟨longest, hlongest⟩ := exists_isLongest hstart
  obtain ⟨behind, hsplit⟩ := hlongest.front
  obtain ⟨m, hm⟩ := hlongest.spells
  obtain ⟨haccepts, hrefuses⟩ := read_isLongest hstart hsplit.symm hlongest
  have hboundary : startsWith Identifier.canContinue behind = false := by
    by_contra hword
    obtain ⟨cause, hcause⟩ := hrefuses (Bool.eq_true_of_not_eq_false hword)
    rw [hread] at hcause
    cases hcause
  have hsame := haccepts hboundary m hm
  rw [hread] at hsame
  obtain ⟨-, rfl⟩ := Reading.mk.inj hsame
  obtain rfl : longest = literal := List.append_cancel_right (hsplit.trans hbs)
  exact ⟨hlongest, hboundary⟩

end Longest

end Numeral

namespace Reading

open Text

variable {b : UInt8} {bs : List UInt8}

lemma read_of_startsNumeral (h : startsNumeral b bs = true) : read b bs = readNumeral (b :: bs) := by
  have hplain : ∀ b : UInt8, (isDigitIn 10 b || b = ascii '.') = true →
      isBreak b = false ∧ isBlank b = false ∧ b ≠ ascii '\\' ∧ b ≠ ascii '/' ∧ b ≠ ascii '"' := by
    decide +kernel
  have hfirst : (isDigitIn 10 b || b = ascii '.') = true := by
    rw [startsNumeral, Bool.or_eq_true, Bool.and_eq_true] at h
    simpa using h.imp id And.left
  obtain ⟨hbreak, hblank, hbackslash, hslash, hquote⟩ := hplain b hfirst
  unfold read
  rw [afterBreak?_cons_eq_none.2 hbreak]
  dsimp only
  rw [if_neg (by simp [startsBlanks, hblank, hbackslash]), if_neg (by simp [hslash]),
    if_neg (by simp [hslash]), if_neg hquote, if_pos h]

end Reading

namespace Cursor

open Numeral

variable {c : Cursor} {b : UInt8} {bs : List UInt8}

lemma read_numeral {n : Numeral} {rest : List UInt8} (hc : c.rest = b :: bs)
    (hstart : Reading.startsNumeral b bs = true)
    (hread : Numeral.read (b :: bs) = { outcome := .ok n, rest }) :
    c.read.1 = ⟨c.location, n.token.1, if n.token.2 then some (.overflow n.type) else none⟩ ∧
      c.read.2.rest = rest := by
  obtain ⟨location, front⟩ := c
  subst hc
  have hnumeral : Reading.read b bs =
      ⟨n.token.1, if n.token.2 then some (.overflow n.type) else none, rest⟩ := by
    rw [Reading.read_of_startsNumeral hstart, Reading.readNumeral, hread]
  simp only [read, hnumeral, and_self]

lemma read_malformed {cause : LexicalError} (hc : c.rest = b :: bs)
    (hstart : Reading.startsNumeral b bs = true) (hread : (Numeral.read (b :: bs)).outcome = .error cause) :
    c.read.1 = ⟨c.location, .invalid, some (.error cause)⟩ := by
  obtain ⟨location, front⟩ := c
  subst hc
  have hnumeral : Reading.read b bs = Reading.invalid cause (Numeral.read (b :: bs)).rest := by
    rw [Reading.read_of_startsNumeral hstart, Reading.readNumeral, hread]
  simp only [read, hnumeral, Reading.invalid]

/-- Where a constant begins, it is the longest literal there. It has the literal's value and type, and nothing
but an overflow is reported of it. If a word runs on behind the literal, there is no constant but an error at
the place where it begins, and never that a floating-point number cannot be read: what is read as the value of
one is a body of the grammar. -/
theorem read_longest_literal (source : String) (hc : c.rest = b :: bs)
    (hstart : Reading.startsNumeral b bs = true) :
    ∃ literal rest, c.rest = literal ++ rest ∧ IsLongest literal c.rest ∧
      (c.read.1.token.constantType?.isSome = true ↔ startsWith Identifier.canContinue rest = false) ∧
      (startsWith Identifier.canContinue rest = false → c.taken = literal ∧ ∀ n, Spells literal n →
        c.read.1.token = n.token.1 ∧ c.read.1.token.constantType? = some n.type ∧
        c.read.1.fault = if n.token.2 then some (.overflow n.type) else none) ∧
      (startsWith Identifier.canContinue rest = true → c.read.1.token = .invalid ∧
        ∃ cause ∈ causes, cause.message ≠ "Invalid floating point constant" ∧
          c.read.1.diagnostic? source = some ⟨source, c.location, .invalid, .error (.lexical cause)⟩) ∧
      ∀ whole fraction x suffix, (Numeral.read c.rest).outcome = .ok (.floating whole fraction x suffix) →
        ∃ body mark, c.taken = body ++ mark ∧ (mark, suffix) ∈ floatMarks ∧
          SpellsBody suffix body whole fraction x := by
  obtain ⟨literal, hlongest⟩ := exists_isLongest hstart
  obtain ⟨rest, hsplit⟩ := hlongest.front
  obtain ⟨n, hn⟩ := hlongest.spells
  obtain ⟨haccepts, hrefuses⟩ := read_isLongest hstart hsplit.symm hlongest
  have htaken (hboundary : startsWith Identifier.canContinue rest = false) : c.taken = literal := by
    apply taken_eq
    rw [(read_numeral hc hstart (haccepts hboundary n hn)).2, hc, hsplit]
  have hconstant (hboundary : startsWith Identifier.canContinue rest = false) (n : Numeral)
      (hn : Spells literal n) :
      c.read.1 = ⟨c.location, n.token.1, if n.token.2 then some (.overflow n.type) else none⟩ := by
    rw [(read_numeral hc hstart (haccepts hboundary n hn)).1, token_scanned, type_scanned]
  have hinvalid (hword : startsWith Identifier.canContinue rest = true) :
      ∃ cause ∈ causes, c.read.1 = ⟨c.location, .invalid, some (.error cause)⟩ := by
    obtain ⟨cause, hcause⟩ := hrefuses hword
    exact ⟨cause, failsKnown_read _ cause hcause, read_malformed hc hstart hcause⟩
  have hmessages : ∀ cause ∈ causes, cause.message ≠ "Invalid floating point constant" := by decide +kernel
  refine ⟨literal, rest, by rw [hc, hsplit], hc ▸ hlongest, ⟨?_, ?_⟩, ?_, ?_, ?_⟩
  · intro hsome
    by_contra hword
    obtain ⟨cause, -, hread⟩ := hinvalid (Bool.eq_true_of_not_eq_false hword)
    rw [hread] at hsome
    cases hsome
  · intro hboundary
    rw [hconstant hboundary n hn, n.constantType?_token]
    rfl
  · intro hboundary
    refine ⟨htaken hboundary, fun m hm => ?_⟩
    rw [hconstant hboundary m hm]
    exact ⟨rfl, m.constantType?_token, rfl⟩
  · intro hword
    obtain ⟨cause, hknown, hread⟩ := hinvalid hword
    rw [hread]
    exact ⟨rfl, cause, hknown, hmessages cause hknown, rfl⟩
  · intro whole fraction x suffix hfloating
    have hboundary : startsWith Identifier.canContinue rest = false := by
      by_contra hword
      obtain ⟨cause, hcause⟩ := hrefuses (Bool.eq_true_of_not_eq_false hword)
      rw [hc, hcause] at hfloating
      cases hfloating
    rw [hc, haccepts hboundary n hn] at hfloating
    obtain rfl := floating_of_scanned (Except.ok.inj hfloating)
    rw [htaken hboundary]
    cases hn with
    | decimal h =>
      cases h with
      | floating hbody hmark => exact ⟨_, _, rfl, hmark, hbody⟩

/-- A zero in front of a fraction makes no octal integer. -/
theorem read_longest_literal_leadingZero :
    let c : Cursor := { rest := Text.bytes "09.5f;" }
    c.rest = ascii '0' :: Text.bytes "9.5f;" ∧
      Reading.startsNumeral (ascii '0') (Text.bytes "9.5f;") = true ∧
      IsLongest (Text.bytes "09.5f") c.rest ∧ c.taken = Text.bytes "09.5f" ∧
      c.read.1.token.constantType? = some .float := by
  intro c
  have hstart : Reading.startsNumeral (ascii '0') (Text.bytes "9.5f;") = true := by decide +kernel
  have htaken : c.taken = Text.bytes "09.5f" := by decide +kernel
  have htype : c.read.1.token.constantType? = some .float := by decide +kernel
  obtain ⟨literal, rest, -, hlongest, hconstant, haccepts, -⟩ := read_longest_literal (c := c) "s" rfl hstart
  have hliteral := (haccepts (hconstant.1 (by rw [htype]; rfl))).1
  rw [← hliteral, htaken] at hlongest
  exact ⟨rfl, hstart, hlongest, htaken, htype⟩

end Cursor

end Shading
