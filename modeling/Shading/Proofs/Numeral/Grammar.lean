import Shading.Proofs.Lexeme.Faults

/-!
# The grammar of numeric constants

A constant is a literal of the grammar: the longest one in front of the source. Where a word goes on behind
it there is none, for no reader looks for a shorter one.
-/

namespace Shading

namespace Numeral

open Text

def AllDigits (radix : Nat) (digits : List UInt8) : Prop :=
  ∀ d ∈ digits, isDigitIn radix d = true

/-- What may stand behind the digits of an integer, and whether it makes the integer unsigned. -/
def unsignedMarks : List (List UInt8 × Bool) :=
  [([], false), ([ascii 'u'], true), ([ascii 'U'], true)]

/-- What may stand behind the body of a floating-point constant. -/
def floatMarks : List (List UInt8 × FloatSuffix) :=
  [([], .none), ([ascii 'f'], .float), ([ascii 'F'], .float), ([ascii 'l', ascii 'f'], .double),
    ([ascii 'L', ascii 'F'], .double)]

/-- What may stand in front of the digits of an exponent, and whether it makes the exponent negative. -/
def signs : List (List UInt8 × Bool) :=
  [([], false), ([ascii '+'], false), ([ascii '-'], true)]

/-- The text of an exponent, and its value. -/
inductive SpellsExponent : List UInt8 → Int → Prop
  | mk {letter : UInt8} (hletter : letter = ascii 'e' ∨ letter = ascii 'E') {sign : List UInt8}
      {negative : Bool} (hsign : (sign, negative) ∈ signs) {digits : List UInt8} (hne : digits ≠ [])
      (hdigits : AllDigits 10 digits) :
      SpellsExponent (letter :: (sign ++ digits)) (Exponent.value ⟨negative, digits⟩)

/-- The text of a floating-point constant in front of its suffix, its digits before and behind the point,
and its exponent. Digits alone are such a text if there is a suffix. -/
inductive SpellsBody (suffix : FloatSuffix) : List UInt8 → List UInt8 → List UInt8 → Int → Prop
  | point {whole fraction : List UInt8} (hwhole : AllDigits 10 whole) (hfraction : AllDigits 10 fraction)
      (hne : whole ≠ [] ∨ fraction ≠ []) {e : List UInt8} {x : Int}
      (he : e = [] ∧ x = 0 ∨ SpellsExponent e x) :
      SpellsBody suffix (whole ++ ascii '.' :: (fraction ++ e)) whole fraction x
  | exponent {whole : List UInt8} (hwhole : AllDigits 10 whole) (hne : whole ≠ []) {e : List UInt8} {x : Int}
      (he : SpellsExponent e x) : SpellsBody suffix (whole ++ e) whole [] x
  | digits (hsuffix : suffix ≠ .none) {whole : List UInt8} (hwhole : AllDigits 10 whole)
      (hne : whole ≠ []) : SpellsBody suffix whole whole [] 0

/-- The digits of octal and decimal integers, with the radix and the digits that count. -/
inductive SpellsWhole : List UInt8 → Nat → List UInt8 → Prop
  | octal {digits : List UInt8} (hdigits : AllDigits 8 digits) : SpellsWhole (ascii '0' :: digits) 8 digits
  | decimal {d : UInt8} (hd : isDigitIn 10 d = true) (hzero : d ≠ ascii '0') {digits : List UInt8}
      (hdigits : AllDigits 10 digits) : SpellsWhole (d :: digits) 10 (d :: digits)

/-- The literals of octal and decimal integers and of floating-point numbers. -/
inductive SpellsDecimal : List UInt8 → Numeral → Prop
  | integer {whole : List UInt8} {radix : Nat} {digits : List UInt8} (hwhole : SpellsWhole whole radix digits)
      {mark : List UInt8} {unsigned : Bool} (hmark : (mark, unsigned) ∈ unsignedMarks) :
      SpellsDecimal (whole ++ mark) (.integer radix digits unsigned)
  | floating {body whole fraction : List UInt8} {x : Int} {suffix : FloatSuffix}
      (hbody : SpellsBody suffix body whole fraction x) {mark : List UInt8}
      (hmark : (mark, suffix) ∈ floatMarks) :
      SpellsDecimal (body ++ mark) (.floating whole fraction x suffix)

/-- The literals and what they stand for. -/
inductive Spells : List UInt8 → Numeral → Prop
  | hexadecimal {marker : UInt8} (hmarker : marker = ascii 'x' ∨ marker = ascii 'X') {digits : List UInt8}
      (hne : digits ≠ []) (hdigits : AllDigits 16 digits) {mark : List UInt8} {unsigned : Bool}
      (hmark : (mark, unsigned) ∈ unsignedMarks) :
      Spells (ascii '0' :: marker :: (digits ++ mark)) (.integer 16 digits unsigned)
  | decimal {literal : List UInt8} {n : Numeral} (h : SpellsDecimal literal n) : Spells literal n

/-- The longest literal in front of a source. -/
structure IsLongest (literal bs : List UInt8) : Prop where
  spells : ∃ n, Spells literal n
  front : literal <+: bs
  longest : ∀ other n, Spells other n → other <+: bs → other.length ≤ literal.length

/-- The numeral as it is read: a zero alone is a decimal integer. -/
def scanned : Numeral → Numeral
  | .integer 8 [] unsigned => .integer 10 [ascii '0'] unsigned
  | n => n

lemma token_scanned (n : Numeral) : n.scanned.token = n.token := by
  unfold scanned
  split
  next unsigned => cases unsigned <;> rfl
  · rfl

lemma type_scanned (n : Numeral) : n.scanned.type = n.type := by
  unfold scanned
  split <;> rfl

lemma floating_of_scanned {n : Numeral} {whole fraction : List UInt8} {x : Int} {suffix : FloatSuffix}
    (h : n.scanned = .floating whole fraction x suffix) : n = .floating whole fraction x suffix := by
  unfold scanned at h
  split at h
  · cases h
  · exact h

/-! ### Where the parts of a literal end -/

variable {p q : UInt8 → Bool} {front rest mark digits whole fraction : List UInt8}

lemma startsWith_front (hne : front ≠ []) (rest : List UInt8) :
    startsWith p (front ++ rest) = startsWith p front := by
  rw [startsWith, List.head?_append_of_ne_nil _ hne, startsWith]

lemma startsWith_mono (hpq : ∀ b, p b = true → q b = true) (hrest : startsWith q rest = false) :
    startsWith p rest = false := by
  cases rest with
  | nil => rfl
  | cons b rest =>
    by_contra h
    have hq : q b = true := hpq b (Bool.eq_true_of_not_eq_false h)
    exact Bool.false_ne_true (hrest.symm.trans hq)

lemma startsWith_letters (letters : List UInt8) (hletters : letters.all Identifier.canContinue = true)
    (hp : ∀ b, p b = true → b ∈ letters) (hrest : startsWith Identifier.canContinue rest = false) :
    startsWith p rest = false :=
  startsWith_mono (fun b hb => List.all_eq_true.1 hletters b (hp b hb)) hrest

lemma dropWhile_of_startsWith (h : startsWith p rest = false) : rest.dropWhile p = rest := by
  cases rest with
  | nil => rfl
  | cons b rest => exact List.dropWhile_cons_of_neg (Bool.not_eq_true _ ▸ h)

lemma takeWhile_of_startsWith (h : startsWith p rest = false) : rest.takeWhile p = [] := by
  cases rest with
  | nil => rfl
  | cons b rest => exact List.takeWhile_cons_of_neg (Bool.not_eq_true _ ▸ h)

lemma allDigits_nil (radix : Nat) : AllDigits radix [] := by
  simp [AllDigits]

lemma nil_mem_floatMarks : ([], .none) ∈ floatMarks :=
  List.mem_cons_self

lemma AllDigits.decimal (h : AllDigits 8 digits) : AllDigits 10 digits := by
  intro d hd
  have hoctal := h d hd
  simp only [isDigitIn, decide_eq_true_eq] at hoctal ⊢
  omega

/-- No number goes on in front of the bytes: they begin with no digit and no exponent. -/
def Stops (rest : List UInt8) : Prop :=
  startsWith (isDigitIn 10) rest = false ∧ startsWith (fun b => b = ascii 'e' || b = ascii 'E') rest = false

lemma stops_of_boundary (hrest : startsWith Identifier.canContinue rest = false) : Stops rest :=
  ⟨startsWith_mono (fun b hb => by simp [Identifier.canContinue, hb]) hrest,
    startsWith_letters [ascii 'e', ascii 'E'] rfl (by simp) hrest⟩

lemma stops_mark {suffix : FloatSuffix} (hmark : (mark, suffix) ∈ floatMarks)
    (hrest : suffix = .none → startsWith Identifier.canContinue rest = false) :
    Stops (mark ++ rest) ∧ (startsWith (· = ascii '.') (mark ++ rest) = false ∨ suffix = .none) := by
  simp only [floatMarks, List.mem_cons, Prod.mk.injEq, List.not_mem_nil, or_false] at hmark
  rcases hmark with ⟨rfl, rfl⟩ | ⟨rfl, rfl⟩ | ⟨rfl, rfl⟩ | ⟨rfl, rfl⟩ | ⟨rfl, rfl⟩
  · exact ⟨stops_of_boundary (hrest rfl), .inr rfl⟩
  all_goals exact ⟨⟨rfl, rfl⟩, .inl rfl⟩

/-! ### Reading the parts -/

section Parts

variable {radix : Nat} {unsigned : Bool} {suffix : FloatSuffix} {e : List UInt8} {x : Int}

lemma finish_boundary (hrest : startsWith Identifier.canContinue rest = false) (n : Numeral)
    (cause : LexicalError) : finish n cause rest = { outcome := .ok n, rest } := by
  rw [finish, if_neg (by simp [hrest])]

lemma readInteger_marked (hmark : (mark, unsigned) ∈ unsignedMarks)
    (hrest : startsWith Identifier.canContinue rest = false) :
    readInteger radix digits (mark ++ rest) =
      { outcome := .ok (.integer radix digits unsigned), rest } := by
  have hsigned : startsWith (fun b => b = ascii 'u' || b = ascii 'U') rest = false :=
    startsWith_letters [ascii 'u', ascii 'U'] rfl (by simp) hrest
  simp only [unsignedMarks, List.mem_cons, Prod.mk.injEq, List.not_mem_nil, or_false] at hmark
  rcases hmark with ⟨rfl, rfl⟩ | ⟨rfl, rfl⟩ | ⟨rfl, rfl⟩
  · rw [List.nil_append, readInteger, hsigned]
    exact finish_boundary hrest _ _
  all_goals exact finish_boundary hrest _ _

lemma readInteger_passes (hmark : (mark, unsigned) ∈ unsignedMarks) (rest : List UInt8) :
    (readInteger radix digits (mark ++ rest)).rest <:+ rest := by
  simp only [unsignedMarks, List.mem_cons, Prod.mk.injEq, List.not_mem_nil, or_false] at hmark
  rcases hmark with ⟨rfl, rfl⟩ | ⟨rfl, rfl⟩ | ⟨rfl, rfl⟩
  · exact readInteger_suffix _ _ _
  all_goals exact finish_suffix _ _ rest

lemma readFloatSuffix_marked (hmark : (mark, suffix) ∈ floatMarks)
    (hrest : suffix = .none → startsWith Identifier.canContinue rest = false) :
    readFloatSuffix (mark ++ rest) = (suffix, rest) := by
  simp only [floatMarks, List.mem_cons, Prod.mk.injEq, List.not_mem_nil, or_false] at hmark
  rcases hmark with ⟨rfl, rfl⟩ | ⟨rfl, rfl⟩ | ⟨rfl, rfl⟩ | ⟨rfl, rfl⟩ | ⟨rfl, rfl⟩
  · have hboundary := hrest rfl
    have hfloat : startsWith (fun b => b = ascii 'f' || b = ascii 'F') rest = false :=
      startsWith_letters [ascii 'f', ascii 'F'] rfl (by simp) hboundary
    have hlower : startsWith (· = ascii 'l') rest = false :=
      startsWith_letters [ascii 'l'] rfl (by simp) hboundary
    have hupper : startsWith (· = ascii 'L') rest = false :=
      startsWith_letters [ascii 'L'] rfl (by simp) hboundary
    rw [List.nil_append, readFloatSuffix, hfloat]
    cases rest with
    | nil => rfl
    | cons b rest =>
      simp only [startsWith, List.head?_cons, Option.any_some, decide_eq_false_iff_not] at hlower hupper
      simp [List.isPrefixOf, Ne.symm hlower, Ne.symm hupper]
  all_goals rfl

lemma readExponent_none (hrest : Stops rest) : readExponent rest = (none, rest) := by
  rw [readExponent, if_neg (by simp [hrest.2])]

lemma readExponent_spelled (he : SpellsExponent e x) (rest : List UInt8) :
    ∃ negative digits, digits ≠ [] ∧ x = Exponent.value ⟨negative, digits⟩ ∧
      readExponent (e ++ rest) = (some ⟨negative, digits ++ rest.takeWhile (isDigitIn 10)⟩,
        rest.dropWhile (isDigitIn 10)) := by
  obtain ⟨hletter, hsign, hne, hdigits⟩ := he
  rename_i letter sign negative digits
  have hstart : (letter = ascii 'e' || letter = ascii 'E') = true := by simpa using hletter
  refine ⟨negative, digits, hne, rfl, ?_⟩
  have htake : (digits ++ rest).takeWhile (isDigitIn 10) = digits ++ rest.takeWhile (isDigitIn 10) :=
    List.takeWhile_append_of_pos hdigits
  have hdrop : (digits ++ rest).dropWhile (isDigitIn 10) = rest.dropWhile (isDigitIn 10) :=
    List.dropWhile_append_of_pos hdigits
  have hnosign (c : UInt8) (hc : isDigitIn 10 c = false) : startsWith (· = c) (digits ++ rest) = false := by
    rw [startsWith_front hne]
    obtain ⟨d, tail, rfl⟩ := List.exists_cons_of_ne_nil hne
    have hd : isDigitIn 10 d = true := hdigits d List.mem_cons_self
    simp only [startsWith, List.head?_cons, Option.any_some, decide_eq_false_iff_not]
    rintro rfl
    exact Bool.false_ne_true (hc.symm.trans hd)
  simp only [signs, List.mem_cons, Prod.mk.injEq, List.not_mem_nil, or_false] at hsign
  rcases hsign with ⟨rfl, rfl⟩ | ⟨rfl, rfl⟩ | ⟨rfl, rfl⟩
  · have hminus := hnosign (ascii '-') rfl
    have hplus := hnosign (ascii '+') rfl
    have hletter' : startsWith (fun b => b = ascii 'e' || b = ascii 'E') (letter :: (digits ++ rest)) = true :=
      hstart
    rw [List.nil_append, List.cons_append, readExponent, if_pos hletter']
    simp [hminus, hplus, htake, hdrop]
  · simp [readExponent, startsWith, hstart, htake, hdrop]
    decide
  · simp [readExponent, startsWith, hstart, htake, hdrop]

/-- What becomes of the parts of a decimal constant in front of the rest. -/
def conclude (whole : List UInt8) (fraction : Option (List UInt8)) (exponent : Option Exponent)
    (rest : List UInt8) : Reading :=
  if exponent.any (·.digits.isEmpty) then malformed .exponentWithoutDigits rest
  else if fraction.isSome || exponent.isSome || (readFloatSuffix rest).1 != .none then
    readFloating whole (fraction.getD []) ((exponent.map Exponent.value).getD 0) rest
  else readWhole whole rest

lemma conclude_suffix (whole : List UInt8) (fraction : Option (List UInt8)) (exponent : Option Exponent)
    (rest : List UInt8) : (conclude whole fraction exponent rest).rest <:+ rest := by
  unfold conclude
  split
  · exact malformed_suffix _ _
  · split
    · exact readFloating_suffix _ _ _ _
    · exact readWhole_suffix _ _

lemma readDecimal_eq_conclude (bs : List UInt8) :
    readDecimal bs = conclude (bs.takeWhile (isDigitIn 10)) (readFraction (bs.dropWhile (isDigitIn 10))).1
      (readExponent (readFraction (bs.dropWhile (isDigitIn 10))).2).1
      (readExponent (readFraction (bs.dropWhile (isDigitIn 10))).2).2 := rfl

lemma readDecimal_append_digits (hwhole : AllDigits 10 whole)
    (hrest : startsWith (isDigitIn 10) rest = false) :
    readDecimal (whole ++ rest) = conclude whole (readFraction rest).1
      (readExponent (readFraction rest).2).1 (readExponent (readFraction rest).2).2 := by
  have htake : (whole ++ rest).takeWhile (isDigitIn 10) = whole := by
    rw [List.takeWhile_append_of_pos hwhole, takeWhile_of_startsWith hrest, List.append_nil]
  have hdrop : (whole ++ rest).dropWhile (isDigitIn 10) = rest := by
    rw [List.dropWhile_append_of_pos hwhole, dropWhile_of_startsWith hrest]
  rw [readDecimal_eq_conclude, htake, hdrop]

lemma readDecimal_digits (hwhole : AllDigits 10 whole) (hrest : Stops rest)
    (hpoint : startsWith (· = ascii '.') rest = false) :
    readDecimal (whole ++ rest) = conclude whole none none rest := by
  have hfraction : readFraction rest = (none, rest) := by
    rw [readFraction, if_neg (by simp [hpoint])]
  rw [readDecimal_append_digits hwhole hrest.1, hfraction, readExponent_none hrest]

lemma readFraction_point (hfraction : AllDigits 10 fraction) (rest : List UInt8) :
    readFraction (ascii '.' :: (fraction ++ rest)) =
      (some (fraction ++ rest.takeWhile (isDigitIn 10)), rest.dropWhile (isDigitIn 10)) := by
  have hpoint : startsWith (· = ascii '.') (ascii '.' :: (fraction ++ rest)) = true := rfl
  rw [readFraction, if_pos hpoint, List.tail_cons, List.takeWhile_append_of_pos hfraction,
    List.dropWhile_append_of_pos hfraction]

lemma SpellsExponent.not_digit (he : SpellsExponent e x) (rest : List UInt8) :
    startsWith (isDigitIn 10) (e ++ rest) = false := by
  obtain ⟨rfl | rfl, -, -, -⟩ := he <;> rfl

lemma readDecimal_point (hwhole : AllDigits 10 whole) (hfraction : AllDigits 10 fraction) (rest : List UInt8) :
    readDecimal (whole ++ ascii '.' :: (fraction ++ rest)) =
      conclude whole (some (fraction ++ rest.takeWhile (isDigitIn 10)))
        (readExponent (rest.dropWhile (isDigitIn 10))).1
        (readExponent (rest.dropWhile (isDigitIn 10))).2 := by
  rw [readDecimal_append_digits hwhole rfl, readFraction_point hfraction]

lemma readDecimal_exponent (hwhole : AllDigits 10 whole) (he : SpellsExponent e x) (rest : List UInt8) :
    readDecimal (whole ++ (e ++ rest)) =
      conclude whole none (readExponent (e ++ rest)).1 (readExponent (e ++ rest)).2 := by
  have hfraction : readFraction (e ++ rest) = (none, e ++ rest) := by
    obtain ⟨rfl | rfl, -, -, -⟩ := he <;> rfl
  rw [readDecimal_append_digits hwhole (he.not_digit rest), hfraction]

/-- A body is read as far as it goes where no number goes on behind it. -/
lemma readDecimal_body {body : List UInt8} (hbody : SpellsBody suffix body whole fraction x)
    (hrest : Stops rest) (hsuffix : suffix ≠ .none → (readFloatSuffix rest).1 ≠ .none)
    (hdigits : startsWith (· = ascii '.') rest = false ∨ suffix = .none) :
    readDecimal (body ++ rest) = readFloating whole fraction x rest := by
  have htake := takeWhile_of_startsWith hrest.1
  have hdrop := dropWhile_of_startsWith hrest.1
  cases hbody with
  | @point whole fraction hwhole hfraction hne e x he =>
    rw [List.append_assoc, List.cons_append, List.append_assoc, readDecimal_point hwhole hfraction]
    rcases he with ⟨rfl, rfl⟩ | he
    · rw [List.nil_append, htake, hdrop, readExponent_none hrest, List.append_nil]
      rfl
    · obtain ⟨negative, digits, hne, rfl, hexponent⟩ := readExponent_spelled he rest
      rw [takeWhile_of_startsWith (he.not_digit rest), dropWhile_of_startsWith (he.not_digit rest),
        hexponent, htake, hdrop, List.append_nil, List.append_nil]
      simp [conclude, hne]
  | @exponent whole hwhole hne e x he =>
    obtain ⟨negative, digits, hne, rfl, hexponent⟩ := readExponent_spelled he rest
    rw [List.append_assoc, readDecimal_exponent hwhole he, hexponent, htake, hdrop, List.append_nil]
    simp [conclude, hne]
  | digits hnone hwhole hne =>
    rw [readDecimal_digits hwhole hrest (hdigits.resolve_right hnone)]
    simp [conclude, hsuffix hnone]

lemma readDecimal_passes_digits (hwhole : AllDigits 10 whole) (rest : List UInt8) :
    (readDecimal (whole ++ rest)).rest <:+ rest := by
  refine ((readDecimal_suffix _).trans (readFraction_suffix _)).trans ?_
  rw [List.dropWhile_append_of_pos hwhole]
  exact List.dropWhile_suffix _

lemma readDecimal_passes {body : List UInt8} (hbody : SpellsBody suffix body whole fraction x)
    (rest : List UInt8) : (readDecimal (body ++ rest)).rest <:+ rest := by
  have hdropped := List.dropWhile_suffix (isDigitIn 10) (l := rest)
  cases hbody with
  | @point whole fraction hwhole hfraction hne e x he =>
    rw [List.append_assoc, List.cons_append, List.append_assoc, readDecimal_point hwhole hfraction]
    refine (conclude_suffix _ _ _ _).trans ?_
    rcases he with ⟨rfl, rfl⟩ | he
    · exact (readExponent_suffix _).trans hdropped
    · obtain ⟨negative, digits, -, -, hexponent⟩ := readExponent_spelled he rest
      rw [dropWhile_of_startsWith (he.not_digit rest), hexponent]
      exact hdropped
  | @exponent whole hwhole hne e x he =>
    obtain ⟨negative, digits, -, -, hexponent⟩ := readExponent_spelled he rest
    rw [List.append_assoc, readDecimal_exponent hwhole he]
    refine (conclude_suffix _ _ _ _).trans ?_
    rw [hexponent]
    exact hdropped
  | digits hnone hwhole hne => exact readDecimal_passes_digits hwhole rest

end Parts

/-! ### Literals are read -/

section Literals

variable {literal : List UInt8} {n : Numeral} {radix : Nat} {unsigned : Bool}

lemma SpellsWhole.allDigits (h : SpellsWhole whole radix digits) : AllDigits 10 whole ∧ whole ≠ [] := by
  cases h with
  | octal hdigits => exact ⟨List.forall_mem_cons.2 ⟨rfl, hdigits.decimal⟩, by simp⟩
  | decimal hd hzero hdigits => exact ⟨List.forall_mem_cons.2 ⟨hd, hdigits⟩, by simp⟩

lemma readWhole_spelled (h : SpellsWhole whole radix digits) :
    ∃ r ds, (∀ rest, readWhole whole rest = readInteger r ds rest) ∧
      ∀ unsigned, scanned (.integer radix digits unsigned) = .integer r ds unsigned := by
  cases h with
  | octal hdigits =>
    cases digits with
    | nil => exact ⟨10, [ascii '0'], fun _ => rfl, fun _ => rfl⟩
    | cons d digits =>
      refine ⟨8, d :: digits, fun rest => ?_, fun _ => rfl⟩
      have hall : (ascii '0' :: d :: digits).all (isDigitIn 8) = true :=
        List.all_eq_true.2 (List.forall_mem_cons.2 ⟨rfl, hdigits⟩)
      rw [readWhole, if_pos (by simp), if_pos hall, List.tail_cons]
  | @decimal d hd hzero digits hdigits =>
    exact ⟨10, d :: digits, fun rest => by rw [readWhole, if_neg (by simp [hzero])], fun _ => rfl⟩

lemma unsigned_stops (hmark : (mark, unsigned) ∈ unsignedMarks)
    (hrest : mark = [] → startsWith Identifier.canContinue rest = false) :
    Stops (mark ++ rest) ∧ (readFloatSuffix (mark ++ rest)).1 = .none := by
  simp only [unsignedMarks, List.mem_cons, Prod.mk.injEq, List.not_mem_nil, or_false] at hmark
  rcases hmark with ⟨rfl, rfl⟩ | ⟨rfl, rfl⟩ | ⟨rfl, rfl⟩
  · have hboundary := hrest rfl
    exact ⟨stops_of_boundary hboundary,
      congrArg Prod.fst (readFloatSuffix_marked nil_mem_floatMarks fun _ => hboundary)⟩
  all_goals exact ⟨⟨rfl, rfl⟩, rfl⟩

lemma readDecimal_integer (hwhole : SpellsWhole whole radix digits) (hmark : (mark, unsigned) ∈ unsignedMarks)
    (hrest : mark = [] → startsWith Identifier.canContinue rest = false)
    (hpoint : startsWith (· = ascii '.') (mark ++ rest) = false) :
    readDecimal (whole ++ mark ++ rest) = readWhole whole (mark ++ rest) := by
  obtain ⟨hstops, hnone⟩ := unsigned_stops hmark hrest
  rw [List.append_assoc, readDecimal_digits hwhole.allDigits.1 hstops hpoint]
  simp [conclude, hnone]

lemma startsWith_point (hmark : (mark, unsigned) ∈ unsignedMarks)
    (hpoint : mark = [] → startsWith (· = ascii '.') rest = false) :
    startsWith (· = ascii '.') (mark ++ rest) = false := by
  simp only [unsignedMarks, List.mem_cons, Prod.mk.injEq, List.not_mem_nil, or_false] at hmark
  rcases hmark with ⟨rfl, rfl⟩ | ⟨rfl, rfl⟩ | ⟨rfl, rfl⟩
  · exact hpoint rfl
  all_goals rfl

lemma readDecimal_floating {body : List UInt8} {x : Int} {suffix : FloatSuffix}
    (hbody : SpellsBody suffix body whole fraction x) (hmark : (mark, suffix) ∈ floatMarks)
    (hrest : suffix = .none → startsWith Identifier.canContinue rest = false) :
    readDecimal (body ++ mark ++ rest) =
      finish (.floating whole fraction x suffix) .invalidFloatSuffix rest := by
  have hsuffix := readFloatSuffix_marked hmark hrest
  obtain ⟨hstops, hpoint⟩ := stops_mark hmark hrest
  rw [List.append_assoc, readDecimal_body hbody hstops (fun hne => by rwa [hsuffix]) hpoint, readFloating,
    hsuffix]

/-- A literal that no word runs on behind is read exactly, unless it is digits with a point behind. -/
theorem readDecimal_spelled (h : SpellsDecimal literal n)
    (hrest : startsWith Identifier.canContinue rest = false)
    (hpoint : AllDigits 10 literal → startsWith (· = ascii '.') rest = false) :
    readDecimal (literal ++ rest) = { outcome := .ok n.scanned, rest } := by
  cases h with
  | @integer whole radix digits hwhole mark unsigned hmark =>
    obtain ⟨r, ds, hread, hscanned⟩ := readWhole_spelled hwhole
    have hnopoint : startsWith (· = ascii '.') (mark ++ rest) = false := by
      apply startsWith_point hmark
      rintro rfl
      exact hpoint (by simpa using hwhole.allDigits.1)
    rw [readDecimal_integer hwhole hmark (fun _ => hrest) hnopoint, hread, hscanned]
    exact readInteger_marked hmark hrest
  | @floating body whole fraction x suffix hbody mark hmark =>
    rw [readDecimal_floating hbody hmark fun _ => hrest]
    exact finish_boundary hrest _ _

lemma readDecimal_suffix_rest (h : SpellsDecimal literal n) (rest : List UInt8) :
    (readDecimal (literal ++ rest)).rest <:+ rest := by
  cases h with
  | @integer whole radix digits hwhole mark unsigned hmark =>
    by_cases hnone : mark = []
    · rw [hnone, List.append_nil]
      exact readDecimal_passes_digits hwhole.allDigits.1 rest
    · obtain ⟨r, ds, hread, -⟩ := readWhole_spelled hwhole
      rw [readDecimal_integer hwhole hmark (absurd · hnone)
        (startsWith_point hmark (absurd · hnone)), hread]
      exact readInteger_passes hmark rest
  | @floating body whole fraction x suffix hbody mark hmark =>
    by_cases hnone : suffix = .none
    · obtain rfl : mark = [] := by
        subst hnone
        simpa [floatMarks] using hmark
      rw [List.append_nil]
      exact readDecimal_passes hbody rest
    · rw [readDecimal_floating hbody hmark (absurd · hnone)]
      exact finish_suffix _ _ rest

/-! No literal but a hexadecimal one has the marker of hexadecimal constants. -/

def isMarker (b : UInt8) : Bool :=
  b = ascii 'x' || b = ascii 'X'

lemma AllDigits.unmarked (h : AllDigits 10 digits) : digits.any isMarker = false := by
  refine List.any_eq_false.2 fun d hd hmarker => ?_
  have hdigit := h d hd
  rcases (by simpa [isMarker] using hmarker : d = ascii 'x' ∨ d = ascii 'X') with rfl | rfl <;> cases hdigit

lemma SpellsExponent.unmarked {e : List UInt8} {x : Int} (he : SpellsExponent e x) :
    e.any isMarker = false := by
  obtain ⟨hletter, hsign, -, hdigits⟩ := he
  have hsigns : ∀ s ∈ signs, s.1.any isMarker = false := by decide
  rw [List.any_cons, List.any_append, hsigns _ hsign, hdigits.unmarked]
  rcases hletter with rfl | rfl <;> rfl

lemma SpellsBody.unmarked {body : List UInt8} {x : Int} {suffix : FloatSuffix}
    (h : SpellsBody suffix body whole fraction x) : body.any isMarker = false ∧ body ≠ [] := by
  cases h with
  | point hwhole hfraction hne he =>
    refine ⟨?_, by simp⟩
    rw [List.any_append, List.any_cons, List.any_append, hwhole.unmarked, hfraction.unmarked]
    rcases he with ⟨rfl, -⟩ | he
    · rfl
    · rw [he.unmarked]
      rfl
  | exponent hwhole hne he => exact ⟨by rw [List.any_append, hwhole.unmarked, he.unmarked]; rfl, by simp [hne]⟩
  | digits hsuffix hwhole hne => exact ⟨hwhole.unmarked, hne⟩

lemma SpellsDecimal.unmarked (h : SpellsDecimal literal n) :
    literal.any isMarker = false ∧ literal ≠ [] := by
  cases h with
  | integer hwhole hmark =>
    obtain ⟨hdigits, hne⟩ := hwhole.allDigits
    have hmarks : ∀ m ∈ unsignedMarks, m.1.any isMarker = false := by decide
    exact ⟨by rw [List.any_append, hdigits.unmarked, hmarks _ hmark]; rfl, by simp [hne]⟩
  | floating hbody hmark =>
    obtain ⟨hunmarked, hne⟩ := hbody.unmarked
    have hmarks : ∀ m ∈ floatMarks, m.1.any isMarker = false := by decide
    exact ⟨by rw [List.any_append, hunmarked, hmarks _ hmark]; rfl, by simp [hne]⟩

lemma Spells.ne_nil (h : Spells literal n) : literal ≠ [] := by
  cases h with
  | hexadecimal hmarker hne hdigits hmark => exact List.cons_ne_nil _ _
  | decimal h => exact h.unmarked.2

lemma isMarker_of_isHexadecimal {b c : UInt8} (h : isHexadecimal (b :: c :: rest) = true) :
    isMarker c = true := by
  simp only [isHexadecimal, List.isPrefixOf, Bool.and_true, Bool.or_eq_true, Bool.and_eq_true,
    beq_iff_eq] at h
  rcases h with ⟨-, rfl⟩ | ⟨-, rfl⟩ <;> rfl

/-- Only behind a single digit is another literal taken for the beginning of a hexadecimal one. -/
lemma SpellsDecimal.isHexadecimal (h : SpellsDecimal literal n)
    (hread : isHexadecimal (literal ++ rest) = true) :
    literal.length = 1 ∧ startsWith isMarker rest = true := by
  obtain ⟨hunmarked, hne⟩ := h.unmarked
  match literal, hne with
  | [b], _ =>
    cases rest with
    | nil => simp [Numeral.isHexadecimal, List.isPrefixOf] at hread
    | cons c rest => exact ⟨rfl, isMarker_of_isHexadecimal hread⟩
  | b :: c :: literal, _ =>
    rw [List.any_cons, List.any_cons, isMarker_of_isHexadecimal hread] at hunmarked
    simp at hunmarked

lemma hexadecimal_stops (hmark : (mark, unsigned) ∈ unsignedMarks)
    (hrest : mark = [] → startsWith Identifier.canContinue rest = false) :
    startsWith (isDigitIn 16) (mark ++ rest) = false := by
  simp only [unsignedMarks, List.mem_cons, Prod.mk.injEq, List.not_mem_nil, or_false] at hmark
  rcases hmark with ⟨rfl, rfl⟩ | ⟨rfl, rfl⟩ | ⟨rfl, rfl⟩
  · exact startsWith_mono (by decide +kernel) (hrest rfl)
  all_goals rfl

lemma readHexadecimal_digits {digits : List UInt8} (hdigits : AllDigits 16 digits) (hne : digits ≠ [])
    (rest : List UInt8) :
    readHexadecimal (digits ++ rest) = readInteger 16 (digits ++ rest.takeWhile (isDigitIn 16))
      (rest.dropWhile (isDigitIn 16)) := by
  rw [readHexadecimal, List.takeWhile_append_of_pos hdigits, List.dropWhile_append_of_pos hdigits]
  simp [hne]

/-- A literal is what is read in front of the rest if no word runs on behind it, and no point behind digits
alone. -/
theorem read_spelled (h : Spells literal n) (hrest : startsWith Identifier.canContinue rest = false)
    (hpoint : AllDigits 10 literal → startsWith (· = ascii '.') rest = false) :
    read (literal ++ rest) = { outcome := .ok n.scanned, rest } := by
  cases h with
  | @hexadecimal marker hmarker digits hne hdigits mark unsigned hmark =>
    have hread : isHexadecimal (ascii '0' :: marker :: (digits ++ mark) ++ rest) = true := by
      rcases hmarker with rfl | rfl <;> rfl
    have hstop := hexadecimal_stops hmark fun _ => hrest
    rw [read, if_pos hread, List.cons_append, List.cons_append, List.append_assoc, List.drop_succ_cons,
      List.drop_succ_cons, List.drop_zero, readHexadecimal_digits hdigits hne,
      takeWhile_of_startsWith hstop, dropWhile_of_startsWith hstop, List.append_nil,
      readInteger_marked hmark hrest]
    rfl
  | decimal h =>
    have hread : isHexadecimal (literal ++ rest) ≠ true := by
      intro hread
      have hunmarked : startsWith isMarker rest = false :=
        startsWith_letters [ascii 'x', ascii 'X'] rfl (by simp [isMarker]) hrest
      exact Bool.false_ne_true (hunmarked.symm.trans (h.isHexadecimal hread).2)
    rw [read, if_neg hread]
    exact readDecimal_spelled h hrest hpoint

/-- All of a literal is read, whatever follows. -/
theorem read_suffix_rest (h : Spells literal n) (rest : List UInt8) :
    (read (literal ++ rest)).rest <:+ rest := by
  cases h with
  | @hexadecimal marker hmarker digits hne hdigits mark unsigned hmark =>
    have hread : isHexadecimal (ascii '0' :: marker :: (digits ++ mark) ++ rest) = true := by
      rcases hmarker with rfl | rfl <;> rfl
    rw [read, if_pos hread, List.cons_append, List.cons_append, List.append_assoc, List.drop_succ_cons,
      List.drop_succ_cons, List.drop_zero, readHexadecimal_digits hdigits hne]
    by_cases hnone : mark = []
    · rw [hnone, List.nil_append]
      exact (readInteger_suffix _ _ _).trans (List.dropWhile_suffix _)
    · rw [dropWhile_of_startsWith (hexadecimal_stops hmark (absurd · hnone))]
      exact readInteger_passes hmark rest
  | decimal h =>
    rw [read]
    split
    next hread =>
      obtain ⟨b, rfl⟩ := List.length_eq_one_iff.1 (h.isHexadecimal hread).1
      refine (readHexadecimal_suffix _).trans ?_
      rw [List.singleton_append, List.drop_succ_cons]
      exact List.drop_suffix 1 rest
    · exact readDecimal_suffix_rest h rest

end Literals

end Numeral

end Shading
