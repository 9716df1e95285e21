import Shading.Error
import Shading.Numeral.Word
import Shading.Token

/-!
# Numeric constants

A constant is spelled as an integer in radix 8, 10 or 16 with an optional unsigned suffix, or as
a floating-point number with a fraction, an exponent or a suffix. Reading takes the longest
spelling; where it goes wrong, everything that could belong to a number or a word is passed over.
-/
namespace Shading

/-- What follows the digits of a floating-point constant. -/
inductive FloatSuffix
  | none | float | double
  deriving DecidableEq, Repr

/-- The spelling of a numeric constant. -/
inductive Numeral
  | integer (radix : Nat) (digits : List UInt8) (unsigned : Bool)
  | floating (whole fraction : List UInt8) (exponent : Int) (suffix : FloatSuffix)
  deriving DecidableEq, Repr

namespace Numeral

/-- Whether the bytes begin with one that satisfies `p`. -/
def startsWith (p : UInt8 → Bool) (bs : List UInt8) : Bool :=
  bs.head?.any p

/-- Whether malformed constants are passed over up to the byte. -/
def isRemnant (b : UInt8) : Bool :=
  Identifier.canContinue b || b = ascii '.'

/-- The outcome of reading a constant, and what follows it. -/
structure Reading where
  outcome : Except LexicalError Numeral
  rest : List UInt8

/-- A constant that goes wrong in front of `rest`. -/
def malformed (cause : LexicalError) (rest : List UInt8) : Reading :=
  { outcome := .error cause, rest := rest.dropWhile isRemnant }

/-- The end of a constant: it must not run into a word. -/
def finish (numeral : Numeral) (cause : LexicalError) (rest : List UInt8) : Reading :=
  if startsWith Identifier.canContinue rest then malformed cause rest
  else { outcome := .ok numeral, rest }

/-- An integer constant behind its digits. -/
def readInteger (radix : Nat) (digits rest : List UInt8) : Reading :=
  let unsigned := startsWith (fun b => b = ascii 'u' || b = ascii 'U') rest
  finish (.integer radix digits unsigned) .invalidIntegerSuffix
    (if unsigned then rest.tail else rest)

/-- The suffix of a floating-point constant, and what follows it. -/
def readFloatSuffix (rest : List UInt8) : FloatSuffix × List UInt8 :=
  if [ascii 'l', ascii 'f'].isPrefixOf rest || [ascii 'L', ascii 'F'].isPrefixOf rest then
    (.double, rest.drop 2)
  else if startsWith (fun b => b = ascii 'f' || b = ascii 'F') rest then (.float, rest.tail)
  else (.none, rest)

/-- The digits behind a point, if there is a point, and what follows them. -/
def readFraction (rest : List UInt8) : Option (List UInt8) × List UInt8 :=
  if startsWith (· = ascii '.') rest then
    (some (rest.tail.takeWhile (Text.isDigitIn 10)), rest.tail.dropWhile (Text.isDigitIn 10))
  else (none, rest)

/-- An exponent: whether it is negative, and its digits. -/
structure Exponent where
  negative : Bool
  digits : List UInt8
  deriving DecidableEq, Repr

/-- The number an exponent stands for. -/
def Exponent.value (e : Exponent) : Int :=
  let n : Int := Text.valueIn 10 e.digits
  if e.negative then -n else n

/-- The exponent, if there is one, and what follows it. -/
def readExponent (rest : List UInt8) : Option Exponent × List UInt8 :=
  if startsWith (fun b => b = ascii 'e' || b = ascii 'E') rest then
    let negative := startsWith (· = ascii '-') rest.tail
    let signed := negative || startsWith (· = ascii '+') rest.tail
    let unsigned := if signed then rest.tail.tail else rest.tail
    (some ⟨negative, unsigned.takeWhile (Text.isDigitIn 10)⟩,
      unsigned.dropWhile (Text.isDigitIn 10))
  else (none, rest)

/-- A hexadecimal constant behind its marker. -/
def readHexadecimal (rest : List UInt8) : Reading :=
  let digits := rest.takeWhile (Text.isDigitIn 16)
  let rest := rest.dropWhile (Text.isDigitIn 16)
  if digits.isEmpty then malformed .invalidHexadecimal rest
  else readInteger 16 digits rest

/-- A constant without point and exponent behind its digits: octal if a zero leads others. -/
def readWhole (digits rest : List UInt8) : Reading :=
  if digits.head? = some (ascii '0') && 1 < digits.length then
    if digits.all (Text.isDigitIn 8) then readInteger 8 digits.tail rest
    else malformed .invalidOctal rest
  else readInteger 10 digits rest

/-- A floating-point constant behind its digits. -/
def readFloating (whole fraction : List UInt8) (exponent : Int) (rest : List UInt8) : Reading :=
  let (suffix, rest) := readFloatSuffix rest
  finish (.floating whole fraction exponent suffix) .invalidFloatSuffix rest

/-- A decimal or octal integer, or a floating-point constant. -/
def readDecimal (bs : List UInt8) : Reading :=
  let whole := bs.takeWhile (Text.isDigitIn 10)
  let (fraction, rest) := readFraction (bs.dropWhile (Text.isDigitIn 10))
  let (exponent, rest) := readExponent rest
  if exponent.any (·.digits.isEmpty) then malformed .exponentWithoutDigits rest
  else if fraction.isSome || exponent.isSome || (readFloatSuffix rest).1 != .none then
    readFloating whole (fraction.getD []) ((exponent.map Exponent.value).getD 0) rest
  else readWhole whole rest

/-- Whether the bytes begin with the marker of hexadecimal constants. -/
def isHexadecimal (bs : List UInt8) : Bool :=
  [ascii '0', ascii 'x'].isPrefixOf bs || [ascii '0', ascii 'X'].isPrefixOf bs

/-- The constant in front of bytes that begin with a digit, or with a point and a digit. -/
def read (bs : List UInt8) : Reading :=
  if isHexadecimal bs then readHexadecimal (bs.drop 2) else readDecimal bs

/-- The token of a constant, and whether its value was too large for its type. -/
def token : Numeral → Token × Bool
  | integer radix digits unsigned =>
    let word := Word.ofDigits radix digits
    (if unsigned then .uint word.bits else .int word.bits.toInt32, word.overflow)
  | floating whole fraction exponent suffix =>
    let value : Binary.Value .double :=
      .ofDecimal (Text.valueIn 10 (whole ++ fraction)) (exponent - fraction.length)
    if suffix = .double then (.double value, value.isInfinite)
    else
      let narrowed : Binary.Value .single := value.convert
      (.float narrowed, narrowed.isInfinite)

/-- The type of a constant. -/
def type : Numeral → ConstantType
  | integer _ _ unsigned => if unsigned then .uint else .int
  | floating _ _ _ suffix => if suffix = .double then .double else .float

/-! What is left is a part of the input, and shorter if a digit or a point was in front. -/

theorem malformed_suffix (cause : LexicalError) (rest : List UInt8) :
    (malformed cause rest).rest <:+ rest :=
  List.dropWhile_suffix _

theorem finish_suffix (numeral : Numeral) (cause : LexicalError) (rest : List UInt8) :
    (finish numeral cause rest).rest <:+ rest := by
  unfold finish
  split
  · exact malformed_suffix cause rest
  · exact List.suffix_refl rest

theorem readInteger_suffix (radix : Nat) (digits rest : List UInt8) :
    (readInteger radix digits rest).rest <:+ rest := by
  unfold readInteger
  refine (finish_suffix _ _ _).trans ?_
  split
  · exact List.tail_suffix rest
  · exact List.suffix_refl rest

theorem readFloatSuffix_suffix (rest : List UInt8) : (readFloatSuffix rest).2 <:+ rest := by
  unfold readFloatSuffix
  split
  · exact List.drop_suffix 2 rest
  · split
    · exact List.tail_suffix rest
    · exact List.suffix_refl rest

theorem readFraction_suffix (rest : List UInt8) : (readFraction rest).2 <:+ rest := by
  unfold readFraction
  split
  · exact (List.dropWhile_suffix _).trans (List.tail_suffix rest)
  · exact List.suffix_refl rest

theorem readExponent_suffix (rest : List UInt8) : (readExponent rest).2 <:+ rest := by
  unfold readExponent
  split
  · refine (List.dropWhile_suffix _).trans ?_
    split
    · exact (List.tail_suffix _).trans (List.tail_suffix rest)
    · exact List.tail_suffix rest
  · exact List.suffix_refl rest

theorem readHexadecimal_suffix (rest : List UInt8) : (readHexadecimal rest).rest <:+ rest := by
  unfold readHexadecimal
  dsimp only
  split
  · exact (malformed_suffix _ _).trans (List.dropWhile_suffix _)
  · exact (readInteger_suffix _ _ _).trans (List.dropWhile_suffix _)

theorem readWhole_suffix (digits rest : List UInt8) : (readWhole digits rest).rest <:+ rest := by
  unfold readWhole
  split
  · split
    · exact readInteger_suffix _ _ _
    · exact malformed_suffix _ _
  · exact readInteger_suffix _ _ _

theorem readFloating_suffix (whole fraction : List UInt8) (exponent : Int) (rest : List UInt8) :
    (readFloating whole fraction exponent rest).rest <:+ rest :=
  (finish_suffix _ _ _).trans (readFloatSuffix_suffix rest)

/-- Behind the leading digits, only the fraction and what comes after it is touched. -/
theorem readDecimal_suffix (bs : List UInt8) :
    (readDecimal bs).rest <:+ (readFraction (bs.dropWhile (Text.isDigitIn 10))).2 := by
  unfold readDecimal
  dsimp only
  have h := readExponent_suffix (readFraction (bs.dropWhile (Text.isDigitIn 10))).2
  split
  · exact (malformed_suffix _ _).trans h
  · split
    · exact (readFloating_suffix _ _ _ _).trans h
    · exact (readWhole_suffix _ _).trans h

theorem read_suffix (bs : List UInt8) : (read bs).rest <:+ bs := by
  unfold read
  split
  · exact (readHexadecimal_suffix _).trans (List.drop_suffix 2 bs)
  · exact ((readDecimal_suffix bs).trans (readFraction_suffix _)).trans (List.dropWhile_suffix _)

theorem read_length_lt {b : UInt8} {bs : List UInt8}
    (h : Text.isDigitIn 10 b = true ∨ b = ascii '.') :
    (read (b :: bs)).rest.length < (b :: bs).length := by
  unfold read
  split
  next hx =>
    have := (readHexadecimal_suffix ((b :: bs).drop 2)).length_le
    have : 2 ≤ (b :: bs).length := by
      cases bs <;> simp_all [isHexadecimal]
    simp only [List.length_drop] at *
    omega
  next hx =>
    have hle := (readDecimal_suffix (b :: bs)).length_le
    suffices (readFraction ((b :: bs).dropWhile (Text.isDigitIn 10))).2.length
        < (b :: bs).length by omega
    by_cases hd : Text.isDigitIn 10 b = true
    · have h1 := (readFraction_suffix ((b :: bs).dropWhile (Text.isDigitIn 10))).length_le
      have h2 : ((b :: bs).dropWhile (Text.isDigitIn 10)).length ≤ bs.length := by
        rw [List.dropWhile_cons_of_pos hd]
        exact (List.dropWhile_suffix _).length_le
      simp only [List.length_cons]
      omega
    · obtain rfl : b = ascii '.' := h.resolve_left hd
      have h1 : (bs.dropWhile (Text.isDigitIn 10)).length ≤ bs.length :=
        (List.dropWhile_suffix _).length_le
      rw [List.dropWhile_cons_of_neg hd]
      simp [readFraction, startsWith]
      omega

end Numeral

end Shading
