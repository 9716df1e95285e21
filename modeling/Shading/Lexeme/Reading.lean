import Shading.Numeral

/-!
# Reading one token

Every non-empty rest of a source begins with exactly one token; text that is none of the known
tokens is read as an invalid one. A reading keeps the token, at most one fault, and what
follows, which is a shorter part of what was there.
-/
namespace Shading

/-- What is wrong with a token: text that is no token, or a constant too large for its type. -/
inductive Fault
  | error (cause : LexicalError)
  | overflow (type : ConstantType)
  deriving DecidableEq, Repr

/-- A token read from the front of a source, its fault, and what follows it. -/
structure Reading where
  token : Token
  fault : Option Fault := none
  rest : List UInt8
  deriving DecidableEq, Repr

namespace Reading

/-- Text that is no token. -/
def invalid (cause : LexicalError) (rest : List UInt8) : Reading :=
  { token := .invalid, fault := some (.error cause), rest }

/-- What follows the blanks in front. A backslash makes the line break behind it a blank. -/
def skipBlanks : List UInt8 → List UInt8
  | [] => []
  | b :: bs =>
    if Text.isBlank b then skipBlanks bs
    else if b = ascii '\\' then
      match _h : Text.afterBreak? bs with
      | some rest => skipBlanks rest
      | none => b :: bs
    else b :: bs
termination_by bs => bs.length
decreasing_by
  · simp
  · have := (Text.suffix_of_afterBreak? _h).2
    simp only [List.length_cons]
    omega

/-- What follows the end of the comment whose beginning has been read. -/
def afterComment? : List UInt8 → Option (List UInt8)
  | [] => none
  | b :: bs =>
    if b = ascii '*' && bs.head? = some (ascii '/') then some bs.tail
    else afterComment? bs

/-- Whether the byte may stand in a string: it is neither its end nor the end of the line. -/
def isStringByte (b : UInt8) : Bool :=
  !(b = ascii '"' || Text.isBreak b)

/-- A string whose opening quote has been read. -/
def readString (bs : List UInt8) : Reading :=
  let content := bs.takeWhile isStringByte
  match bs.dropWhile isStringByte with
  | [] => invalid .unterminatedString []
  | b :: rest =>
    if b = ascii '"' then { token := .string (Text.decode content), rest }
    else invalid .unterminatedString (b :: rest)

/-- The number of bytes that a lead byte announces for its character. -/
def announcedLength (lead : UInt8) : Nat :=
  if lead < 0xC0 then 1
  else if lead < 0xE0 then 2
  else if lead < 0xF0 then 3
  else if lead < 0xF8 then 4
  else 1

/-- How an unexpected character is shown: itself in quotes, or its first byte if it is
malformed. -/
def shown (lead : UInt8) (character : List UInt8) : String :=
  match Text.decode? character with
  | some s => "'" ++ s ++ "'"
  | none => "0x" ++ Text.hexByte lead

/-- A character that begins no token, together with all the bytes that its first announces. -/
def unexpected (b : UInt8) (bs : List UInt8) : Reading :=
  let n := announcedLength b
  invalid (.unexpectedCharacter (shown b ((b :: bs).take n))) ((b :: bs).drop n)

/-- A numeric constant. -/
def readNumeral (bs : List UInt8) : Reading :=
  let reading := Numeral.read bs
  match reading.outcome with
  | .error cause => invalid cause reading.rest
  | .ok numeral =>
    let (token, overflow) := numeral.token
    { token, rest := reading.rest
      fault := if overflow then some (.overflow numeral.type) else none }

/-- Whether a numeric constant begins with the byte in front of `bs`. -/
def startsNumeral (b : UInt8) (bs : List UInt8) : Bool :=
  Text.isDigitIn 10 b || (b = ascii '.' && Numeral.startsWith (Text.isDigitIn 10) bs)

/-- Whether blanks begin with the byte in front of `bs`. -/
def startsBlanks (b : UInt8) (bs : List UInt8) : Bool :=
  Text.isBlank b || (b = ascii '\\' && (Text.afterBreak? bs).isSome)

/-- The token in front of a source that is not at its end. -/
def read (b : UInt8) (bs : List UInt8) : Reading :=
  match Text.afterBreak? (b :: bs) with
  | some rest => { token := .newline, rest }
  | none =>
    if startsBlanks b bs then { token := .blank, rest := skipBlanks (b :: bs) }
    else if b = ascii '/' && bs.head? = some (ascii '/') then
      { token := .comment, rest := bs.dropWhile (!Text.isBreak ·) }
    else if b = ascii '/' && bs.head? = some (ascii '*') then
      match afterComment? bs.tail with
      | some rest => { token := .comment, rest }
      | none => invalid .unterminatedComment []
    else if b = ascii '"' then readString bs
    else if startsNumeral b bs then readNumeral (b :: bs)
    else if Identifier.canStart b then
      { token := .identifier (Text.decode ((b :: bs).takeWhile Identifier.canContinue))
        rest := bs.dropWhile Identifier.canContinue }
    else
      match Punct.ofBytes? (b :: bs) with
      | some p => { token := .punct p, rest := (b :: bs).drop p.bytes.length }
      | none => unexpected b bs

/-- Whether line breaks count inside the token. Elsewhere text stays on its line, also where an
unexpected character takes a line break with it. -/
def spansLines (r : Reading) : Bool :=
  match r.token, r.fault with
  | .newline, _ | .blank, _ | .comment, _ => true
  | _, some (.error .unterminatedComment) => true
  | _, _ => false

/-! What follows a token is a shorter part of the source. -/

theorem skipBlanks_suffix (bs : List UInt8) : skipBlanks bs <:+ bs := by
  fun_induction skipBlanks bs with
  | case1 => exact List.suffix_refl _
  | case2 b bs _ ih => exact ih.trans (List.suffix_cons b bs)
  | case3 bs rest h _ ih =>
    exact (ih.trans (Text.suffix_of_afterBreak? h).1).trans (List.suffix_cons _ bs)
  | case4 => exact List.suffix_refl _
  | case5 => exact List.suffix_refl _

theorem skipBlanks_length_lt {b : UInt8} {bs : List UInt8} (h : startsBlanks b bs = true) :
    (skipBlanks (b :: bs)).length < (b :: bs).length := by
  rw [skipBlanks]
  split
  · have := (skipBlanks_suffix bs).length_le
    simp only [List.length_cons]
    omega
  next hb =>
    have hs : b = ascii '\\' ∧ (Text.afterBreak? bs).isSome := by
      simpa [startsBlanks, hb] using h
    rw [if_pos hs.1]
    split
    next rest hr =>
      have h1 := (skipBlanks_suffix rest).length_le
      have h2 := (Text.suffix_of_afterBreak? hr).2
      simp only [List.length_cons]
      omega
    next hr => simp [hr] at hs

theorem afterComment?_suffix {bs rest : List UInt8} (h : afterComment? bs = some rest) :
    rest <:+ bs := by
  induction bs with
  | nil => simp [afterComment?] at h
  | cons b bs ih =>
    rw [afterComment?] at h
    split at h
    · obtain rfl : bs.tail = rest := by simpa using h
      exact (List.tail_suffix bs).trans (List.suffix_cons b bs)
    · exact (ih h).trans (List.suffix_cons b bs)

theorem readString_suffix (bs : List UInt8) : (readString bs).rest <:+ bs := by
  have h := List.dropWhile_suffix isStringByte (l := bs)
  unfold readString
  dsimp only
  split
  · exact List.nil_suffix
  next b rest hd =>
    rw [hd] at h
    split
    · exact (List.suffix_cons b rest).trans h
    · exact h

theorem unexpected_suffix (b : UInt8) (bs : List UInt8) : (unexpected b bs).rest <:+ b :: bs :=
  List.drop_suffix _ _

theorem announcedLength_pos (lead : UInt8) : 0 < announcedLength lead := by
  unfold announcedLength
  repeat' split
  all_goals decide

theorem readNumeral_rest (bs : List UInt8) : (readNumeral bs).rest = (Numeral.read bs).rest := by
  unfold readNumeral
  dsimp only
  split <;> rfl

/-- What is read is one of these, for each kind of token that can stand in front. -/
theorem read_cases {motive : Reading → Prop} (b : UInt8) (bs : List UInt8)
    (newline : ∀ rest, Text.afterBreak? (b :: bs) = some rest → motive { token := .newline, rest })
    (blank : startsBlanks b bs = true → motive { token := .blank, rest := skipBlanks (b :: bs) })
    (lineComment : b = ascii '/' → bs.head? = some (ascii '/') →
      motive { token := .comment, rest := bs.dropWhile (!Text.isBreak ·) })
    (blockComment : b = ascii '/' → bs.head? = some (ascii '*') →
      ∀ rest, afterComment? bs.tail = some rest → motive { token := .comment, rest })
    (unterminatedComment : afterComment? bs.tail = none → motive (invalid .unterminatedComment []))
    (string : b = ascii '"' → motive (readString bs))
    (numeral : startsNumeral b bs = true → motive (readNumeral (b :: bs)))
    (identifier : Identifier.canStart b = true → motive
      { token := .identifier (Text.decode ((b :: bs).takeWhile Identifier.canContinue))
        rest := bs.dropWhile Identifier.canContinue })
    (punct : ∀ p, Punct.ofBytes? (b :: bs) = some p →
      motive { token := .punct p, rest := (b :: bs).drop p.bytes.length })
    (unexpected : Text.afterBreak? (b :: bs) = none → motive (unexpected b bs)) :
    motive (read b bs) := by
  unfold read
  split
  next rest h => exact newline rest h
  next hnone =>
    split
    next h => exact blank h
    split
    next h =>
      obtain ⟨hb, hbs⟩ : b = ascii '/' ∧ bs.head? = some (ascii '/') := by simpa using h
      exact lineComment hb hbs
    split
    next h =>
      obtain ⟨hb, hbs⟩ : b = ascii '/' ∧ bs.head? = some (ascii '*') := by simpa using h
      split
      next rest h => exact blockComment hb hbs rest h
      next h => exact unterminatedComment h
    split
    next h => exact string h
    split
    next h => exact numeral h
    split
    next h => exact identifier h
    split
    next p h => exact punct p h
    · exact unexpected hnone

theorem read_rest (b : UInt8) (bs : List UInt8) :
    (read b bs).rest <:+ b :: bs ∧ (read b bs).rest.length < (b :: bs).length := by
  have tail {rest : List UInt8} (h : rest <:+ bs) :
      rest <:+ b :: bs ∧ rest.length < (b :: bs).length :=
    ⟨h.trans (List.suffix_cons b bs), by have := h.length_le; simp only [List.length_cons]; omega⟩
  apply read_cases (motive := fun r => r.rest <:+ b :: bs ∧ r.rest.length < (b :: bs).length)
  case newline => exact fun rest h => Text.suffix_of_afterBreak? h
  case blank => exact fun h => ⟨skipBlanks_suffix _, skipBlanks_length_lt h⟩
  case lineComment => exact fun _ _ => tail (List.dropWhile_suffix _)
  case blockComment =>
    exact fun _ _ rest h => tail ((afterComment?_suffix h).trans (List.tail_suffix bs))
  case unterminatedComment => exact fun _ => ⟨List.nil_suffix, by simp [invalid]⟩
  case string => exact fun _ => tail (readString_suffix bs)
  case numeral =>
    intro h
    rw [readNumeral_rest]
    refine ⟨Numeral.read_suffix _, Numeral.read_length_lt ?_⟩
    rw [startsNumeral, Bool.or_eq_true] at h
    exact h.imp id fun hd => by simpa using (Bool.and_eq_true_iff.1 hd).1
  case identifier => exact fun _ => tail (List.dropWhile_suffix _)
  case punct =>
    intro p _
    refine ⟨List.drop_suffix _ _, ?_⟩
    have := Punct.bytes_length_pos p
    simp only [List.length_drop, List.length_cons]
    omega
  case unexpected =>
    intro _
    refine ⟨unexpected_suffix b bs, ?_⟩
    have := announcedLength_pos b
    simp only [Reading.unexpected, invalid, List.length_drop, List.length_cons]
    omega

end Reading

end Shading
