import Shading.Proofs.Lexeme
import Shading.Proofs.Text.Joint

/-!
# Kinds of tokens

What is read in front of a source is of one of a few kinds. Text that is no token is invalid and has an
error. No other token has one, and only numeric constants have a warning.
-/

namespace Shading

/-- The type of a numeric constant. -/
def Token.constantType? : Token → Option ConstantType
  | int _ => some .int
  | uint _ => some .uint
  | float _ => some .float
  | double _ => some .double
  | _ => none

namespace Numeral

/-- What can be wrong with a constant. -/
def causes : List LexicalError :=
  [.invalidHexadecimal, .invalidOctal, .exponentWithoutDigits, .invalidIntegerSuffix, .invalidFloatSuffix]

lemma constantType?_token (n : Numeral) : n.token.1.constantType? = some n.type := by
  cases n with
  | integer radix digits unsigned => cases unsigned <;> rfl
  | floating whole fraction exponent suffix => cases suffix <;> rfl

/-- What is wrong with the constant that is read, if anything, is one of the causes. -/
def Reading.FailsKnown (r : Reading) : Prop :=
  ∀ cause, r.outcome = .error cause → cause ∈ causes

lemma failsKnown_malformed {cause : LexicalError} (h : cause ∈ causes) (rest : List UInt8) :
    (malformed cause rest).FailsKnown := by
  intro cause' hcause
  rwa [← Except.error.inj hcause]

lemma failsKnown_finish (numeral : Numeral) {cause : LexicalError} (h : cause ∈ causes)
    (rest : List UInt8) : (finish numeral cause rest).FailsKnown := by
  unfold finish
  split
  · exact failsKnown_malformed h rest
  · intro cause' hcause
    cases hcause

lemma failsKnown_readInteger (radix : Nat) (digits rest : List UInt8) :
    (readInteger radix digits rest).FailsKnown :=
  failsKnown_finish _ (by decide) _

lemma failsKnown_readWhole (digits rest : List UInt8) : (readWhole digits rest).FailsKnown := by
  unfold readWhole
  split
  · split
    · exact failsKnown_readInteger _ _ _
    · exact failsKnown_malformed (by decide) _
  · exact failsKnown_readInteger _ _ _

lemma failsKnown_read (bs : List UInt8) : (read bs).FailsKnown := by
  unfold read
  split
  · unfold readHexadecimal
    dsimp only
    split
    · exact failsKnown_malformed (by decide) _
    · exact failsKnown_readInteger _ _ _
  · unfold readDecimal
    dsimp only
    split
    · exact failsKnown_malformed (by decide) _
    · split
      · exact failsKnown_finish _ (by decide) _
      · exact failsKnown_readWhole _ _

end Numeral

/-! ### Readings by the kind of their token -/

namespace Reading

open Text

/-- What can be read in front of a source, by the kind of the token. -/
inductive IsReading (b : UInt8) (bs : List UInt8) : Reading → Prop
  | newline {rest : List UInt8} (h : afterBreak? (b :: bs) = some rest) :
      IsReading b bs { token := .newline, rest }
  | blank (h : startsBlanks b bs = true) : IsReading b bs { token := .blank, rest := skipBlanks (b :: bs) }
  | lineComment (hb : b = ascii '/') (hbs : bs.head? = some (ascii '/')) :
      IsReading b bs { token := .comment, rest := bs.dropWhile (!isBreak ·) }
  | blockComment (hb : b = ascii '/') (hbs : bs.head? = some (ascii '*')) {rest : List UInt8}
      (h : afterComment? bs.tail = some rest) : IsReading b bs { token := .comment, rest }
  | unterminatedComment (h : afterComment? bs.tail = none) : IsReading b bs (invalid .unterminatedComment [])
  | string (content rest : List UInt8) : IsReading b bs { token := .string (decode content), rest }
  | unterminatedString (rest : List UInt8) : IsReading b bs (invalid .unterminatedString rest)
  | numeral {n : Numeral} {rest : List UInt8} (h : Numeral.read (b :: bs) = { outcome := .ok n, rest }) :
      IsReading b bs
        { token := n.token.1, fault := if n.token.2 then some (.overflow n.type) else none, rest }
  | malformed {cause : LexicalError} {rest : List UInt8}
      (h : Numeral.read (b :: bs) = { outcome := .error cause, rest }) : IsReading b bs (invalid cause rest)
  | identifier (name : String) (rest : List UInt8) : IsReading b bs { token := .identifier name, rest }
  | punct (p : Punct) (rest : List UInt8) : IsReading b bs { token := .punct p, rest }
  | unexpected (hb : isBreak b = false) : IsReading b bs (unexpected b bs)

variable {b : UInt8} {bs : List UInt8}

lemma isReading_readNumeral (b : UInt8) (bs : List UInt8) : IsReading b bs (readNumeral (b :: bs)) := by
  unfold readNumeral
  rcases h : Numeral.read (b :: bs) with ⟨cause | n, rest⟩
  · exact .malformed h
  · exact .numeral h

lemma isReading_readString (b : UInt8) (bs : List UInt8) : IsReading b bs (readString bs) := by
  unfold readString
  dsimp only
  split
  · exact .unterminatedString _
  · split
    · exact .string _ _
    · exact .unterminatedString _

theorem isReading_read (b : UInt8) (bs : List UInt8) : IsReading b bs (read b bs) := by
  apply read_cases (motive := IsReading b bs)
  case newline => exact fun rest hbreak => .newline hbreak
  case blank => exact .blank
  case lineComment => exact .lineComment
  case blockComment => exact fun hb hbs rest => .blockComment hb hbs
  case unterminatedComment => exact .unterminatedComment
  case string => exact fun _ => isReading_readString b bs
  case numeral => exact fun _ => isReading_readNumeral b bs
  case identifier => exact fun _ => .identifier _ _
  case punct => exact fun p _ => .punct p _
  case unexpected => exact fun hbreak => .unexpected (afterBreak?_cons_eq_none.1 hbreak)

lemma token_ne_newline (h : afterBreak? (b :: bs) = none) : (read b bs).token ≠ .newline := by
  have hread := isReading_read b bs
  generalize read b bs = r at hread ⊢
  cases hread with
  | newline hbreak =>
    rw [h] at hbreak
    cases hbreak
  | numeral _ => exact (Numeral.token_ne _).2
  | _ => simp [invalid, Reading.unexpected]

/-! ### Texts of the same kind -/

/-- Behind the byte `b` both texts decide in the same way which kind of token it begins. -/
structure DecideAlike (b : UInt8) (bs bs' : List UInt8) : Prop where
  inline : isBreak b = false
  blanks : startsBlanks b bs' = startsBlanks b bs
  slash : bs'.head? = some (ascii '/') ↔ bs.head? = some (ascii '/')
  star : bs'.head? = some (ascii '*') ↔ bs.head? = some (ascii '*')
  numeral : startsNumeral b bs' = startsNumeral b bs
  punct : Punct.ofBytes? (b :: bs') = Punct.ofBytes? (b :: bs)

/-- A comment up to its end, whose beginning has been read. -/
def readComment (bs : List UInt8) : Reading :=
  match afterComment? bs with
  | some rest => { token := .comment, rest }
  | none => invalid .unterminatedComment []

/-- What is related for each kind of token is related for what is read. -/
theorem DecideAlike.rel_read {bs' : List UInt8} (h : DecideAlike b bs bs') {motive : Reading → Reading → Prop}
    (blank : startsBlanks b bs = true →
      motive { token := .blank, rest := skipBlanks (b :: bs) }
        { token := .blank, rest := skipBlanks (b :: bs') })
    (lineComment : motive { token := .comment, rest := bs.dropWhile (!isBreak ·) }
      { token := .comment, rest := bs'.dropWhile (!isBreak ·) })
    (blockComment : bs.head? = some (ascii '*') → motive (readComment bs.tail) (readComment bs'.tail))
    (string : motive (readString bs) (readString bs'))
    (numeral : motive (readNumeral (b :: bs)) (readNumeral (b :: bs')))
    (identifier : motive
      { token := .identifier (decode ((b :: bs).takeWhile Identifier.canContinue))
        rest := bs.dropWhile Identifier.canContinue }
      { token := .identifier (decode ((b :: bs').takeWhile Identifier.canContinue))
        rest := bs'.dropWhile Identifier.canContinue })
    (punct : ∀ p, p.bytes.isPrefixOf (b :: bs) = true →
      motive { token := .punct p, rest := (b :: bs).drop p.bytes.length }
        { token := .punct p, rest := (b :: bs').drop p.bytes.length })
    (unexpected : motive (unexpected b bs) (unexpected b bs')) :
    motive (read b bs) (read b bs') := by
  unfold read
  rw [afterBreak?_cons_eq_none.2 h.inline, afterBreak?_cons_eq_none.2 h.inline, h.blanks, h.numeral, h.punct]
  simp only [h.slash, h.star]
  split
  next hblanks => exact blank hblanks
  split
  · exact lineComment
  split
  next hblock =>
    obtain ⟨-, hstar⟩ : b = ascii '/' ∧ bs.head? = some (ascii '*') := by simpa using hblock
    exact blockComment hstar
  split
  · exact string
  split
  · exact numeral
  split
  · exact identifier
  split
  next p hp => exact punct p (by simpa using List.find?_some hp)
  · exact unexpected

/-! ### Faults -/

/-- An invalid token has an error, and another token at most a warning about its type of constants. -/
def FaultFits (r : Reading) : Prop :=
  (r.token = .invalid ∧ ∃ cause, r.fault = some (.error cause)) ∨
    (r.token ≠ .invalid ∧
      (r.fault = none ∨ ∃ type, r.token.constantType? = some type ∧ r.fault = some (.overflow type)))

lemma faultFits_invalid (cause : LexicalError) (rest : List UInt8) : (invalid cause rest).FaultFits :=
  .inl ⟨rfl, cause, rfl⟩

lemma faultFits_numeral (n : Numeral) (rest : List UInt8) : FaultFits
    { token := n.token.1, fault := if n.token.2 then some (.overflow n.type) else none, rest } := by
  have htype := n.constantType?_token
  refine .inr ⟨?_, ?_⟩
  · intro hinvalid
    rw [show n.token.1 = .invalid from hinvalid] at htype
    cases htype
  · cases n.token.2 with
    | true => exact .inr ⟨n.type, htype, rfl⟩
    | false => exact .inl rfl

lemma IsReading.faultFits {r : Reading} (h : IsReading b bs r) : r.FaultFits := by
  cases h with
  | numeral h => exact faultFits_numeral _ _
  | malformed h => exact faultFits_invalid _ _
  | unterminatedComment h => exact faultFits_invalid _ _
  | unterminatedString rest => exact faultFits_invalid _ _
  | unexpected hb => exact faultFits_invalid _ _
  | _ => exact .inr ⟨by simp, .inl rfl⟩

end Reading

end Shading
