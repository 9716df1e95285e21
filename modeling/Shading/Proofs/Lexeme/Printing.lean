import Shading.Proofs.Lexeme.Word
import Shading.Proofs.Numeral.Decimal
import Shading.Proofs.Numeral.Longest

/-!
# Tokens are read back from their texts

The texts of tokens with single spaces between them are read as these tokens, without a fault.
-/

namespace Shading

open Text

namespace Token

/-- The token can be written in a source: an identifier is spelled like one, an integer has no sign, and no
string holds a quote or a line break. -/
def IsWritable : Token → Prop
  | newline | uint _ | punct _ => True
  | identifier name => Identifier.isValid name = true
  | int value => 0 ≤ value
  | string content => ∀ c ∈ content.toList, c ≠ '"' ∧ c ≠ '\n' ∧ c ≠ '\r'
  | _ => False

/-- The texts of tokens, with a space between each two. -/
def spell (ts : List Token) : String :=
  " ".intercalate (ts.map text)

end Token

/-- Behind a token there is a space or nothing. -/
def IsGap (back : List UInt8) : Prop :=
  back = [] ∨ ∃ rest, back = ascii ' ' :: rest

lemma IsGap.no_word {back : List UInt8} (h : IsGap back) :
    Numeral.startsWith Identifier.canContinue back = false := by
  rcases h with rfl | ⟨rest, rfl⟩ <;> rfl

lemma IsGap.no_point {back : List UInt8} (h : IsGap back) :
    Numeral.startsWith (· = ascii '.') back = false := by
  rcases h with rfl | ⟨rest, rfl⟩ <;> rfl

namespace Reading

variable {back : List UInt8}

/-- A token is read from the bytes, whatever stands behind the gap. -/
def Yields (front back : List UInt8) (t : Token) : Prop :=
  ∃ b bs, front = b :: bs ∧ read b (bs ++ back) = { token := t, rest := back }

lemma yields_newline (back : List UInt8) : Yields (bytes Token.newline.text) back .newline :=
  ⟨_, _, rfl, rfl⟩

lemma yields_punct (p : Punct) (hback : IsGap back) : Yields (bytes (Token.punct p).text) back (.punct p) := by
  rcases hback with rfl | ⟨rest, rfl⟩
  all_goals cases p <;> exact ⟨_, _, rfl, rfl⟩

lemma yields_identifier {name : String} (hname : Identifier.isValid name = true) (hback : IsGap back) :
    Yields (bytes (Token.identifier name).text) back (.identifier name) := by
  unfold Identifier.isValid at hname
  cases hbytes : bytes name with
  | nil =>
    rw [hbytes] at hname
    cases hname
  | cons b bs =>
    rw [hbytes] at hname
    have hread := read_identifier hname hback.no_word
    rw [← hbytes, decode_bytes] at hread
    exact ⟨b, bs, hbytes, hread⟩

lemma isStringByte_content {content : String}
    (hcontent : ∀ c ∈ content.toList, c ≠ '"' ∧ c ≠ '\n' ∧ c ≠ '\r') :
    ∀ b ∈ bytes content, isStringByte b = true := by
  intro b hb
  by_contra hstop
  have hends : b = ascii '"' ∨ b = ascii '\n' ∨ b = ascii '\r' := by
    simpa [isStringByte, isBreak, or_iff_not_imp_left] using hstop
  rcases hends with rfl | rfl | rfl
  · exact (hcontent _ ((ascii_mem_bytes (by decide) content).1 hb)).1 rfl
  · exact (hcontent _ ((ascii_mem_bytes (by decide) content).1 hb)).2.1 rfl
  · exact (hcontent _ ((ascii_mem_bytes (by decide) content).1 hb)).2.2 rfl

lemma yields_string {content : String} (hcontent : ∀ c ∈ content.toList, c ≠ '"' ∧ c ≠ '\n' ∧ c ≠ '\r')
    (back : List UInt8) : Yields (bytes (Token.string content).text) back (.string content) := by
  have hbytes : bytes (Token.string content).text = ascii '"' :: (bytes content ++ [ascii '"']) := by
    rw [Token.text, bytes_append, bytes_append]
    rfl
  have hinner := isStringByte_content hcontent
  have htake : (bytes content ++ ascii '"' :: back).takeWhile isStringByte = bytes content := by
    rw [List.takeWhile_append_of_pos hinner, List.takeWhile_cons_of_neg (by decide), List.append_nil]
  have hdrop : (bytes content ++ ascii '"' :: back).dropWhile isStringByte = ascii '"' :: back := by
    rw [List.dropWhile_append_of_pos hinner, List.dropWhile_cons_of_neg (by decide)]
  have hread : read (ascii '"') (bytes content ++ ascii '"' :: back) =
      readString (bytes content ++ ascii '"' :: back) := rfl
  refine ⟨_, _, hbytes, ?_⟩
  rw [List.append_assoc, List.singleton_append, hread, readString, hdrop]
  dsimp only
  rw [if_pos rfl, htake, decode_bytes]

lemma yields_word (u : UInt32) (mark : List UInt8) (unsigned : Bool)
    (hmark : (mark, unsigned) ∈ Numeral.unsignedMarks) (hback : IsGap back) :
    Yields (bytes (toString u.toNat) ++ mark) back (if unsigned then .uint u else .int u.toInt32) := by
  obtain ⟨radix, digits, hspells, htoken⟩ := Numeral.spellsWhole_word u
  obtain ⟨hdigits, hne⟩ := hspells.allDigits
  obtain ⟨b, bs, hbytes⟩ := List.exists_cons_of_ne_nil hne
  rw [hbytes] at hdigits hspells ⊢
  have hstart : startsNumeral b (bs ++ mark ++ back) = true := by
    rw [startsNumeral, hdigits b List.mem_cons_self]
    rfl
  have hnumeral := Numeral.read_spelled (.decimal (.integer hspells hmark)) hback.no_word
    fun _ => hback.no_point
  refine ⟨b, bs ++ mark, rfl, ?_⟩
  rw [List.cons_append, List.cons_append] at hnumeral
  rw [read_of_startsNumeral hstart, readNumeral, hnumeral]
  dsimp only
  rw [Numeral.token_scanned, htoken]
  rfl

lemma yields_int {value : Int32} (hvalue : 0 ≤ value) (hback : IsGap back) :
    Yields (bytes (Token.int value).text) back (.int value) := by
  have hnat : value.toInt = value.toUInt32.toNat := by
    rw [Int32.toNat_toUInt32_of_le hvalue, Int32.toInt_eq_toNatClampNeg hvalue]
  have hread := yields_word value.toUInt32 [] false (by decide) hback
  rw [List.append_nil, Int32.toInt32_toUInt32] at hread
  rw [Token.text, hnat]
  exact hread

lemma yields_uint (value : UInt32) (hback : IsGap back) :
    Yields (bytes (Token.uint value).text) back (.uint value) := by
  rw [Token.text, bytes_append]
  exact yields_word value _ true (by decide) hback

/-- A token is read from its own text if a space or nothing is behind it. -/
theorem yields_text {t : Token} (ht : t.IsWritable) (hback : IsGap back) : Yields (bytes t.text) back t := by
  cases t with
  | newline => exact yields_newline back
  | identifier name => exact yields_identifier ht hback
  | int value => exact yields_int ht hback
  | uint value => exact yields_uint value hback
  | string content => exact yields_string ht back
  | punct p => exact yields_punct p hback
  | eof => exact ht.elim
  | blank => exact ht.elim
  | comment => exact ht.elim
  | invalid => exact ht.elim
  | float value => exact ht.elim
  | double value => exact ht.elim

end Reading

namespace Lexemes

/-- The lexemes have no fault, and their words are the tokens, in order. -/
def Carries (xs : List Lexeme) (ts : List Token) : Prop :=
  (∀ x ∈ xs, x.fault = none) ∧ (xs.filter (!·.token.isSkipped)).map (·.token) = ts

lemma carries_text {t : Token} (ht : t.IsWritable) {ts : List Token} {back : List UInt8} (hback : IsGap back)
    (h : ∀ l, Carries (ofCursor ⟨l, back⟩).list ts) (l : Location) :
    Carries (ofCursor ⟨l, bytes t.text ++ back⟩).list (t :: ts) := by
  obtain ⟨b, bs, hbytes, hread⟩ := Reading.yields_text ht hback
  have hkept : t.isSkipped = false := by
    cases t <;> first | rfl | exact ht.elim
  rw [hbytes, List.cons_append, ofCursor_read (c := ⟨l, b :: (bs ++ back)⟩) (by simp)]
  simp only [Cursor.read, hread]
  obtain ⟨hfaults, hwords⟩ := h _
  refine ⟨List.forall_mem_cons.2 ⟨rfl, hfaults⟩, ?_⟩
  rw [List.filter_cons_of_pos (by simp [hkept]), List.map_cons, hwords]

lemma carries_space {ts : List Token} {bs : List UInt8} (h : ∀ l, Carries (ofCursor ⟨l, bs⟩).list ts)
    (l : Location) : Carries (ofCursor ⟨l, ascii ' ' :: bs⟩).list ts := by
  obtain ⟨gap, back, hgap, hsplit, hblank⟩ := ofCursor_blank l bs
  obtain ⟨hfaults, hwords⟩ := h (l.right 1)
  rw [hsplit] at hfaults hwords
  have hskipped : gap.filter (!·.token.isSkipped) = [] := by
    apply List.filter_eq_nil_iff.2
    intro x hx
    rw [(hgap x hx).1]
    decide
  rw [hblank]
  refine ⟨List.forall_mem_cons.2 ⟨rfl, fun x hx => hfaults x (List.mem_append_right _ hx)⟩, ?_⟩
  rwa [List.filter_append, hskipped, List.nil_append] at hwords

lemma carries_spell {ts : List Token} (h : ∀ t ∈ ts, t.IsWritable) (l : Location) :
    Carries (ofCursor ⟨l, bytes (Token.spell ts)⟩).list ts := by
  induction ts generalizing l with
  | nil =>
    rw [ofCursor_nil rfl]
    exact ⟨by simp, rfl⟩
  | cons t ts ih =>
    obtain ⟨ht, hts⟩ := List.forall_mem_cons.1 h
    cases ts with
    | nil =>
      have hend (l : Location) : Carries (ofCursor ⟨l, []⟩).list [] := ih hts l
      have hread := carries_text ht (.inl rfl) hend l
      rwa [List.append_nil] at hread
    | cons u ts =>
      have hbytes : bytes (Token.spell (t :: u :: ts)) =
          bytes t.text ++ ascii ' ' :: bytes (Token.spell (u :: ts)) := by
        simp only [Token.spell, List.map_cons]
        rw [String.intercalate_cons_cons, bytes_append, bytes_append, List.append_assoc]
        rfl
      rw [hbytes]
      exact carries_text ht (.inr ⟨_, rfl⟩) (carries_space (ih hts)) l

/-- Writing tokens and reading them again yields the same tokens, and nothing to report. -/
theorem words_spell {ts : List Token} (h : ∀ t ∈ ts, t.IsWritable) (source : String) :
    (ofBytes (bytes (Token.spell ts))).list.filterMap (·.diagnostic? source) = [] ∧
      ((ofBytes (bytes (Token.spell ts))).list.filter (!·.token.isSkipped)).map (·.token) = ts := by
  obtain ⟨hfaults, hwords⟩ := carries_spell h .start
  refine ⟨?_, hwords⟩
  apply List.filterMap_eq_nil_iff.2
  intro x hx
  rw [Lexeme.diagnostic?, hfaults x hx]
  rfl

/-- Tokens that would run into each other without the spaces between them. -/
def adjacent : List Token :=
  [.punct .slash, .punct .star, .int 0, .uint 4294967295, .punct .dot, .int 2147483647, .identifier "u",
    .string "//\\", .newline, .newline, .punct .shiftLeft, .punct .equal]

theorem words_spell_adjacent :
    Token.spell adjacent = "/ * 0 4294967295u . 2147483647 u \"//\\\" \n \n << =" ∧
    (∀ t ∈ adjacent, t.IsWritable) ∧
      ((ofBytes (bytes (Token.spell adjacent))).list.filter (!·.token.isSkipped)).map (·.token) =
        adjacent := by
  have hwritable : ∀ t ∈ adjacent, t.IsWritable := by
    simp [adjacent, Token.IsWritable]
    decide +kernel
  exact ⟨by decide +kernel, hwritable, (words_spell hwritable "s").2⟩

end Lexemes

end Shading
