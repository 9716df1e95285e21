import Shading.Proofs.Lexeme.Name
import Shading.Proofs.Numeral.Longest

/-!
# File names between angle brackets

A file name between angle brackets is read as words, marks and numeric constants. Words and marks are printed
as they are written, but constants anew from their values, so only where no number begins is the name sure
to be printed as it is written.
-/

namespace Shading

open Text

namespace FileName

/-- The bytes of file names: those of words, and points, dashes and slashes. -/
def isNameByte (b : UInt8) : Bool :=
  Identifier.canContinue b || b = ascii '.' || b = ascii '-' || b = ascii '/'

/-- The text is made of letters, digits, underscores, points, dashes and single slashes. -/
structure IsFileName (text : List UInt8) : Prop where
  named : ∀ b ∈ text, isNameByte b = true
  slashes : ¬[ascii '/', ascii '/'] <:+: text

/-- Every digit stands directly behind a letter, a digit or an underscore, so no number begins here. In front
of the text there is an angle bracket. -/
def DigitsInWords (text : List UInt8) : Prop :=
  (ascii '<' :: text).IsChain fun b d => isDigitIn 10 d = true → Identifier.canContinue b = true

/-- The punctuators in file names. -/
def marks : List Punct :=
  [.dot, .dash, .decrement, .slash]

/-- A piece of a file name, and the token that is read from it. -/
inductive IsPiece : List UInt8 → Token → Prop
  | word {name : String} (hname : Identifier.isValid name = true) : IsPiece (bytes name) (.identifier name)
  | mark {p : Punct} (hp : p ∈ marks) : IsPiece p.bytes (.punct p)
  | constant {literal : List UInt8} {n : Numeral} (h : Numeral.Spells literal n) : IsPiece literal n.token.1
  | malformed {b : UInt8} {piece rest : List UInt8} {cause : LexicalError}
      (hstart : Reading.startsNumeral b (piece ++ rest) = true)
      (h : Numeral.read (b :: (piece ++ rest)) = { outcome := .error cause, rest }) :
      IsPiece (b :: piece) .invalid

/-- What is printed for tokens, without anything between them. -/
def printed (ts : List Token) : String :=
  String.join ((ts.filter (!·.isSkipped)).map Token.text)

section Pieces

variable {piece : List UInt8} {t : Token}

lemma IsPiece.text (h : IsPiece piece t) (hvalid : t ≠ .invalid) (hconstant : t.constantType? = none) :
    bytes t.text = piece := by
  cases h with
  | word hname => rfl
  | mark hp => rfl
  | @constant literal n h =>
    rw [n.constantType?_token] at hconstant
    cases hconstant
  | malformed hstart h => exact absurd rfl hvalid

lemma IsPiece.isSkipped (h : IsPiece piece t) (hvalid : t ≠ .invalid) : t.isSkipped = false := by
  cases h with
  | word hname => rfl
  | mark hp => rfl
  | @constant literal n h =>
    cases n with
    | integer radix digits unsigned => cases unsigned <;> rfl
    | floating whole fraction exponent suffix => cases suffix <;> rfl
  | malformed hstart h => exact absurd rfl hvalid

lemma IsPiece.inline (h : IsPiece piece t) : t ≠ .newline := by
  cases h with
  | word hname => simp
  | mark hp => simp
  | @constant literal n h => exact n.token_ne.2
  | malformed hstart h => simp

lemma bytes_join (ss : List String) : bytes (String.join ss) = ss.flatMap bytes := by
  induction ss with
  | nil => rfl
  | cons s ss ih => rw [String.join_cons, bytes_append, ih, List.flatMap_cons]

/-- Pieces that are all printed as they are written make up the text that is printed. -/
theorem bytes_printed {pieces : List (List UInt8 × Token)} (h : ∀ x ∈ pieces, IsPiece x.1 x.2)
    (hvalid : ∀ x ∈ pieces, x.2 ≠ .invalid)
    (hconstant : ∀ x ∈ pieces, ∀ type, x.2.constantType? = some type → bytes x.2.text = x.1) :
    bytes (printed (pieces.map (·.2))) = pieces.flatMap (·.1) := by
  have hkept : (pieces.map (·.2)).filter (!·.isSkipped) = pieces.map (·.2) := by
    apply List.filter_eq_self.2
    rintro t ht
    obtain ⟨x, hx, rfl⟩ := List.mem_map.1 ht
    rw [(h x hx).isSkipped (hvalid x hx), Bool.not_false]
  have htext : ∀ x ∈ pieces, bytes x.2.text = x.1 := by
    intro x hx
    cases htype : x.2.constantType? with
    | some type => exact hconstant x hx type htype
    | none => exact (h x hx).text (hvalid x hx) htype
  rw [printed, hkept, bytes_join, List.map_map, List.flatMap_map]
  exact List.flatMap_congr htext

end Pieces

/-! ### The first piece -/

section Piece

variable {b : UInt8} {bs : List UInt8}

lemma isNameByte_cases (h : isNameByte b = true) :
    Identifier.canStart b = true ∨ isDigitIn 10 b = true ∨ b ∈ [ascii '.', ascii '-', ascii '/'] := by
  simpa [isNameByte, Identifier.canContinue, or_assoc] using h

lemma IsFileName.suffix {text rest : List UInt8} (h : IsFileName text) (hrest : rest <:+ text) :
    IsFileName rest where
  named b hb := h.named b (hrest.mem hb)
  slashes hslashes := h.slashes (hslashes.trans hrest.isInfix)

lemma DigitsInWords.suffix {piece rest : List UInt8} (h : DigitsInWords (piece ++ rest)) (hne : piece ≠ [])
    (hjoint : piece.getLast?.any Identifier.canContinue = false ∨
      rest.head?.any Identifier.canContinue = false) : DigitsInWords rest := by
  obtain ⟨-, hpiece⟩ := List.isChain_cons.1 h
  obtain ⟨-, hrest, hlast⟩ := List.isChain_append.1 hpiece
  refine List.isChain_cons.2 ⟨fun d hd hdigit => ?_, hrest⟩
  have hword := hlast _ (List.getLast_mem_getLast? hne) d hd hdigit
  rcases hjoint with hjoint | hjoint
  · rw [List.getLast?_eq_some_getLast hne, Option.any_some, hword] at hjoint
    cases hjoint
  · rw [Option.mem_def.1 hd, Option.any_some, Identifier.canContinue, hdigit, Bool.or_true] at hjoint
    cases hjoint

lemma DigitsInWords.startsNumeral (h : DigitsInWords (b :: bs)) (back : List UInt8) :
    Reading.startsNumeral b (bs ++ ascii '>' :: back) = false := by
  obtain ⟨hfirst, hfollowing⟩ := List.isChain_cons_cons.1 h
  have hb : isDigitIn 10 b = false := by
    by_contra hb
    cases hfirst (Bool.eq_true_of_not_eq_false hb)
  rw [Reading.startsNumeral, hb, Bool.false_or, Bool.and_eq_false_imp, decide_eq_true_eq]
  rintro rfl
  cases bs with
  | nil => rfl
  | cons d bs =>
    by_contra hd
    cases (List.isChain_cons_cons.1 hfollowing).1 (Bool.eq_true_of_not_eq_false hd)

lemma exists_word (hb : Identifier.canStart b = true) (bs back : List UInt8) :
    ∃ name rest, b :: bs = bytes name ++ rest ∧ Identifier.isValid name = true ∧
      rest.head?.any Identifier.canContinue = false ∧
      Reading.read b (bs ++ ascii '>' :: back) =
        { token := .identifier name, rest := rest ++ ascii '>' :: back } := by
  obtain ⟨name, hname, hvalid⟩ := Identifier.exists_name hb bs
  have hspells : Identifier.spells (b :: bs.takeWhile Identifier.canContinue) = true := by
    rw [← hname]
    exact hvalid
  have hrest : (bs.dropWhile Identifier.canContinue).head?.any Identifier.canContinue = false := by
    have hhead := List.head?_dropWhile_not Identifier.canContinue bs
    cases hdrop : bs.dropWhile Identifier.canContinue with
    | nil => rfl
    | cons c rest => simpa [hdrop] using hhead
  have hgap : (bs.dropWhile Identifier.canContinue ++ ascii '>' :: back).head?.any
      Identifier.canContinue = false := by
    cases hdrop : bs.dropWhile Identifier.canContinue with
    | nil => rfl
    | cons c rest => rwa [hdrop] at hrest
  have hread := Reading.read_identifier hspells hgap
  rw [← List.append_assoc, List.takeWhile_append_dropWhile, ← hname, decode_bytes] at hread
  refine ⟨name, bs.dropWhile Identifier.canContinue, ?_, hvalid, hrest, hread⟩
  rw [hname, List.cons_append, List.takeWhile_append_dropWhile]

lemma read_punct (hb : b ∈ [ascii '.', ascii '-', ascii '/', ascii '<', ascii '>'])
    (hnumber : Reading.startsNumeral b bs = false)
    (hcomment : b = ascii '/' → bs.head? ≠ some (ascii '/') ∧ bs.head? ≠ some (ascii '*')) {p : Punct}
    (hp : Punct.ofBytes? (b :: bs) = some p) :
    Reading.read b bs = { token := .punct p, rest := (b :: bs).drop p.bytes.length } := by
  have hkind : ∀ b ∈ [ascii '.', ascii '-', ascii '/', ascii '<', ascii '>'], isBreak b = false ∧
      isBlank b = false ∧ Identifier.canStart b = false ∧ b ≠ ascii '\\' ∧ b ≠ ascii '"' := by
    decide +kernel
  obtain ⟨hbreak, hblank, hstart, hbackslash, hquote⟩ := hkind b hb
  unfold Reading.read
  rw [afterBreak?_cons_eq_none.2 hbreak]
  dsimp only
  rw [if_neg (by simp [Reading.startsBlanks, hblank, hbackslash]),
    if_neg (by simpa using fun h => (hcomment h).1), if_neg (by simpa using fun h => (hcomment h).2),
    if_neg hquote, if_neg (by simp [hnumber]), if_neg (by simp [hstart]), hp]

/-- The bytes with which a punctuator goes on that begins with the byte `b`. -/
def seconds (b : UInt8) : List UInt8 :=
  Punct.all.filterMap fun p => if p.bytes.head? = some b then p.bytes[1]? else none

lemma ofBytes?_single (hbs : ∀ c ∈ bs.head?, c ∉ seconds b) : Punct.ofBytes? (b :: bs) = Punct.ofBytes? [b] := by
  unfold Punct.ofBytes?
  refine List.find?_congr fun p hp => ?_
  rcases hbytes : p.bytes with _ | ⟨c, _ | ⟨d, more⟩⟩
  · rfl
  · rfl
  · have hsecond : c = b → d ∈ seconds b := by
      rintro rfl
      exact List.mem_filterMap.2 ⟨p, hp, by simp [hbytes]⟩
    cases bs with
    | nil => rfl
    | cons e bs =>
      have hne : c = b → d ≠ e := by
        rintro hc rfl
        exact hbs d rfl (hsecond hc)
      by_cases hc : c = b
      · simp [List.isPrefixOf, hne hc]
      · simp [List.isPrefixOf, hc]

lemma IsFileName.head? {text : List UInt8} (h : IsFileName text) (back : List UInt8) :
    ∀ c ∈ (text ++ ascii '>' :: back).head?, isNameByte c = true ∨ c = ascii '>' := by
  intro c hc
  cases text with
  | nil => exact .inr (by simpa using hc.symm)
  | cons b bs =>
    obtain rfl : b = c := by simpa using hc
    exact .inl (h.named b List.mem_cons_self)

lemma exists_mark (h : IsFileName (b :: bs)) (hb : b ∈ [ascii '.', ascii '-', ascii '/'])
    (back : List UInt8) : ∃ p ∈ marks, ∃ rest, b :: bs = p.bytes ++ rest ∧
      Punct.ofBytes? (b :: (bs ++ ascii '>' :: back)) = some p := by
  have hequal : ascii '=' ∉ (bs ++ ascii '>' :: back).head? := by
    intro hc
    rcases (h.suffix (List.suffix_cons b bs)).head? back _ hc with hc | hc <;> cases hc
  simp only [List.mem_cons, List.not_mem_nil, or_false] at hb
  rcases hb with rfl | rfl | rfl
  · exact ⟨.dot, by decide, bs, rfl, rfl⟩
  · by_cases hdash : bs.head? = some (ascii '-')
    · obtain ⟨bs, rfl⟩ := List.head?_eq_some_iff.1 hdash
      exact ⟨.decrement, by decide, bs, rfl, rfl⟩
    · have hseconds : seconds (ascii '-') = [ascii '-', ascii '='] := rfl
      refine ⟨.dash, by decide, bs, rfl, ofBytes?_single fun c hc hmem => ?_⟩
      rw [hseconds, List.mem_pair] at hmem
      rcases hmem with rfl | rfl
      · cases bs with
        | nil => exact absurd (Option.some.inj hc) (by decide)
        | cons d bs => exact hdash hc
      · exact hequal hc
  · have hseconds : seconds (ascii '/') = [ascii '='] := rfl
    refine ⟨.slash, by decide, bs, rfl, ofBytes?_single fun c hc hmem => ?_⟩
    rw [hseconds, List.mem_singleton] at hmem
    exact hequal (hmem ▸ hc)

lemma IsFileName.no_comment (h : IsFileName (ascii '/' :: bs)) (back : List UInt8) :
    (bs ++ ascii '>' :: back).head? ≠ some (ascii '/') ∧
      (bs ++ ascii '>' :: back).head? ≠ some (ascii '*') := by
  cases bs with
  | nil =>
    have hmark : ascii '>' ≠ ascii '/' ∧ ascii '>' ≠ ascii '*' := by decide
    simpa using hmark
  | cons c bs =>
    constructor
    · intro hc
      obtain rfl : c = ascii '/' := by simpa using hc
      exact h.slashes ⟨[], bs, rfl⟩
    · intro hc
      obtain rfl : c = ascii '*' := by simpa using hc
      cases h.named (ascii '*') (by simp)

lemma spells_of_read {literal rest : List UInt8} {m : Numeral} (hstart : Reading.startsNumeral b bs = true)
    (hbs : b :: bs = literal ++ rest) (hread : Numeral.read (b :: bs) = { outcome := .ok m, rest }) :
    ∃ n, Numeral.Spells literal n ∧ m.token = n.token := by
  obtain ⟨hlongest, hboundary⟩ := Numeral.isLongest_of_read hstart hbs hread
  obtain ⟨n, hn⟩ := hlongest.spells
  have hsame := (Numeral.read_isLongest hstart hbs hlongest).1 hboundary n hn
  rw [hread] at hsame
  obtain rfl : m = n.scanned := Except.ok.inj (Numeral.Reading.mk.inj hsame).1
  exact ⟨n, hn, n.token_scanned⟩

lemma exists_number {back : List UInt8} (hstart : Reading.startsNumeral b (bs ++ ascii '>' :: back) = true) :
    ∃ piece rest t fault, b :: bs = piece ++ rest ∧ piece ≠ [] ∧ IsPiece piece t ∧
      Reading.read b (bs ++ ascii '>' :: back) = { token := t, fault, rest := rest ++ ascii '>' :: back } := by
  have hall := Numeral.read_allTo (b :: bs ++ ascii '>' :: back)
  obtain ⟨rest, hrest, piece, hpiece, -⟩ := hall.append (by decide)
  have hshorter : (Numeral.read (b :: (bs ++ ascii '>' :: back))).rest.length <
      (b :: (bs ++ ascii '>' :: back)).length := by
    rw [← Reading.readNumeral_rest, ← Reading.read_of_startsNumeral hstart]
    exact (Reading.read_rest b _).2
  rw [List.cons_append] at hrest
  have hne : piece ≠ [] := by
    rintro rfl
    rw [hrest, ← List.nil_append rest, ← hpiece] at hshorter
    exact lt_irrefl _ hshorter
  have hsplit : b :: (bs ++ ascii '>' :: back) = piece ++ (rest ++ ascii '>' :: back) := by
    rw [← List.append_assoc, ← hpiece, List.cons_append]
  rw [Reading.read_of_startsNumeral hstart, Reading.readNumeral]
  cases hread : Numeral.read (b :: (bs ++ ascii '>' :: back)) with
  | mk outcome behind =>
    rw [hread] at hrest
    obtain rfl : behind = rest ++ ascii '>' :: back := hrest
    cases outcome with
    | error cause =>
      refine ⟨piece, rest, .invalid, _, hpiece, hne, ?_, rfl⟩
      obtain ⟨c, piece, rfl⟩ := List.exists_cons_of_ne_nil hne
      obtain ⟨rfl, hbs⟩ := List.cons.inj hsplit
      rw [hbs] at hstart hread
      exact .malformed hstart hread
    | ok m =>
      obtain ⟨n, hn, htoken⟩ := spells_of_read hstart hsplit hread
      refine ⟨piece, rest, m.token.1, _, hpiece, hne, ?_, rfl⟩
      rw [htoken]
      exact .constant hn

/-- In front of a file name one piece of it is read. -/
theorem exists_piece (h : IsFileName (b :: bs)) (back : List UInt8) :
    ∃ piece rest t fault, b :: bs = piece ++ rest ∧ piece ≠ [] ∧ IsPiece piece t ∧
      (DigitsInWords (b :: bs) → t ≠ .invalid ∧ t.constantType? = none ∧ DigitsInWords rest) ∧
      Reading.read b (bs ++ ascii '>' :: back) = { token := t, fault, rest := rest ++ ascii '>' :: back } := by
  cases hnumber : Reading.startsNumeral b (bs ++ ascii '>' :: back) with
  | true =>
    obtain ⟨piece, rest, t, fault, hpiece, hne, hkind, hread⟩ := exists_number hnumber
    refine ⟨piece, rest, t, fault, hpiece, hne, hkind, fun hwords => ?_, hread⟩
    rw [hwords.startsNumeral back] at hnumber
    cases hnumber
  | false =>
    rcases isNameByte_cases (h.named b List.mem_cons_self) with hstart | hdigit | hmark
    · obtain ⟨name, rest, hsplit, hname, hrest, hread⟩ := exists_word hstart bs back
      have hne : bytes name ≠ [] := by
        intro hnil
        rw [Identifier.isValid, hnil] at hname
        cases hname
      refine ⟨bytes name, rest, _, _, hsplit, hne, .word hname, fun hwords => ⟨by simp, rfl, ?_⟩, hread⟩
      rw [hsplit] at hwords
      exact hwords.suffix hne (.inr hrest)
    · rw [Reading.startsNumeral, hdigit] at hnumber
      cases hnumber
    · obtain ⟨p, hp, rest, hsplit, hofBytes⟩ := exists_mark h hmark back
      have hne : p.bytes ≠ [] := List.length_pos_iff.1 p.bytes_length_pos
      have hlast : ∀ p ∈ marks, p.bytes.getLast?.any Identifier.canContinue = false := by
        decide +kernel
      have hcomment : b = ascii '/' → (bs ++ ascii '>' :: back).head? ≠ some (ascii '/') ∧
          (bs ++ ascii '>' :: back).head? ≠ some (ascii '*') := by
        rintro rfl
        exact h.no_comment back
      have hread := read_punct (List.mem_append_left [ascii '<', ascii '>'] hmark) hnumber hcomment hofBytes
      rw [← List.cons_append, hsplit, List.append_assoc, List.drop_left] at hread
      refine ⟨p.bytes, rest, _, _, hsplit, hne, .mark hp, fun hwords => ⟨by simp, rfl, ?_⟩, hread⟩
      rw [hsplit] at hwords
      exact hwords.suffix hne (.inl (hlast p hp))

end Piece

/-- A file name in front of a mark `>` is divided into pieces, and their tokens are read one after the
other. There is no constant among them if no number begins in the name. -/
theorem exists_pieces {text : List UInt8} (h : IsFileName text) (back : List UInt8) :
    ∃ pieces : List (List UInt8 × Token), pieces.flatMap (·.1) = text ∧ (∀ x ∈ pieces, IsPiece x.1 x.2) ∧
      (DigitsInWords text → ∀ x ∈ pieces, x.2 ≠ .invalid ∧ x.2.constantType? = none) ∧
      ∀ l, ∃ xs l', xs.map (·.token) = pieces.map (·.2) ∧
        (Lexemes.ofCursor ⟨l, text ++ ascii '>' :: back⟩).list =
          xs ++ (Lexemes.ofCursor ⟨l', ascii '>' :: back⟩).list := by
  induction hlength : text.length using Nat.strong_induction_on generalizing text with
  | h n ih =>
    subst hlength
    cases text with
    | nil => exact ⟨[], rfl, by simp, by simp, fun l => ⟨[], l, rfl, rfl⟩⟩
    | cons b bs =>
      obtain ⟨piece, rest, t, fault, hsplit, hne, hpiece, hwords, hread⟩ := exists_piece h back
      have hshorter : rest.length < (b :: bs).length := by
        have hpositive := List.length_pos_iff.2 hne
        rw [hsplit, List.length_append]
        omega
      have hrest : IsFileName rest := h.suffix (hsplit ▸ List.suffix_append piece rest)
      obtain ⟨pieces, hpieces, hkinds, hplain, hlexemes⟩ := ih _ hshorter hrest rfl
      refine ⟨(piece, t) :: pieces, ?_, List.forall_mem_cons.2 ⟨hpiece, hkinds⟩, fun hdigits => ?_,
        fun l => ?_⟩
      · rw [List.flatMap_cons, hpieces, hsplit]
      · obtain ⟨hvalid, hconstant, hdigits'⟩ := hwords hdigits
        exact List.forall_mem_cons.2 ⟨⟨hvalid, hconstant⟩, hplain hdigits'⟩
      · obtain ⟨xs, l', hxs, hlist⟩ := hlexemes
          (Cursor.endOf l (b :: (bs ++ ascii '>' :: back)) (Reading.read b (bs ++ ascii '>' :: back)))
        refine ⟨⟨l, t, fault⟩ :: xs, l', by rw [List.map_cons, List.map_cons, hxs], ?_⟩
        rw [List.cons_append, List.cons_append, ← hlist,
          Lexemes.ofCursor_read (c := ⟨l, b :: (bs ++ ascii '>' :: back)⟩) (by simp)]
        simp only [Cursor.read, hread]

end FileName

end Shading
