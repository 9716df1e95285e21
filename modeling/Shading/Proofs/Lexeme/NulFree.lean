import Shading.Proofs.Lexeme.Kinds
import Shading.Proofs.Text.NulFree

/-!
# Lexemes without NUL

What is written anew or is the same in every source holds no NUL. So the text of a token or of its fault
holds one only if the source does.
-/

namespace Shading

open Text

lemma Punct.nulFree_spelling (p : Punct) : NulFree p.spelling := by
  have hall : ∀ p ∈ all, NulFree p.spelling := by decide +kernel
  exact hall p p.mem_all

lemma nulFree_quoted {name : String} : NulFree (quoted name) ↔ NulFree name := by
  have hquote : NulFree "\"" := by decide
  simp [quoted, hquote]

namespace Decimal

lemma nulFree_digits {cs : List Char} (h : ∀ c ∈ cs, c = '0' ∨ ∃ n, c ∈ digits n) :
    NulFree (String.ofList cs) := by
  refine nulFree_ofList.2 fun c hc => ?_
  rcases h c hc with rfl | ⟨n, hn⟩
  · decide
  · exact ne_nul_of_mem_toDigits hn

lemma nulFree_positional (d : Decimal) : NulFree d.positional := by
  have hpoint : NulFree "." := by decide
  have hpadded {cs : List Char} (h : ∀ c ∈ cs, c = '0' ∨ ∃ n, c ∈ digits n) :
      NulFree (String.ofList (if cs.isEmpty then ['0'] else cs)) := by
    split
    · decide
    · exact nulFree_digits h
  simp only [positional, nulFree_append]
  refine ⟨⟨hpadded ?_, hpoint⟩, hpadded ?_⟩
  · split
    · exact fun c hc => .inr ⟨_, List.mem_of_mem_take hc⟩
    · intro c hc
      exact (List.mem_append.1 hc).symm.imp List.eq_of_mem_replicate fun h => ⟨_, h⟩
  · split
    · intro c hc
      exact (List.mem_append.1 hc).imp List.eq_of_mem_replicate fun h => ⟨_, List.mem_of_mem_drop h⟩
    · simp

lemma nulFree_scientific (d : Decimal) : NulFree d.scientific := by
  have hpoint : NulFree "." := by decide
  simp only [scientific, nulFree_append]
  refine ⟨⟨⟨?_, ?_⟩, by decide⟩, nulFree_int _⟩
  · exact nulFree_digits fun c hc => .inr ⟨_, List.mem_of_mem_take hc⟩
  · split
    · decide
    · exact nulFree_append.2 ⟨hpoint, nulFree_digits fun c hc => .inr ⟨_, List.mem_of_mem_drop hc⟩⟩

lemma Layout.nulFree_textOf {layout : Layout} (h : NulFree layout.infinity) {f : Binary.Format}
    (v : Binary.Value f) : NulFree (layout.textOf v) := by
  unfold textOf
  split
  · exact nulFree_positional _
  split
  · exact h
  unfold text
  split
  · exact nulFree_positional _
  · exact nulFree_scientific _

end Decimal

namespace Token

/-- Only names and strings are taken over from the source. -/
theorem nulFree_text {t : Token} (hname : ∀ name, t = identifier name → NulFree name)
    (hstring : ∀ content, t = string content → NulFree content) : NulFree t.text := by
  have hinfinity : NulFree constantLayout.infinity := by decide
  cases t with
  | identifier name => exact hname name rfl
  | string content => exact nulFree_quoted.2 (hstring content rfl)
  | int value => exact nulFree_int _
  | uint value => exact nulFree_append.2 ⟨nulFree_nat _, by decide⟩
  | float value => exact Decimal.Layout.nulFree_textOf hinfinity value
  | double value =>
    exact nulFree_append.2 ⟨Decimal.Layout.nulFree_textOf hinfinity value, by decide⟩
  | punct p => exact p.nulFree_spelling
  | _ => decide

end Token

namespace Numeral

lemma token_text (n : Numeral) : NulFree n.token.1.text := by
  apply Token.nulFree_text
  all_goals
    intro s h
    cases n with
    | integer radix digits unsigned => cases unsigned <;> simp [token] at h
    | floating whole fraction exponent suffix =>
      unfold token at h
      dsimp only at h
      split at h <;> simp at h

/-- What is wrong with the constant is said without NUL. -/
def Reading.IsPlain (r : Reading) : Prop :=
  ∀ cause, r.outcome = .error cause → NulFree cause.message

lemma isPlain_read (bs : List UInt8) : (read bs).IsPlain := by
  have hcauses : ∀ cause ∈ causes, NulFree cause.message := by decide
  intro cause hcause
  exact hcauses cause (failsKnown_read bs cause hcause)

end Numeral

namespace Reading

/-- Neither the text of the token nor that of its fault holds a NUL. -/
def IsNulFree (r : Reading) : Prop :=
  NulFree r.token.text ∧ ∀ cause, r.fault = some (.error cause) → NulFree cause.message

lemma isNulFree_invalid {cause : LexicalError} (h : NulFree cause.message) (rest : List UInt8) :
    (invalid cause rest).IsNulFree := by
  refine ⟨show NulFree "<error>" by decide, ?_⟩
  rintro cause' ⟨⟩
  exact h

lemma isNulFree_of_noFault {t : Token} (h : NulFree t.text) (rest : List UInt8) :
    IsNulFree { token := t, rest } := by
  refine ⟨h, ?_⟩
  intro cause hcause
  cases hcause

lemma isNulFree_readNumeral (bs : List UInt8) : (readNumeral bs).IsNulFree := by
  unfold readNumeral
  dsimp only
  split
  next cause hcause => exact isNulFree_invalid (Numeral.isPlain_read bs cause hcause) _
  next numeral _ =>
    refine ⟨numeral.token_text, ?_⟩
    intro cause hcause
    dsimp only at hcause
    split at hcause <;> simp at hcause

lemma isNulFree_readString {bs : List UInt8} (h : 0 ∉ bs) : (readString bs).IsNulFree := by
  have hcontent : NulFree (decode (bs.takeWhile isStringByte)) :=
    nulFree_decode fun hmem => h ((List.takeWhile_subset _) hmem)
  unfold readString
  dsimp only
  split
  · exact isNulFree_invalid (by decide) _
  split
  · exact isNulFree_of_noFault (t := .string _) (nulFree_quoted.2 hcontent) _
  · exact isNulFree_invalid (by decide) _

lemma nulFree_shown {lead : UInt8} {character : List UInt8} (h : 0 ∉ character) :
    NulFree (shown lead character) := by
  have hquote : NulFree "'" := by decide
  have hmark : NulFree "0x" := by decide
  unfold shown
  split
  next s hs =>
    rw [← bytes_of_decode? hs] at h
    simp [hquote, nulFree_iff_bytes.2 h]
  · simp [hmark, nulFree_hexByte]

lemma isNulFree_read {b : UInt8} {bs : List UInt8} (h : 0 ∉ b :: bs) : (read b bs).IsNulFree := by
  apply read_cases (motive := IsNulFree)
  case unterminatedComment => exact fun _ => isNulFree_invalid (by decide) _
  case string => exact fun _ => isNulFree_readString fun hmem => h (List.mem_cons_of_mem _ hmem)
  case numeral => exact fun _ => isNulFree_readNumeral _
  case identifier =>
    intro _
    have hname : NulFree (decode ((b :: bs).takeWhile Identifier.canContinue)) :=
      nulFree_decode fun hmem => h (List.takeWhile_subset _ hmem)
    exact isNulFree_of_noFault (t := .identifier _) hname _
  case punct => exact fun p _ => isNulFree_of_noFault (t := .punct p) p.nulFree_spelling _
  case unexpected =>
    intro _
    have hunexpected : NulFree "Unexpected character " := by decide
    apply isNulFree_invalid
    exact nulFree_append.2 ⟨hunexpected, nulFree_shown fun hmem => h (List.mem_of_mem_take hmem)⟩
  all_goals
    intros
    exact isNulFree_of_noFault (by decide) _

end Reading

/-- Neither the text of the token nor that of its fault holds a NUL. -/
def Lexeme.IsNulFree (x : Lexeme) : Prop :=
  NulFree x.token.text ∧ ∀ cause, x.fault = some (.error cause) → NulFree cause.message

lemma Cursor.isNulFree_read {c : Cursor} (h : 0 ∉ c.rest) : c.read.1.IsNulFree := by
  unfold read
  split
  · refine ⟨show NulFree "<EOF>" by decide, ?_⟩
    intro cause hcause
    cases hcause
  next b bs hc =>
    rw [hc] at h
    exact Reading.isNulFree_read h

lemma Cursor.read_rest_subset (c : Cursor) : c.read.2.rest ⊆ c.rest := by
  unfold read
  split
  · exact List.Subset.refl _
  next b bs hc =>
    rw [hc]
    exact (Reading.read_rest b bs).1.subset

lemma Lexemes.isNulFree_ofCursor {c : Cursor} (h : 0 ∉ c.rest) :
    ∀ x ∈ (ofCursor c).list, x.IsNulFree := by
  fun_induction ofCursor c with
  | case1 c hc => simp
  | case2 c hc reading following ih =>
    exact List.forall_mem_cons.2
      ⟨c.isNulFree_read h, ih fun hmem => h (c.read_rest_subset hmem)⟩

end Shading
