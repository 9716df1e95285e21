import Shading.Proofs.Lexeme.Exact
import Shading.Proofs.Text.Unified

/-!
# Lexemes do not depend on the kind of line breaks

A text and the one with a line feed for each of its line breaks have the same lexemes, at the same places
and with the same faults.
-/

namespace Shading

namespace Reading

open Text

/-- The reading with line feeds in what is left. -/
def unify (r : Reading) : Reading :=
  { r with rest := Text.unify r.rest }

variable {b : UInt8} {bs rest : List UInt8}

lemma skipBlanks_unify (bs : List UInt8) : skipBlanks (Text.unify bs) = Text.unify (skipBlanks bs) := by
  fun_induction skipBlanks bs with
  | case1 => rw [Text.unify, skipBlanks]
  | case2 b bs hblank ih =>
    have hb : ∀ b : UInt8, isBlank b = true → isBreak b = false := by decide +kernel
    rw [unify_cons (hb b hblank), skipBlanks, if_pos hblank, ih]
  | case3 bs rest hbreak hblank ih =>
    have hbreak' : afterBreak? (Text.unify bs) = some (Text.unify rest) := by
      rw [afterBreak?_unify, hbreak, Option.map_some]
    rw [unify_cons rfl, skipBlanks, if_neg hblank, if_pos rfl]
    split
    next rest' hrest' => rw [← ih, Option.some.inj (hbreak'.symm.trans hrest')]
    next hnone =>
      rw [hbreak'] at hnone
      cases hnone
  | case4 bs hbreak hblank =>
    have hbreak' : afterBreak? (Text.unify bs) = none := by
      rw [afterBreak?_unify, hbreak, Option.map_none]
    rw [unify_cons rfl, skipBlanks, if_neg hblank, if_pos rfl]
    split
    next rest' hrest' =>
      rw [hbreak'] at hrest'
      cases hrest'
    · rfl
  | case5 b bs hblank hne =>
    cases hb : isBreak b with
    | false => rw [unify_cons hb, skipBlanks, if_neg hblank, if_neg hne]
    | true =>
      obtain ⟨rest, hrest⟩ := exists_afterBreak? hb bs
      apply skipBlanks_of_break
      rw [unify_break hrest]
      rfl

lemma afterComment?_unify (bs : List UInt8) :
    afterComment? (Text.unify bs) = (afterComment? bs).map Text.unify := by
  induction bs with
  | nil => rfl
  | cons b bs ih =>
    cases hb : isBreak b with
    | true =>
      have hstar (c : UInt8) (hc : isBreak c = true) (cs : List UInt8) :
          afterComment? (c :: cs) = afterComment? cs := by
        have hne : c ≠ ascii '*' := by
          rintro rfl
          cases hc
        rw [afterComment?, if_neg (by simp [hne])]
      rw [hstar b hb, ← ih, Text.unify]
      split
      · rfl
      · rw [hstar _ rfl]
    | false =>
      rw [unify_cons hb, afterComment?, afterComment?]
      simp only [head?_unify (c := ascii '/') rfl]
      split
      next hend =>
        have hslash : bs.head? = some (ascii '/') := by simpa using (Bool.and_eq_true_iff.1 hend).2
        rw [tail_unify hslash rfl]
        rfl
      · exact ih

/-- What reads within a line reads the same whatever ends the line. -/
lemma unify_of_append {f : List UInt8 → Reading}
    (happend : ∀ {front back : List UInt8}, Apart front back →
      f (front ++ back) = (f front).append back)
    (hsuffix : ∀ bs, (f bs).rest <:+ bs) (bs : List UInt8) : f (Text.unify bs) = (f bs).unify := by
  rcases exists_line bs with hall | ⟨front, back, rfl, hfront, hback, hunify, hback'⟩
  · have hrest := any_of_suffix (hsuffix bs) hall
    rw [unify_of_inline hall, Reading.unify, unify_of_inline hrest]
  · have hrest := any_of_suffix (hsuffix front) hfront
    rw [hunify, happend (.inr hback), happend (.inr hback')]
    simp only [append, Reading.unify, unify_append (splitsNoBreak_of_inline hrest), unify_of_inline hrest]

lemma readNumeral_unify (bs : List UInt8) :
    readNumeral (Text.unify bs) = (readNumeral bs).unify := by
  refine unify_of_append readNumeral_append (fun bs => ?_) bs
  rw [readNumeral_rest]
  exact Numeral.read_suffix bs

lemma readString_unify (bs : List UInt8) : readString (Text.unify bs) = (readString bs).unify := by
  unfold readString
  rw [takeWhile_unify ⟨rfl, rfl⟩, dropWhile_unify ⟨rfl, rfl⟩]
  cases hrest : bs.dropWhile isStringByte with
  | nil => rfl
  | cons c rest =>
    have hstop := List.head?_dropWhile_not isStringByte bs
    simp only [hrest, List.head?_cons, isStringByte, Bool.not_eq_false', Bool.or_eq_true,
      decide_eq_true_eq] at hstop
    rcases hstop with rfl | hbreak
    · rw [unify_cons rfl]
      rfl
    · obtain ⟨back, hback⟩ := exists_afterBreak? hbreak rest
      have hquote : c ≠ ascii '"' := by
        rintro rfl
        cases hbreak
      rw [unify_break hback]
      dsimp only
      rw [if_neg (by decide), if_neg hquote, ← unify_break hback]
      rfl

lemma startsBlanks_unify (b : UInt8) (bs : List UInt8) :
    startsBlanks b (Text.unify bs) = startsBlanks b bs := by
  rw [startsBlanks, afterBreak?_unify, Option.isSome_map, startsBlanks]

lemma startsNumeral_unify (b : UInt8) (bs : List UInt8) :
    startsNumeral b (Text.unify bs) = startsNumeral b bs := by
  unfold startsNumeral Numeral.startsWith
  rw [any_head?_unify (Numeral.inline_isDigitIn (by omega))]

lemma ofBytes?_unify (b : UInt8) (bs : List UInt8) :
    Punct.ofBytes? (b :: Text.unify bs) = Punct.ofBytes? (b :: bs) := by
  rcases exists_line bs with hall | ⟨front, back, rfl, -, hback, hunify, hback'⟩
  · rw [unify_of_inline hall]
  · rw [hunify, ofBytes?_append (.inr hback), ofBytes?_append (.inr hback')]

lemma take_drop_replaced {α : Type} (n : Nat) (xs ys : List α) (h : xs.drop n = [] → ys = []) :
    (xs.take n ++ ys).take n = xs.take n ∧ (xs.take n ++ ys).drop n = ys := by
  by_cases hn : n ≤ xs.length
  · have hlength : (xs.take n).length = n := List.length_take_of_le hn
    exact ⟨List.take_left' hlength, List.drop_left' hlength⟩
  · have hshort : xs.length ≤ n := by omega
    rw [h (List.drop_eq_nil_of_le hshort), List.append_nil, List.take_of_length_le hshort,
      List.take_of_length_le hshort, List.drop_eq_nil_of_le hshort]
    exact ⟨rfl, rfl⟩

lemma unexpected_unify {consumed : List UInt8} (hb : isBreak b = false)
    (h : (unexpected b bs).Takes (b :: bs) consumed) :
    unexpected b (Text.unify bs) = (unexpected b bs).unify := by
  have hinline : consumed.any isBreak = false := h.inline.resolve_left Bool.false_ne_true
  have htake : consumed = (b :: bs).take (announcedLength b) := by
    have hsplit : (b :: bs).take (announcedLength b) ++ (unexpected b bs).rest =
        consumed ++ (unexpected b bs).rest := (List.take_append_drop _ _).trans h.split
    exact (List.append_cancel_right hsplit).symm
  have hunify : b :: Text.unify bs = consumed ++ Text.unify (unexpected b bs).rest := by
    rw [← unify_cons hb, ← unify_of_inline hinline, ← unify_append h.breaks, ← h.split]
  obtain ⟨htake', hdrop'⟩ := take_drop_replaced (announcedLength b) (b :: bs)
    (Text.unify (unexpected b bs).rest) (congrArg Text.unify)
  rw [← htake, ← hunify] at htake' hdrop'
  rw [unexpected, htake', hdrop', htake]
  rfl

lemma readComment_unify (bs : List UInt8) : readComment (Text.unify bs) = (readComment bs).unify := by
  unfold readComment
  rw [afterComment?_unify]
  cases afterComment? bs <;> rfl

lemma decideAlike_unify (hb : isBreak b = false) (bs : List UInt8) : DecideAlike b bs (Text.unify bs) :=
  ⟨hb, startsBlanks_unify b bs, head?_unify rfl bs, head?_unify rfl bs, startsNumeral_unify b bs,
    ofBytes?_unify b bs⟩

/-- A token of a text that is no line break is the same in front of other line breaks. -/
theorem read_unify {s : String} (hs : bytes s = b :: bs) (hb : isBreak b = false) :
    read b (Text.unify bs) = (read b bs).unify := by
  obtain ⟨t, u, -, htakes, -⟩ := takes_text hs
  rw [hs] at htakes
  revert htakes
  apply (decideAlike_unify hb bs).rel_read
    (motive := fun r r' => r.Takes (b :: bs) (bytes t) → r' = r.unify)
  case blank =>
    intro _ _
    rw [← unify_cons hb, skipBlanks_unify]
    rfl
  case lineComment =>
    intro _
    rw [dropWhile_unify ⟨rfl, rfl⟩]
    rfl
  case blockComment =>
    intro hstar _
    rw [tail_unify hstar rfl, readComment_unify]
  case string => exact fun _ => readString_unify bs
  case numeral =>
    intro _
    rw [← unify_cons hb]
    exact readNumeral_unify _
  case identifier =>
    intro _
    rw [← unify_cons hb, takeWhile_unify ⟨rfl, rfl⟩, dropWhile_unify ⟨rfl, rfl⟩]
    rfl
  case punct =>
    intro p hfront _
    obtain ⟨rest, hrest⟩ := List.isPrefixOf_iff_prefix.1 hfront
    have hinline : p.bytes.any isBreak = false := by
      cases p <;> rfl
    rw [← unify_cons hb, ← hrest, unify_append (splitsNoBreak_of_inline hinline), unify_of_inline hinline,
      List.drop_left, Reading.unify, List.drop_left]
  case unexpected => exact unexpected_unify hb

end Reading

namespace Cursor

open Text

/-- The cursor with line feeds in what is left. -/
def unify (c : Cursor) : Cursor :=
  { c with rest := Text.unify c.rest }

lemma read_unify {c : Cursor} {s : String} (hs : c.rest = bytes s) :
    c.unify.read = (c.read.1, c.read.2.unify) := by
  obtain ⟨location, _ | ⟨b, bs⟩⟩ := c
  · rfl
  cases hb : isBreak b with
  | true =>
    obtain ⟨rest, hrest⟩ := exists_afterBreak? hb bs
    have hrest' : afterBreak? (Text.unify (b :: bs)) = some (Text.unify rest) := by
      rw [afterBreak?_unify, hrest, Option.map_some]
    rw [read_of_break (c := ⟨location, b :: bs⟩) hrest, read_of_break (c := unify ⟨location, b :: bs⟩) hrest']
    rfl
  | false =>
    obtain ⟨t, u, -, htakes, -⟩ := Reading.takes_text hs.symm
    have hfront : b :: bs = bytes t ++ (Reading.read b bs).rest := hs.trans htakes.split
    have hfront' : b :: Text.unify bs = Text.unify (bytes t) ++ Text.unify (Reading.read b bs).rest := by
      rw [← unify_cons hb, ← unify_append htakes.breaks, ← hfront]
    have hread := Reading.read_unify hs.symm hb
    have hend : endOf location (b :: Text.unify bs) (Reading.read b bs).unify =
        endOf location (b :: bs) (Reading.read b bs) := by
      have hspans : (Reading.read b bs).unify.spansLines = (Reading.read b bs).spansLines := rfl
      rw [hfront', hfront, endOf_append]
      refine (endOf_append location _ (Reading.read b bs).unify).trans ?_
      rw [hspans, after_unify]
      split
      · rfl
      next hinline => rw [unify_of_inline (htakes.inline.resolve_left hinline)]
    unfold unify read
    dsimp only
    rw [unify_cons hb]
    dsimp only
    rw [hread, hend]
    rfl

end Cursor

theorem Lexemes.ofCursor_unify {c : Cursor} {s : String} (hs : c.rest = Text.bytes s) :
    ofCursor c.unify = ofCursor c := by
  induction h : c.rest.length using Nat.strong_induction_on generalizing c s with
  | _ length ih =>
    subst h
    by_cases hc : c.rest = []
    · have hsame : c.unify = c := by
        rw [Cursor.unify, hc]
        exact congrArg _ hc.symm
      rw [hsame]
    · obtain ⟨t, u, -, hnext, -⟩ := Cursor.read_text hs
      have hc' : c.unify.rest ≠ [] := by
        rwa [Cursor.unify, ne_eq, Text.unify_eq_nil]
      rw [ofCursor_read hc, ofCursor_read hc', Cursor.read_unify hs,
        ih _ (Cursor.read_rest_length_lt hc) hnext rfl]

/-- A text has the same lexemes with other line breaks. -/
theorem Lexemes.ofBytes_withEnding {ending s : String} (hending : ending ∈ ["\n", "\r", "\r\n"])
    (hs : '\r' ∉ s.toList) :
    ofBytes (Text.bytes (Text.withEnding ending s)) = ofBytes (Text.bytes s) := by
  have hunify := ofCursor_unify (c := { rest := Text.bytes (Text.withEnding ending s) }) rfl
  rw [Cursor.unify, Text.unify_withEnding hending hs] at hunify
  exact hunify.symm

end Shading
