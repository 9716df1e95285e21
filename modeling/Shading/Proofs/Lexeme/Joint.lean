import Shading.Proofs.Lexeme.Kinds
import Shading.Proofs.Numeral.Joint

/-!
# Lexemes of joined texts

The lexemes of two joined texts are those of the first and then those of the second, where the first
ends a line or has no errors and is followed by a line break.
-/

namespace Shading

/-- Whether the fault is an error, and not only an overflow. -/
def Fault.isError : Fault → Bool
  | error _ => true
  | overflow _ => false

namespace Reading

open Text

def append (r : Reading) (back : List UInt8) : Reading :=
  { r with rest := r.rest ++ back }

/-- Whether the text is no token. -/
def hasError (r : Reading) : Bool :=
  r.fault.any (·.isError)

section Append

variable {b : UInt8} {bs back : List UInt8}

lemma skipBlanks_of_break (h : back.head?.any isBreak = true) : skipBlanks back = back := by
  cases back with
  | nil => cases h
  | cons c back =>
    have hslash : c ≠ ascii '\\' := by
      rintro rfl
      cases h
    have hblank : isBlank c = false := by
      rcases isBreak_iff.1 h with rfl | rfl <;> rfl
    rw [skipBlanks, if_neg (by simp [hblank]), if_neg hslash]

lemma skipBlanks_append (hrest : skipBlanks bs ≠ [] ∨
      (SplitsNoBreak bs back ∧ back.head?.any isBreak = true))
    (hslash : skipBlanks bs ≠ [ascii '\\']) :
    skipBlanks (bs ++ back) = skipBlanks bs ++ back := by
  fun_induction skipBlanks bs with
  | case1 =>
    obtain ⟨-, hback⟩ := hrest.resolve_left (by simp)
    exact skipBlanks_of_break hback
  | case2 b bs hblank ih =>
    rw [List.cons_append, skipBlanks, if_pos hblank]
    exact ih (hrest.imp id fun h => ⟨h.1.suffix (List.suffix_cons b bs), h.2⟩) hslash
  | case3 bs rest hbreak hblank ih =>
    have hsuffix := (suffix_of_afterBreak? hbreak).1.trans (List.suffix_cons (ascii '\\') bs)
    have hjoint : rest ≠ [] ∨ SplitsNoBreak bs back := by
      refine hrest.imp ?_ fun h => h.1.suffix (List.suffix_cons _ bs)
      rintro hne rfl
      exact hne (by rw [skipBlanks])
    have hbreak' := afterBreak?_append hbreak hjoint
    rw [List.cons_append, skipBlanks, if_neg hblank, if_pos rfl]
    split
    next rest' hrest' =>
      obtain rfl : rest ++ back = rest' := Option.some.inj (hbreak'.symm.trans hrest')
      exact ih (hrest.imp id fun h => ⟨h.1.suffix hsuffix, h.2⟩) hslash
    next hnone =>
      rw [hbreak'] at hnone
      cases hnone
  | case4 bs hbreak hblank =>
    cases bs with
    | nil => exact absurd rfl hslash
    | cons c bs =>
      have hnone : afterBreak? (c :: (bs ++ back)) = none :=
        afterBreak?_cons_eq_none.2 (afterBreak?_cons_eq_none.1 hbreak)
      rw [List.cons_append, List.cons_append, skipBlanks, if_neg hblank, if_pos rfl]
      split
      next rest' hrest' =>
        rw [hnone] at hrest'
        cases hrest'
      · rfl
  | case5 b bs hblank hne => rw [List.cons_append, skipBlanks, if_neg hblank, if_neg hne]

lemma afterComment?_append {rest : List UInt8} (h : afterComment? bs = some rest) :
    afterComment? (bs ++ back) = some (rest ++ back) := by
  induction bs with
  | nil => cases h
  | cons b bs ih =>
    rw [afterComment?] at h
    rw [List.cons_append, afterComment?]
    cases bs with
    | nil => simp [afterComment?] at h
    | cons c bs =>
      rw [show ((c :: bs) ++ back).head? = (c :: bs).head? from rfl]
      split at h
      next hend =>
        rw [if_pos hend, ← Option.some.inj h]
        rfl
      next hend =>
        rw [if_neg hend]
        exact ih h

lemma readString_append (hapart : Apart bs back)
    (h : (readString bs).rest ≠ [] ∨ (readString bs).hasError = false) :
    readString (bs ++ back) = (readString bs).append back := by
  have hinline : Inline isStringByte := ⟨rfl, rfl⟩
  unfold readString at h ⊢
  rw [takeWhile_append_apart hapart hinline, dropWhile_append_apart hapart hinline]
  cases hrest : bs.dropWhile isStringByte with
  | nil => simp [hrest, hasError, invalid, Fault.isError] at h
  | cons c rest =>
    dsimp only [List.cons_append]
    split <;> rfl

lemma unexpected_append (h : (unexpected b bs).rest ≠ []) :
    unexpected b (bs ++ back) = (unexpected b bs).append back := by
  have hlength : announcedLength b < (b :: bs).length := by
    rw [← not_le, ← List.drop_eq_nil_iff]
    exact h
  unfold unexpected
  dsimp only
  rw [← List.cons_append, List.take_append_of_le_length hlength.le,
    List.drop_append_of_le_length hlength.le]
  rfl

lemma readNumeral_append (hapart : Apart bs back) :
    readNumeral (bs ++ back) = (readNumeral bs).append back := by
  unfold readNumeral
  rw [Numeral.read_append hapart]
  unfold Numeral.Reading.append
  dsimp only
  split <;> rfl

lemma readComment_append (h : (readComment bs).rest ≠ [] ∨ (readComment bs).hasError = false) :
    readComment (bs ++ back) = (readComment bs).append back := by
  unfold readComment at h ⊢
  cases hcomment : afterComment? bs with
  | some rest =>
    rw [afterComment?_append hcomment]
    rfl
  | none => simp [hcomment, invalid, hasError, Fault.isError] at h

lemma startsBlanks_append (hslash : b :: bs ≠ [ascii '\\']) :
    startsBlanks b (bs ++ back) = startsBlanks b bs := by
  unfold startsBlanks
  cases bs with
  | nil =>
    have hne : b ≠ ascii '\\' := by simpa using hslash
    simp [hne]
  | cons c bs => rw [List.cons_append, afterBreak?_isSome_cons, afterBreak?_isSome_cons]

lemma ofBytes?_append (hapart : Apart (b :: bs) back) :
    Punct.ofBytes? (b :: (bs ++ back)) = Punct.ofBytes? (b :: bs) := by
  unfold Punct.ofBytes?
  congr 1
  funext p
  exact isPrefixOf_append_apart hapart p.bytes (by cases p <;> rfl)

lemma decideAlike_append (hapart : Apart (b :: bs) back) (hb : isBreak b = false)
    (halone : b :: bs ≠ [ascii '\\']) : DecideAlike b bs (bs ++ back) := by
  have htail := hapart.tail hb
  have hdigit : Inline (isDigitIn 10) := Numeral.inline_isDigitIn (by omega)
  have hnumeral : startsNumeral b (bs ++ back) = startsNumeral b bs := by
    unfold startsNumeral
    rw [Numeral.startsWith_append htail hdigit]
  exact ⟨hb, startsBlanks_append halone, head?_append_iff htail rfl, head?_append_iff htail rfl, hnumeral,
    ofBytes?_append hapart⟩

/-- A token that is no line break is the same with more text behind the joint, if it ends before the
joint, or if it is no error and a line break follows. -/
lemma read_append_of_inline (hapart : Apart (b :: bs) back) (hb : isBreak b = false)
    (hrest : (read b bs).rest ≠ [] ∨ ((read b bs).hasError = false ∧
      SplitsNoBreak (b :: bs) back ∧ back.head?.any isBreak = true))
    (hslash : (read b bs).rest ≠ [ascii '\\']) :
    read b (bs ++ back) = (read b bs).append back := by
  have htail := hapart.tail hb
  have halone : b :: bs ≠ [ascii '\\'] := by
    intro h
    obtain ⟨rfl, rfl⟩ := List.cons.inj h
    rcases hrest with hne | ⟨herror, -⟩
    · exact hne rfl
    · exact Bool.noConfusion herror
  have hcontinue : Inline Identifier.canContinue := ⟨rfl, rfl⟩
  have hinline : Inline (!isBreak ·) := ⟨rfl, rfl⟩
  revert hrest hslash
  apply (decideAlike_append hapart hb halone).rel_read (motive := fun r r' =>
    (r.rest ≠ [] ∨ (r.hasError = false ∧ SplitsNoBreak (b :: bs) back ∧ back.head?.any isBreak = true)) →
      r.rest ≠ [ascii '\\'] → r' = r.append back)
  case blank =>
    intro _ hrest hslash
    rw [← List.cons_append, skipBlanks_append (hrest.imp id And.right) hslash]
    rfl
  case lineComment =>
    intro _ _
    rw [dropWhile_append_apart htail hinline]
    rfl
  case blockComment =>
    intro hstar hrest _
    have hne : bs ≠ [] := by
      rintro rfl
      cases hstar
    rw [List.tail_append_of_ne_nil hne]
    exact readComment_append (hrest.imp id And.left)
  case string => exact fun hrest _ => readString_append htail (hrest.imp id And.left)
  case numeral => exact fun _ _ => readNumeral_append hapart
  case identifier =>
    intro _ _
    rw [← List.cons_append, takeWhile_append_apart hapart hcontinue,
      dropWhile_append_apart htail hcontinue]
    rfl
  case punct =>
    intro p hfront _ _
    have hdrop := (hapart.drop (by cases p <;> rfl) hfront).1
    rw [← List.cons_append, hdrop]
    rfl
  case unexpected =>
    exact fun hrest _ => unexpected_append (hrest.resolve_right fun herror => Bool.noConfusion herror.1)

/-- The token in front is the same with more text behind the joint, if it ends before the joint, or if
it is no error and a line break follows. -/
theorem read_append (hapart : Apart (b :: bs) back)
    (hrest : (read b bs).rest ≠ [] ∨ ((read b bs).hasError = false ∧
      SplitsNoBreak (b :: bs) back ∧ back.head?.any isBreak = true))
    (hslash : (read b bs).rest ≠ [ascii '\\']) :
    read b (bs ++ back) = (read b bs).append back := by
  cases hbreak : afterBreak? (b :: bs) with
  | some rest =>
    have hread : read b bs = { token := .newline, rest } := by
      unfold read
      rw [hbreak]
    rw [hread] at hrest ⊢
    have hbreak' := afterBreak?_append hbreak (hrest.imp id fun h => h.2.1)
    unfold read
    rw [List.cons_append] at hbreak'
    rw [hbreak']
    rfl
  | none => exact read_append_of_inline hapart (afterBreak?_cons_eq_none.1 hbreak) hrest hslash

end Append

end Reading

/-- Whether the text is no token. -/
def Lexeme.hasError (x : Lexeme) : Bool :=
  x.fault.any (·.isError)

/-- The lexemes do not end within a line. -/
def EndsLine (xs : List Lexeme) : Prop :=
  ∀ x ∈ xs.getLast?, x.token = .newline

lemma EndsLine.suffix {xs ys : List Lexeme} (h : EndsLine xs) (hys : ys <:+ xs) : EndsLine ys := by
  by_cases hne : ys = []
  · subst hne
    simp [EndsLine]
  · rwa [EndsLine, Text.getLast?_of_suffix hys hne]

lemma EndsLine.tail {x : Lexeme} {xs : List Lexeme} (h : EndsLine (x :: xs)) : EndsLine xs :=
  h.suffix (List.suffix_cons x xs)

/-- What is left of the second text where the first one ends a line: a line feed belongs to a carriage
return before it. -/
def Text.behind (front back : List UInt8) : List UInt8 :=
  if front.getLast? = some (ascii '\r') ∧ back.head? = some (ascii '\n') then back.tail else back

/-- The lexemes with those of more text behind them. -/
def Lexemes.followedBy (xs : Lexemes) (back : List UInt8) : Lexemes :=
  let following := ofCursor { location := xs.stop, rest := back }
  { list := xs.list ++ following.list, stop := following.stop }

namespace Cursor

open Text

def append (c : Cursor) (back : List UInt8) : Cursor :=
  { c with rest := c.rest ++ back }

variable {c : Cursor} {back : List UInt8}

lemma endOf_append (l : Location) (consumed : List UInt8) (r : Reading) :
    endOf l (consumed ++ r.rest) r =
      if r.spansLines then l.after consumed else l.right consumed.length := by
  unfold endOf
  rw [List.length_append, Nat.add_sub_cancel, List.take_left]

lemma read_suffix (hc : c.rest ≠ []) : c.read.2.rest <:+ c.rest := by
  unfold read
  split
  next h => exact absurd h hc
  next b bs h =>
    rw [h]
    exact (Reading.read_rest b bs).1

lemma read_append {b : UInt8} {bs : List UInt8} (hc : c.rest = b :: bs)
    (h : Reading.read b (bs ++ back) = (Reading.read b bs).append back) :
    (c.append back).read = (c.read.1, c.read.2.append back) := by
  obtain ⟨location, rest⟩ := c
  subst hc
  have hlength := (Reading.read_rest b bs).2.le
  have hend : endOf location (b :: (bs ++ back)) ((Reading.read b bs).append back) =
      endOf location (b :: bs) (Reading.read b bs) := by
    have hconsumed : (b :: (bs ++ back)).take
          ((b :: (bs ++ back)).length - ((Reading.read b bs).rest ++ back).length) =
        (b :: bs).take ((b :: bs).length - (Reading.read b bs).rest.length) := by
      rw [← List.cons_append, List.length_append, List.length_append, Nat.add_sub_add_right,
        List.take_append_of_le_length (Nat.sub_le _ _)]
    unfold endOf
    simp only [Reading.append, hconsumed]
    rfl
  unfold read append
  dsimp only [List.cons_append]
  rw [h, hend]
  rfl

lemma read_of_break {rest : List UInt8} (h : afterBreak? c.rest = some rest) :
    c.read = ({ location := c.location, token := .newline },
      { location := c.location.nextLine, rest }) := by
  obtain ⟨location, _ | ⟨b, bs⟩⟩ := c
  · cases h
  dsimp only at h
  have hread : Reading.read b bs = { token := .newline, rest } := by
    unfold Reading.read
    rw [h]
  obtain ⟨mark, hmark, hsplit, -⟩ := afterBreak?_eq_some h
  have hend : endOf location (b :: bs) { token := .newline, rest } = location.nextLine := by
    rw [hsplit]
    refine (endOf_append location mark { token := .newline, rest }).trans ?_
    fin_cases hmark <;> rfl
  unfold read
  dsimp only
  rw [hread, hend]

lemma read_newline (h : c.read.1.token = .newline) : afterBreak? c.rest = some c.read.2.rest := by
  cases hbreak : afterBreak? c.rest with
  | some rest => rw [read_of_break hbreak]
  | none =>
    obtain ⟨location, _ | ⟨b, bs⟩⟩ := c
    · cases h
    · exact absurd h (Reading.token_ne_newline hbreak)

end Cursor

namespace Lexemes

open Text

variable {c : Cursor} {back : List UInt8}

lemma list_ofCursor_eq_nil : (ofCursor c).list = [] ↔ c.rest = [] := by
  constructor
  · intro h
    by_contra hc
    rw [ofCursor_read hc] at h
    cases h
  · intro h
    rw [ofCursor_nil h]

lemma followedBy_read (hc : c.rest ≠ []) (back : List UInt8) :
    (ofCursor c).followedBy back =
      { list := c.read.1 :: ((ofCursor c.read.2).followedBy back).list
        stop := ((ofCursor c.read.2).followedBy back).stop } := by
  rw [ofCursor_read hc]
  rfl

lemma ofCursor_append_read {b : UInt8} {bs back' : List UInt8} (hc : c.rest = b :: bs)
    (h : Reading.read b (bs ++ back) = (Reading.read b bs).append back)
    (hfollowing : ofCursor (c.read.2.append back) = (ofCursor c.read.2).followedBy back') :
    ofCursor (c.append back) = (ofCursor c).followedBy back' := by
  have hne : c.rest ≠ [] := by simp [hc]
  have hne' : (c.append back).rest ≠ [] := by simp [Cursor.append, hc]
  rw [ofCursor_read hne', Cursor.read_append hc h, hfollowing, followedBy_read hne]

lemma getLast?_isBreak (hc : c.rest ≠ []) (hlast : EndsLine (ofCursor c).list) :
    c.rest.getLast?.any isBreak = true := by
  fun_induction ofCursor c with
  | case1 c h => exact absurd h hc
  | case2 c h reading following ih =>
    obtain ⟨b, bs, hrest⟩ := List.exists_cons_of_ne_nil h
    have hsuffix : reading.2.rest <:+ c.rest := Cursor.read_suffix h
    by_cases hend : reading.2.rest = []
    · have hnewline : reading.1.token = .newline := by
        apply hlast
        simp [following, list_ofCursor_eq_nil.2 hend]
      obtain ⟨mark, hmark, hsplit, -⟩ := afterBreak?_eq_some (Cursor.read_newline hnewline)
      rw [hsplit, hend, List.append_nil]
      fin_cases hmark <;> rfl
    · rw [← getLast?_of_suffix hsuffix hend]
      exact ih hend hlast.tail

lemma hasError_of_rest {b : UInt8} {bs : List UInt8} (hc : c.rest = b :: bs) :
    c.read.1.hasError = (Reading.read b bs).hasError := by
  unfold Cursor.read
  rw [hc]
  rfl

lemma hasError_backslash (hc : c.rest = [ascii '\\']) : ∃ x ∈ (ofCursor c).list, x.hasError = true := by
  have hne : c.rest ≠ [] := by simp [hc]
  refine ⟨c.read.1, ?_, ?_⟩
  · rw [ofCursor_read hne]
    exact List.mem_cons_self
  · rw [hasError_of_rest hc]
    rfl

/-- Behind a text without errors that a line break follows. -/
theorem ofCursor_append_break (hclean : ∀ x ∈ (ofCursor c).list, x.hasError = false)
    (hback : back.head?.any isBreak = true) (hsplits : SplitsNoBreak c.rest back) :
    ofCursor (c.append back) = (ofCursor c).followedBy back := by
  fun_induction ofCursor c with
  | case1 c h => simp [Cursor.append, h, followedBy]
  | case2 c h reading following ih =>
    obtain ⟨b, bs, hrest⟩ := List.exists_cons_of_ne_nil h
    have hfollowing : ∀ x ∈ following.list, x.hasError = false := fun x hx =>
      hclean x (List.mem_cons_of_mem _ hx)
    have hsplits' := hsplits.suffix (Cursor.read_suffix h)
    have herror : (Reading.read b bs).hasError = false := by
      rw [← hasError_of_rest hrest]
      exact hclean _ List.mem_cons_self
    have hslash : (Reading.read b bs).rest ≠ [ascii '\\'] := by
      intro hslash
      have hread : c.read.2.rest = [ascii '\\'] := by
        unfold Cursor.read
        rw [hrest]
        exact hslash
      obtain ⟨x, hx, hxerror⟩ := hasError_backslash hread
      exact Bool.noConfusion (hxerror.symm.trans (hfollowing x hx))
    rw [hrest] at hsplits
    have hread := Reading.read_append (.inr hback) (.inr ⟨herror, hsplits, hback⟩) hslash
    rw [ofCursor_append_read hrest hread (ih hfollowing hsplits'), ofCursor_read h]

lemma ofCursor_break {rest : List UInt8} (h : afterBreak? c.rest = some rest) :
    ofCursor c =
      { list := { location := c.location, token := .newline } ::
          (ofCursor { location := c.location.nextLine, rest }).list
        stop := (ofCursor { location := c.location.nextLine, rest }).stop } := by
  have hc : c.rest ≠ [] := by
    rintro hc
    rw [hc] at h
    cases h
  rw [ofCursor_read hc, Cursor.read_of_break h]

/-- A line break at the end of a text takes what belongs to it from the text behind. -/
lemma afterBreak?_append_end {bs : List UInt8} (h : afterBreak? bs = some []) (back : List UInt8) :
    afterBreak? (bs ++ back) = some (behind bs back) := by
  obtain ⟨mark, hmark, hsplit, -⟩ := afterBreak?_eq_some h
  rw [List.append_nil] at hsplit
  subst hsplit
  fin_cases hmark
  · rfl
  · cases back with
    | nil => rfl
    | cons b rest =>
      by_cases hb : b = ascii '\n'
      · subst hb
        rfl
      · have hreturn : isBreak (ascii '\r') = true := rfl
        simp [behind, afterBreak?, hb, hreturn]
  · rfl

lemma ofCursor_append_lone (h : afterBreak? c.rest = some []) (back : List UInt8) :
    ofCursor (c.append back) = (ofCursor c).followedBy (behind c.rest back) := by
  have hbreak : afterBreak? (c.append back).rest = some (behind c.rest back) :=
    afterBreak?_append_end h back
  rw [ofCursor_break hbreak, ofCursor_break h]
  simp [followedBy, ofCursor_nil, Cursor.append]

/-- Behind a text that does not end within a line. -/
theorem ofCursor_append_lines (hlast : EndsLine (ofCursor c).list) (back : List UInt8) :
    ofCursor (c.append back) = (ofCursor c).followedBy (behind c.rest back) := by
  fun_induction ofCursor c with
  | case1 c h => simp [Cursor.append, h, followedBy, behind]
  | case2 c h reading following ih =>
    obtain ⟨b, bs, hrest⟩ := List.exists_cons_of_ne_nil h
    by_cases hend : c.read.2.rest = []
    · have hnewline : c.read.1.token = .newline := by
        apply hlast
        simp [following, reading, list_ofCursor_eq_nil.2 hend]
      have hlone := Cursor.read_newline hnewline
      rw [hend] at hlone
      rw [ofCursor_append_lone hlone, ofCursor_read h]
    · have hread : c.read.2.rest = (Reading.read b bs).rest := by
        unfold Cursor.read
        rw [hrest]
      have hbreak : c.rest.getLast?.any isBreak = true :=
        getLast?_isBreak h (by rwa [ofCursor_read h])
      have hlast? := getLast?_of_suffix (Cursor.read_suffix h) hend
      have hslash : (Reading.read b bs).rest ≠ [ascii '\\'] := by
        intro hslash
        rw [← hlast?, hread, hslash] at hbreak
        cases hbreak
      have hbehind : behind c.read.2.rest back = behind c.rest back := by
        rw [behind, behind, hlast?]
      rw [hrest] at hbreak
      have hone : Reading.read b (bs ++ back) = (Reading.read b bs).append back :=
        Reading.read_append (.inl hbreak) (.inl (hread ▸ hend)) hslash
      have hwhole := ofCursor_append_read hrest hone (ih hlast.tail)
      rw [hwhole, hbehind, ofCursor_read h]

end Lexemes

end Shading
