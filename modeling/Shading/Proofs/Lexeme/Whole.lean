import Shading.Proofs.Lexeme.Place
import Shading.Proofs.Numeral.Simple

/-!
# What tokens take

A token takes whole line breaks and whole characters. Only blanks, comments and line breaks take line
breaks, except that an unexpected character of bytes that are no text takes whatever it announces. So a
text without errors ends where its line breaks and the bytes behind the last of them lead to, and in the
bytes of a text every token begins and ends between two characters.
-/

namespace Shading

namespace Text

variable {front : List UInt8} {b : UInt8} {p : UInt8 → Bool}

lemma besideAscii_dropWhile (hp : ∀ b, p b = false → isAscii b = true) (bs : List UInt8) :
    BesideAscii front (bs.dropWhile p) := by
  right
  rw [Option.all_eq_true]
  intro b hb
  have hhead := List.head?_dropWhile_not p bs
  rw [hb] at hhead
  exact hp b hhead

lemma isAscii_of_isBreak (h : isBreak b = true) : isAscii b = true := by
  rcases isBreak_iff.1 h with rfl | rfl <;> rfl

end Text

namespace Reading

open Text

/-- The bytes `consumed` in front of `bs` are what a token takes, whole line breaks or nothing of them. -/
structure Takes (bs consumed : List UInt8) (r : Reading) : Prop where
  split : bs = consumed ++ r.rest
  breaks : SplitsNoBreak consumed r.rest
  inline : r.spansLines = true ∨ consumed.any isBreak = false

/-- A token takes whole line breaks, and it ends beside an ASCII byte or at the end. -/
def TakesWhole (bs : List UInt8) (r : Reading) : Prop :=
  ∃ consumed, r.Takes bs consumed ∧ BesideAscii consumed r.rest

variable {b : UInt8} {bs rest : List UInt8}

lemma takes_inline {r : Reading} {consumed : List UInt8} (h : bs = consumed ++ r.rest)
    (hinline : consumed.any isBreak = false) : r.Takes bs consumed :=
  ⟨h, splitsNoBreak_of_inline hinline, .inr hinline⟩

lemma takesWhole_simple {r : Reading} (h : SimpleTo bs r.rest) : r.TakesWhole bs := by
  obtain ⟨consumed, hsplit, hsimple⟩ := h
  simp only [isSimple, Bool.and_eq_true] at hsimple
  refine ⟨consumed, takes_inline hsplit ?_, besideAscii_of_all (fun b hb => (hsimple b hb).1) _⟩
  rw [List.any_eq_false]
  intro b hb
  simpa using (hsimple b hb).2

lemma consumed_skipBlanks (bs : List UInt8) :
    ∃ consumed, bs = consumed ++ skipBlanks bs ∧ SplitsNoBreak consumed (skipBlanks bs) ∧
      ∀ b ∈ consumed, isAscii b = true := by
  have one {b : UInt8} {rest back : List UInt8} (hb : b ≠ ascii '\r')
      (h : SplitsNoBreak rest back) : SplitsNoBreak (b :: rest) back := by
    have hsingle : SplitsNoBreak [b] (rest ++ back) := by
      intro hlast
      exact absurd (Option.some.inj hlast) hb
    exact hsingle.append h
  fun_induction skipBlanks bs with
  | case1 => exact ⟨[], rfl, by simp [SplitsNoBreak], by simp⟩
  | case2 b bs hblank ih =>
    obtain ⟨consumed, hbs, hsplits, hascii⟩ := ih
    have hb : ∀ b : UInt8, isBlank b = true → b ≠ ascii '\r' ∧ isAscii b = true := by decide +kernel
    obtain ⟨hreturn, hfirst⟩ := hb b hblank
    exact ⟨b :: consumed, congrArg (b :: ·) hbs, one hreturn hsplits,
      List.forall_mem_cons.2 ⟨hfirst, hascii⟩⟩
  | case3 bs rest hbreak hblank ih =>
    obtain ⟨consumed, hrest, hsplits, hascii⟩ := ih
    obtain ⟨mark, hmark, hbs, hfront⟩ := afterBreak?_eq_some hbreak
    rw [hrest] at hfront
    refine ⟨ascii '\\' :: (mark ++ consumed), ?_, one (by decide +kernel) (hfront.append hsplits), ?_⟩
    · rw [List.cons_append, List.append_assoc, ← hrest, hbs]
    · have hmarkAscii : ∀ b ∈ mark, isAscii b = true := by
        fin_cases hmark <;> decide +kernel
      refine List.forall_mem_cons.2 ⟨by decide +kernel, fun b hb => ?_⟩
      exact (List.mem_append.1 hb).elim (hmarkAscii b) (hascii b)
  | case4 => exact ⟨[], rfl, by simp [SplitsNoBreak], by simp⟩
  | case5 => exact ⟨[], rfl, by simp [SplitsNoBreak], by simp⟩

lemma consumed_afterComment? (h : afterComment? bs = some rest) :
    ∃ consumed, bs = consumed ++ ascii '/' :: rest := by
  induction bs with
  | nil => cases h
  | cons b bs ih =>
    rw [afterComment?] at h
    split at h
    next hend =>
      obtain ⟨rfl, hhead⟩ : b = ascii '*' ∧ bs.head? = some (ascii '/') := by simpa using hend
      obtain rfl := Option.some.inj h
      exact ⟨[ascii '*'], by rw [← List.cons_head?_tail hhead]; rfl⟩
    · obtain ⟨consumed, rfl⟩ := ih h
      exact ⟨b :: consumed, rfl⟩

lemma takesWhole_numeral (bs : List UInt8) : (readNumeral bs).TakesWhole bs := by
  apply takesWhole_simple
  rw [readNumeral_rest]
  exact (Numeral.read_allTo bs).mono Numeral.isSimple_of_isPart

lemma takesWhole_string (bs : List UInt8) : (readString bs).TakesWhole (ascii '"' :: bs) := by
  have hbs := List.takeWhile_append_dropWhile (p := isStringByte) (l := bs)
  have hinline := any_takeWhile (p := isStringByte) ⟨rfl, rfl⟩ bs
  have hopen {r : Reading} (hr : r.rest = bs.dropWhile isStringByte) :
      r.TakesWhole (ascii '"' :: bs) := by
    refine ⟨ascii '"' :: bs.takeWhile isStringByte, takes_inline ?_ hinline, ?_⟩
    · rw [hr, List.cons_append, hbs]
    · rw [hr]
      exact besideAscii_dropWhile (by decide +kernel) bs
  unfold readString
  cases hrest : bs.dropWhile isStringByte with
  | nil => exact hopen hrest.symm
  | cons c rest =>
    dsimp only
    by_cases hc : c = ascii '"'
    · rw [if_pos hc]
      rw [hrest, hc] at hbs
      refine ⟨ascii '"' :: (bs.takeWhile isStringByte ++ [ascii '"']), takes_inline ?_ ?_, .inl ?_⟩
      · rw [List.cons_append, List.append_assoc, List.singleton_append, hbs]
      · rw [List.any_cons, List.any_append, hinline]
        rfl
      · rw [← List.cons_append, List.getLast?_append_of_ne_nil _ (by simp)]
        rfl
    · rw [if_neg hc]
      exact hopen hrest.symm

lemma takesWhole_lineComment (hb : isBreak b = false) (bs : List UInt8) :
    TakesWhole (b :: bs) { token := .comment, rest := bs.dropWhile (!isBreak ·) } := by
  refine ⟨b :: bs.takeWhile (!isBreak ·), takes_inline ?_ ?_, ?_⟩
  · rw [List.cons_append, List.takeWhile_append_dropWhile]
  · rw [List.any_cons, hb, any_takeWhile ⟨rfl, rfl⟩]
    rfl
  · exact besideAscii_dropWhile (fun c hc => isAscii_of_isBreak (by simpa using hc)) bs

lemma takesWhole_blockComment (hstar : bs.head? = some (ascii '*')) (h : afterComment? bs.tail = some rest)
    (b : UInt8) : TakesWhole (b :: bs) { token := .comment, rest } := by
  obtain ⟨consumed, hconsumed⟩ := consumed_afterComment? h
  have hlast : (b :: ascii '*' :: (consumed ++ [ascii '/'])).getLast? = some (ascii '/') := by
    rw [← List.cons_append, ← List.cons_append, List.getLast?_append_of_ne_nil _ (by simp)]
    rfl
  refine ⟨b :: ascii '*' :: (consumed ++ [ascii '/']), ⟨?_, ?_, .inl rfl⟩, .inl ?_⟩
  · rw [← List.cons_head?_tail hstar, hconsumed]
    simp
  · intro hreturn
    rw [hlast] at hreturn
    cases hreturn
  · rw [hlast]
    rfl

lemma takesWhole_identifier (h : Identifier.canStart b = true) (bs : List UInt8) {name : String} :
    TakesWhole (b :: bs)
      { token := .identifier name, rest := bs.dropWhile Identifier.canContinue } := by
  have hcontinue : Identifier.canContinue b = true := by simp [Identifier.canContinue, h]
  have hword := AllTo.dropWhile Identifier.isSimple_of_canContinue (b :: bs)
  rw [List.dropWhile_cons_of_pos hcontinue] at hword
  exact takesWhole_simple hword

lemma takesWhole_punct {p : Punct} (h : Punct.ofBytes? bs = some p) :
    TakesWhole bs { token := .punct p, rest := bs.drop p.bytes.length } := by
  have hfront : p.bytes.isPrefixOf bs = true := by simpa using List.find?_some h
  have hsimple : ∀ p ∈ Punct.all, p.bytes.all isSimple = true := by decide +kernel
  exact takesWhole_simple (AllTo.drop (List.all_eq_true.1 (hsimple p p.mem_all)) hfront)

/-- A token takes whole line breaks and ends beside an ASCII byte, unless it is an unexpected
character. -/
theorem takesWhole_or_unexpected (b : UInt8) (bs : List UInt8) :
    (read b bs).TakesWhole (b :: bs) ∨ isBreak b = false ∧ read b bs = unexpected b bs := by
  apply read_cases (motive := fun r => r.TakesWhole (b :: bs) ∨ isBreak b = false ∧ r = unexpected b bs)
  case newline =>
    intro rest hbreak
    obtain ⟨mark, hmark, hsplit, hsplits⟩ := afterBreak?_eq_some hbreak
    have hjoint : BesideAscii mark rest := by
      apply besideAscii_of_all
      fin_cases hmark <;> decide +kernel
    exact .inl ⟨mark, ⟨hsplit, hsplits, .inl rfl⟩, hjoint⟩
  case blank =>
    intro _
    obtain ⟨consumed, hconsumed, hsplits, hascii⟩ := consumed_skipBlanks (b :: bs)
    exact .inl ⟨consumed, ⟨hconsumed, hsplits, .inl rfl⟩, besideAscii_of_all hascii _⟩
  case lineComment =>
    rintro rfl _
    exact .inl (takesWhole_lineComment rfl bs)
  case blockComment => exact fun _ hstar rest hcomment => .inl (takesWhole_blockComment hstar hcomment b)
  case unterminatedComment =>
    exact fun _ => .inl ⟨b :: bs, ⟨(List.append_nil _).symm, splitsNoBreak_nil _, .inl rfl⟩, .inr rfl⟩
  case string =>
    rintro rfl
    exact .inl (takesWhole_string bs)
  case numeral => exact fun _ => .inl (takesWhole_numeral (b :: bs))
  case identifier => exact fun hname => .inl (takesWhole_identifier hname bs)
  case punct => exact fun p hpunct => .inl (takesWhole_punct hpunct)
  case unexpected => exact fun hbreak => .inr ⟨afterBreak?_cons_eq_none.1 hbreak, rfl⟩

end Reading

/-- A text without errors ends where its bytes lead to. -/
theorem Lexemes.stop_eq_after {c : Cursor} (hclean : ∀ x ∈ (ofCursor c).list, x.hasError = false) :
    (ofCursor c).stop = c.location.after c.rest := by
  fun_induction ofCursor c with
  | case1 c h =>
    rw [h]
    rfl
  | case2 c h reading following ih =>
    have hfollowing := ih fun x hx => hclean x (List.mem_cons_of_mem _ hx)
    obtain ⟨location, _ | ⟨b, bs⟩⟩ := c
    · exact absurd rfl h
    have herror : (Reading.read b bs).hasError = false := by
      rw [← hasError_of_rest (c := ⟨location, b :: bs⟩) rfl]
      exact hclean _ List.mem_cons_self
    obtain ⟨consumed, htakes, -⟩ : (Reading.read b bs).TakesWhole (b :: bs) := by
      refine (Reading.takesWhole_or_unexpected b bs).resolve_right fun hunexpected => ?_
      rw [hunexpected.2] at herror
      cases herror
    have hend : reading.2.location = location.after consumed := by
      have hread : reading.2.location = Cursor.endOf location (b :: bs) (Reading.read b bs) := rfl
      rw [hread, htakes.split, Cursor.endOf_append]
      split
      · rfl
      next hspans =>
        rw [Location.after_inline (htakes.inline.resolve_left hspans)]
    rw [hfollowing, hend]
    have hrest : reading.2.rest = (Reading.read b bs).rest := rfl
    rw [hrest, ← Location.after_append htakes.breaks, ← htakes.split]

end Shading
