import Shading.Proofs.Lexeme.Tiling
import Shading.Proofs.Lexeme.Whole

/-!
# Exact places in a text

In the bytes of a text the place of a cursor says how many line breaks it has passed, and how many bytes
since the last of them. Between two readings a text is divided into two texts.
-/

namespace Shading

namespace Text

/-- The number of line breaks: a carriage return and a line feed behind it are one. -/
def lineBreaks (bs : List UInt8) : Nat :=
  bs.count (ascii '\n') + bs.count (ascii '\r') - (bs.zip bs.tail).count (ascii '\r', ascii '\n')

/-- The bytes behind the last line break. -/
def lastLine (bs : List UInt8) : List UInt8 :=
  bs.rtakeWhile (!isBreak ·)

variable {b : UInt8} {bs : List UInt8}

lemma count_pairs_le (bs : List UInt8) :
    (bs.zip bs.tail).count (ascii '\r', ascii '\n') ≤ bs.count (ascii '\r') := by
  have hfirst : ((bs.zip bs.tail).map Prod.fst).Sublist bs := by
    induction bs with
    | nil => simp
    | cons b bs ih =>
      cases bs with
      | nil => simp
      | cons c bs => simpa using ih
  exact List.count_le_count_map.trans (hfirst.count_le _)

lemma lineBreaks_cons (b : UInt8) (bs : List UInt8) :
    lineBreaks (b :: bs) =
      if isBreak b && !(b = ascii '\r' && bs.head? = some (ascii '\n')) then lineBreaks bs + 1
      else lineBreaks bs := by
  have hpairs := count_pairs_le bs
  have hzip : ((b :: bs).zip bs).count (ascii '\r', ascii '\n') =
      (bs.zip bs.tail).count (ascii '\r', ascii '\n') +
        if b = ascii '\r' ∧ bs.head? = some (ascii '\n') then 1 else 0 := by
    cases bs with
    | nil => simp
    | cons c bs => simp [List.count_cons]
  have hdiffer : ascii '\n' ≠ ascii '\r' := by decide
  rw [lineBreaks, List.tail_cons, hzip, List.count_cons, List.count_cons, lineBreaks]
  by_cases hfeed : b = ascii '\n'
  · subst hfeed
    simp [isBreak, hdiffer]
    omega
  · by_cases hreturn : b = ascii '\r'
    · subst hreturn
      by_cases hhead : bs.head? = some (ascii '\n')
      · simp [isBreak, hdiffer.symm, hhead]
        omega
      · simp [isBreak, hdiffer.symm, hhead]
        omega
    · simp [isBreak, hfeed, hreturn]

lemma lineBreaks_of_inline (h : bs.any isBreak = false) : lineBreaks bs = 0 := by
  have hnone (c : UInt8) (hc : isBreak c = true) : bs.count c = 0 := by
    rw [List.count_eq_zero]
    intro hmem
    exact List.any_eq_false.1 h c hmem hc
  rw [lineBreaks, hnone _ rfl, hnone _ rfl]
  exact Nat.zero_sub _

lemma lastLine_of_inline (h : bs.any isBreak = false) : lastLine bs = bs := by
  rw [lastLine, List.rtakeWhile_eq_self_iff]
  simpa using h

lemma lastLine_cons (b : UInt8) (bs : List UInt8) :
    lastLine (b :: bs) =
      if bs.any isBreak then lastLine bs else if isBreak b then bs else b :: bs := by
  unfold lastLine List.rtakeWhile
  rw [List.reverse_cons]
  split
  next h =>
    have hshort : (bs.reverse.takeWhile (!isBreak ·)).length ≠ bs.reverse.length := by
      intro hlength
      have hall := (List.takeWhile_prefix (!isBreak ·)).eq_of_length hlength
      rw [List.takeWhile_eq_self_iff] at hall
      simp at h hall
      obtain ⟨c, hc, hbreak⟩ := h
      rw [hall c hc] at hbreak
      cases hbreak
    rw [List.takeWhile_append, if_neg hshort]
  next h =>
    rw [List.takeWhile_append_of_pos (by simpa using h), List.reverse_append, List.reverse_reverse]
    cases hb : isBreak b <;> simp [hb]

end Text

namespace Location

open Text

lemma after_eq (l : Location) (bs : List UInt8) :
    l.after bs = if bs.any isBreak then ⟨l.line + lineBreaks bs, (lastLine bs).length⟩
      else l.right bs.length := by
  induction bs generalizing l with
  | nil => rfl
  | cons b bs ih =>
    rw [after, lineBreaks_cons, lastLine_cons, List.any_cons]
    by_cases hpair : (b = ascii '\r' && bs.head? = some (ascii '\n')) = true
    · obtain ⟨-, hhead⟩ : b = ascii '\r' ∧ bs.head? = some (ascii '\n') := by simpa using hpair
      have hany : bs.any isBreak = true :=
        List.any_eq_true.2 ⟨ascii '\n', List.mem_of_mem_head? hhead, rfl⟩
      simp [hpair, ih, hany]
    · rw [if_neg hpair]
      cases hbreak : isBreak b with
      | true =>
        cases hany : bs.any isBreak with
        | true => simp [hpair, ih, hany, nextLine, Nat.add_assoc, Nat.add_comm 1]
        | false => simp [hpair, ih, hany, nextLine, right, lineBreaks_of_inline hany]
      | false =>
        cases hany : bs.any isBreak with
        | true => simp [ih, hany, right]
        | false => simp [ih, hany, right, Nat.add_comm, Nat.add_left_comm]

/-- From the start of a source its bytes lead to their number of line breaks, and to the length of their
last line. -/
theorem after_start (bs : List UInt8) :
    start.after bs = ⟨lineBreaks bs, (lastLine bs).length⟩ := by
  rw [after_eq]
  cases h : bs.any isBreak with
  | true => simp [start]
  | false => simp [start, right, lineBreaks_of_inline h, lastLine_of_inline h]

end Location

namespace Reading

open Text

lemma announcedLength_encoded {c : Char} {b : UInt8} {bs : List UInt8}
    (h : String.utf8EncodeChar c = b :: bs) : announcedLength b = (b :: bs).length := by
  rw [← h]
  unfold String.utf8EncodeChar at h ⊢
  dsimp only at h ⊢
  simp only [announcedLength, UInt8.lt_iff_toNat_lt, UInt8.reduceToNat]
  split at h
  next hsize =>
    obtain rfl := (List.cons.inj h).1
    simp only [if_pos hsize, UInt8.toNat_ofNat']
    rw [if_pos (by omega)]
    rfl
  split at h
  next hsize hsize' =>
    obtain rfl := (List.cons.inj h).1
    simp only [if_neg hsize, if_pos hsize', UInt8.toNat_ofNat']
    rw [if_neg (by omega), if_pos (by omega)]
    rfl
  split at h
  next hsize hsize' hsize'' =>
    obtain rfl := (List.cons.inj h).1
    simp only [if_neg hsize, if_neg hsize', if_pos hsize'', UInt8.toNat_ofNat']
    rw [if_neg (by omega), if_neg (by omega), if_pos (by omega)]
    rfl
  next hsize hsize' hsize'' =>
    obtain rfl := (List.cons.inj h).1
    simp only [if_neg hsize, if_neg hsize', if_neg hsize'', UInt8.toNat_ofNat']
    rw [if_neg (by omega), if_neg (by omega), if_neg (by omega), if_pos (by omega)]
    rfl

lemma encoded_inline {c : Char} {b : UInt8} {bs : List UInt8}
    (h : String.utf8EncodeChar c = b :: bs) (hb : isBreak b = false) :
    (b :: bs).any isBreak = false := by
  rcases encoded_cases c with ⟨-, hsingle⟩ | ⟨-, hhigh⟩
  · obtain rfl : [] = bs := (List.cons.inj (hsingle.symm.trans h)).2
    simpa using hb
  · rw [h] at hhigh
    rw [List.any_eq_false]
    intro d hd hbreak
    exact Bool.false_ne_true ((hhigh d hd).symm.trans (isAscii_of_isBreak hbreak))

/-- In the bytes of a text every token takes the bytes of a text. -/
theorem takes_text {s : String} {b : UInt8} {bs : List UInt8} (hs : bytes s = b :: bs) :
    ∃ t u : String, s = t ++ u ∧ (read b bs).Takes (bytes s) (bytes t) ∧
      bytes u = (read b bs).rest := by
  rcases takesWhole_or_unexpected b bs with ⟨consumed, htakes, hjoint⟩ | ⟨hb, hread⟩
  · obtain ⟨t, u, hsplit, rfl, hu⟩ := exists_texts (hs.trans htakes.split) hjoint
    exact ⟨t, u, hsplit, hs ▸ htakes, hu⟩
  · obtain ⟨cs, rfl⟩ : ∃ cs, s = String.ofList cs := ⟨s.toList, String.ofList_toList.symm⟩
    cases cs with
    | nil => cases hs
    | cons c cs =>
      obtain ⟨d, tail, hchar⟩ := List.exists_cons_of_ne_nil (String.utf8EncodeChar_ne_nil (c := c))
      rw [bytes_cons, hchar, List.cons_append] at hs
      obtain ⟨rfl, rfl⟩ := List.cons.inj hs
      have hrest : (read d (tail ++ bytes (String.ofList cs))).rest = bytes (String.ofList cs) := by
        rw [hread]
        change (d :: (tail ++ bytes (String.ofList cs))).drop (announcedLength d) = _
        rw [announcedLength_encoded hchar, ← List.cons_append, List.drop_left]
      refine ⟨String.ofList [c], String.ofList cs, ?_, takes_inline ?_ ?_, hrest.symm⟩
      · rw [← String.ofList_append]
        rfl
      · rw [hrest, bytes_cons, bytes_singleton]
      · rw [bytes_singleton, hchar]
        exact encoded_inline hchar hb

end Reading

namespace Cursor

open Text

variable {c : Cursor}

/-- One reading in a text takes a text, and the place moves on with it. -/
theorem read_text {s : String} (hs : c.rest = bytes s) :
    ∃ t u : String, s = t ++ u ∧ c.read.2.rest = bytes u ∧
      c.read.2.location = c.location.after (bytes t) ∧ SplitsNoBreak (bytes t) (bytes u) := by
  obtain ⟨location, _ | ⟨b, bs⟩⟩ := c
  · exact ⟨"", s, rfl, hs, rfl, by simp [SplitsNoBreak, bytes]⟩
  obtain ⟨t, u, hsplit, htakes, hu⟩ := Reading.takes_text hs.symm
  refine ⟨t, u, hsplit, hu.symm, ?_, hu ▸ htakes.breaks⟩
  have hend : (read ⟨location, b :: bs⟩).2.location = endOf location (b :: bs) (Reading.read b bs) := rfl
  have hfront : b :: bs = bytes t ++ (Reading.read b bs).rest := hs.trans htakes.split
  rw [hend, hfront, endOf_append]
  split
  · rfl
  next hspans => rw [Location.after_inline (htakes.inline.resolve_left hspans)]

/-- After any number of readings of a text, what has been read and what is left are two texts that do not
divide a line break, and the place counts the line breaks that have been read and the bytes behind the
last of them. -/
theorem location_afterReads (s : String) (n : Nat) :
    ∃ front back : String, s = front ++ back ∧ (afterReads { rest := bytes s } n).rest = bytes back ∧
      SplitsNoBreak (bytes front) (bytes back) ∧
      (afterReads { rest := bytes s } n).location.line = lineBreaks (bytes front) ∧
      (afterReads { rest := bytes s } n).location.column = (lastLine (bytes front)).length := by
  suffices h : ∃ front back : String, s = front ++ back ∧
      (afterReads { rest := bytes s } n).rest = bytes back ∧
      SplitsNoBreak (bytes front) (bytes back) ∧
      (afterReads { rest := bytes s } n).location = Location.start.after (bytes front) by
    obtain ⟨front, back, hsplit, hrest, hjoint, hlocation⟩ := h
    rw [Location.after_start] at hlocation
    exact ⟨front, back, hsplit, hrest, hjoint, by rw [hlocation], by rw [hlocation]⟩
  induction n with
  | zero => exact ⟨"", s, rfl, rfl, by simp [SplitsNoBreak, bytes], rfl⟩
  | succ n ih =>
    obtain ⟨front, back, rfl, hrest, hjoint, hlocation⟩ := ih
    obtain ⟨t, u, rfl, hnext, hmove, htaken⟩ := read_text hrest
    have hstep : afterReads { rest := bytes (front ++ (t ++ u)) } (n + 1) =
        (afterReads { rest := bytes (front ++ (t ++ u)) } n).read.2 :=
      Function.iterate_succ_apply' _ _ _
    rw [bytes_append] at hjoint
    refine ⟨front ++ t, u, by rw [String.append_assoc], ?_, ?_, ?_⟩
    · rw [hstep, hnext]
    · rw [bytes_append]
      exact hjoint.append htaken
    · rw [hstep, hmove, hlocation, bytes_append, Location.after_append hjoint.left]

end Cursor

end Shading
