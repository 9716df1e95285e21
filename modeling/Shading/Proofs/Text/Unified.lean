import Shading.Location
import Shading.Proofs.Text.Encoding
import Shading.Proofs.Text.Joint

/-!
# Line breaks of one kind

A text whose line breaks are all line feeds stands for the texts with other line breaks in the same
places. Whatever stops at line breaks stops at the same place in both.
-/

namespace Shading

namespace Text

/-- The bytes with a line feed in place of every line break. -/
def unify : List UInt8 → List UInt8
  | [] => []
  | b :: bs =>
    if b = ascii '\r' && bs.head? = some (ascii '\n') then unify bs
    else if isBreak b then ascii '\n' :: unify bs
    else b :: unify bs

variable {b : UInt8} {bs front back rest : List UInt8} {p : UInt8 → Bool}

lemma unify_cons (hb : isBreak b = false) (bs : List UInt8) : unify (b :: bs) = b :: unify bs := by
  have hreturn : b ≠ ascii '\r' := by
    rintro rfl
    cases hb
  simp [unify, hreturn, hb]

lemma unify_break (h : afterBreak? bs = some rest) : unify bs = ascii '\n' :: unify rest := by
  obtain ⟨mark, hmark, rfl, hsplits⟩ := afterBreak?_eq_some h
  have hdiffer : ascii '\n' ≠ ascii '\r' := by decide
  fin_cases hmark
  · simp [unify, hdiffer, isBreak]
  · have hhead : rest.head? ≠ some (ascii '\n') := hsplits rfl
    simp [unify, hhead, isBreak]
  · simp [unify, hdiffer, isBreak]

lemma unify_of_inline (h : bs.any isBreak = false) : unify bs = bs := by
  induction bs with
  | nil => rfl
  | cons b bs ih =>
    obtain ⟨hb, hbs⟩ : isBreak b = false ∧ bs.any isBreak = false := by simpa using h
    rw [unify_cons hb, ih hbs]

lemma unify_append (h : SplitsNoBreak front back) :
    unify (front ++ back) = unify front ++ unify back := by
  induction front with
  | nil => rfl
  | cons b front ih =>
    have hcrlf : (b = ascii '\r' && (front ++ back).head? = some (ascii '\n')) =
        (b = ascii '\r' && front.head? = some (ascii '\n')) := by
      cases front with
      | nil =>
        have hjoint : ¬(b = ascii '\r' ∧ back.head? = some (ascii '\n')) := by
          simpa [SplitsNoBreak] using h
        simpa using hjoint
      | cons c front => rfl
    rw [List.cons_append, unify, unify, hcrlf, ih (h.suffix (List.suffix_cons b front))]
    split
    · rfl
    · split <;> rfl

lemma unify_eq_nil : unify bs = [] ↔ bs = [] := by
  cases bs with
  | nil => simp [unify]
  | cons b bs =>
    cases hb : isBreak b with
    | false => simp [unify_cons hb]
    | true =>
      obtain ⟨rest, hrest⟩ := exists_afterBreak? hb bs
      simp [unify_break hrest]

lemma afterBreak?_eq_none : afterBreak? bs = none ↔ bs.head?.any isBreak = false := by
  cases bs with
  | nil => simp [afterBreak?]
  | cons b bs => rw [afterBreak?_cons_eq_none, List.head?_cons, Option.any_some]

lemma afterBreak?_unify (bs : List UInt8) : afterBreak? (unify bs) = (afterBreak? bs).map unify := by
  cases h : afterBreak? bs with
  | some rest =>
    rw [unify_break h]
    rfl
  | none =>
    rw [Option.map_none, afterBreak?_eq_none]
    rw [afterBreak?_eq_none] at h
    cases bs with
    | nil => rfl
    | cons b bs =>
      rw [unify_cons (by simpa using h)]
      exact h

lemma after_unify (l : Location) (bs : List UInt8) : l.after (unify bs) = l.after bs := by
  have hdiffer : ascii '\n' ≠ ascii '\r' := by decide
  induction bs generalizing l with
  | nil => rfl
  | cons b bs ih =>
    rw [unify, Location.after]
    split
    · exact ih l
    next hpair =>
      split
      · rw [Location.after, if_neg (by simp [hdiffer]), if_pos (by rfl), ih]
      next hb =>
        have hreturn : b ≠ ascii '\r' := by
          rintro rfl
          exact hb rfl
        rw [Location.after, if_neg (by simp [hreturn]), if_neg hb, ih]

lemma exists_line (bs : List UInt8) :
    bs.any isBreak = false ∨ ∃ front back, bs = front ++ back ∧ front.any isBreak = false ∧
      back.head?.any isBreak = true ∧ unify bs = front ++ unify back ∧
      (unify back).head?.any isBreak = true := by
  induction bs with
  | nil => exact .inl rfl
  | cons b bs ih =>
    cases hb : isBreak b with
    | true =>
      obtain ⟨rest, hrest⟩ := exists_afterBreak? hb bs
      refine .inr ⟨[], b :: bs, rfl, rfl, hb, rfl, ?_⟩
      rw [unify_break hrest]
      rfl
    | false =>
      rcases ih with hall | ⟨front, back, rfl, hfront, hback, hunify, hback'⟩
      · exact .inl (by rw [List.any_cons, hb, hall]; rfl)
      · refine .inr ⟨b :: front, back, rfl, ?_, hback, ?_, hback'⟩
        · rw [List.any_cons, hb, hfront]
          rfl
        · rw [List.cons_append, unify_cons hb, hunify, ← List.cons_append]

lemma head?_unify {c : UInt8} (hc : isBreak c = false) (bs : List UInt8) :
    (unify bs).head? = some c ↔ bs.head? = some c := by
  rcases exists_line bs with hall | ⟨front, back, rfl, -, hback, hunify, hback'⟩
  · rw [unify_of_inline hall]
  · rw [hunify, head?_append_iff (.inr hback) hc, head?_append_iff (.inr hback') hc]

lemma tail_unify {c : UInt8} (h : bs.head? = some c) (hc : isBreak c = false) :
    (unify bs).tail = unify bs.tail := by
  rw [← List.cons_head?_tail h, unify_cons hc, List.tail_cons, List.tail_cons]

lemma any_head?_unify (hp : Inline p) (bs : List UInt8) :
    (unify bs).head?.any p = bs.head?.any p := by
  rcases exists_line bs with hall | ⟨front, back, rfl, -, hback, hunify, hback'⟩
  · rw [unify_of_inline hall]
  · rw [hunify, head?_append_apart (.inr hback) hp, head?_append_apart (.inr hback') hp]

lemma takeWhile_unify (hp : Inline p) (bs : List UInt8) :
    (unify bs).takeWhile p = bs.takeWhile p := by
  rcases exists_line bs with hall | ⟨front, back, rfl, -, hback, hunify, hback'⟩
  · rw [unify_of_inline hall]
  · rw [hunify, takeWhile_append_apart (.inr hback) hp, takeWhile_append_apart (.inr hback') hp]

lemma any_of_suffix (h : rest <:+ bs) (hbs : bs.any isBreak = false) : rest.any isBreak = false := by
  rw [List.any_eq_false] at hbs ⊢
  exact fun b hb => hbs b (h.subset hb)

lemma dropWhile_unify (hp : Inline p) (bs : List UInt8) :
    (unify bs).dropWhile p = unify (bs.dropWhile p) := by
  rcases exists_line bs with hall | ⟨front, back, rfl, hfront, hback, hunify, hback'⟩
  · rw [unify_of_inline hall, unify_of_inline (any_of_suffix (List.dropWhile_suffix p) hall)]
  · have hdrop := any_of_suffix (List.dropWhile_suffix p) hfront
    rw [hunify, dropWhile_append_apart (.inr hback) hp, dropWhile_append_apart (.inr hback') hp,
      unify_append (splitsNoBreak_of_inline hdrop), unify_of_inline hdrop]

/-- The text with `ending` in place of every line feed. -/
def withEnding (ending s : String) : String :=
  String.ofList (s.toList.flatMap fun c => if c = '\n' then ending.toList else [c])

lemma bytes_withEnding (ending s : String) :
    bytes (withEnding ending s) =
      (bytes s).flatMap fun b => if b = ascii '\n' then bytes ending else [b] := by
  have hchar (c : Char) : (if c = '\n' then ending.toList else [c]).flatMap String.utf8EncodeChar =
      (String.utf8EncodeChar c).flatMap fun b => if b = ascii '\n' then bytes ending else [b] := by
    split
    next hc =>
      rw [hc, ← bytes_ofList, String.ofList_toList]
      exact (List.append_nil _).symm
    next hc =>
      have hother : ascii '\n' ∉ String.utf8EncodeChar c := by
        rw [← bytes_singleton, ascii_mem_bytes (by decide), String.toList_ofList, List.mem_singleton]
        exact Ne.symm hc
      have hsame : ∀ b ∈ String.utf8EncodeChar c,
          (if b = ascii '\n' then bytes ending else [b]) = [b] := by
        intro b hb
        rw [if_neg]
        rintro rfl
        exact hother hb
      rw [List.flatMap_singleton, List.flatMap_congr hsame, List.flatMap_singleton']
  rw [withEnding, bytes_ofList, List.flatMap_assoc, List.flatMap_congr fun c _ => hchar c,
    ← List.flatMap_assoc, ← bytes_ofList, String.ofList_toList]

lemma unify_flatMap {mark : List UInt8}
    (hmark : mark ∈ [[ascii '\n'], [ascii '\r'], [ascii '\r', ascii '\n']])
    (h : ascii '\r' ∉ bs) :
    unify (bs.flatMap fun b => if b = ascii '\n' then mark else [b]) = bs := by
  induction bs with
  | nil => rfl
  | cons b bs ih =>
    rw [List.mem_cons, not_or] at h
    specialize ih h.2
    rw [List.flatMap_cons]
    split
    next hb =>
      have hjoint : SplitsNoBreak mark
          (bs.flatMap fun b => if b = ascii '\n' then mark else [b]) := by
        intro hlast hhead
        obtain ⟨c, -, hc⟩ := List.mem_flatMap.1 (List.mem_of_mem_head? hhead)
        fin_cases hmark
        · cases hlast
        · split at hc
          · simp at hc
            revert hc
            decide
          next hne => exact hne (List.mem_singleton.1 hc).symm
        · cases hlast
      have hfeed : unify mark = [ascii '\n'] := by
        fin_cases hmark <;> rfl
      rw [unify_append hjoint, ih, hfeed, hb]
      rfl
    next hb =>
      have hinline : isBreak b = false := by
        rw [isBreak, Bool.or_eq_false_iff]
        exact ⟨by simpa using hb, by simpa using Ne.symm h.1⟩
      rw [List.singleton_append, unify_cons hinline, ih]

lemma unify_withEnding {ending s : String} (hending : ending ∈ ["\n", "\r", "\r\n"])
    (hs : '\r' ∉ s.toList) : unify (bytes (withEnding ending s)) = bytes s := by
  rw [bytes_withEnding]
  apply unify_flatMap
  · fin_cases hending <;> decide
  · rwa [ascii_mem_bytes (by decide)]

end Text

end Shading
