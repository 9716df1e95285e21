import Mathlib
import Shading.Lexeme

/-!
# Joints between texts

Two texts are joined where a line break stands on one side. No token but a blank reads across such a
joint, so a token in front of it is the same whether the second text follows or not.
-/

namespace Shading

namespace Text

/-- A line break stands on one side of the joint. -/
def Apart (front back : List UInt8) : Prop :=
  front.getLast?.any isBreak = true ∨ back.head?.any isBreak = true

/-- The two sides of the joint do not make one line break. -/
def SplitsNoBreak (front back : List UInt8) : Prop :=
  front.getLast? = some (ascii '\r') → back.head? ≠ some (ascii '\n')

/-- No line break satisfies the predicate. -/
def Inline (p : UInt8 → Bool) : Prop :=
  p (ascii '\n') = false ∧ p (ascii '\r') = false

lemma isBreak_iff {b : UInt8} : isBreak b = true ↔ b = ascii '\n' ∨ b = ascii '\r' := by
  simp [isBreak]

lemma getLast?_of_suffix {α : Type} {rest front : List α} (h : rest <:+ front) (hne : rest ≠ []) :
    rest.getLast? = front.getLast? := by
  obtain ⟨consumed, rfl⟩ := h
  rw [List.getLast?_append_of_ne_nil _ hne]

section Apart

variable {front back : List UInt8} {b : UInt8} {p : UInt8 → Bool}

lemma Inline.not_isBreak (hp : Inline p) (hb : p b = true) : isBreak b = false := by
  by_contra h
  rcases isBreak_iff.1 (Bool.eq_true_of_not_eq_false h) with rfl | rfl
  · exact Bool.false_ne_true (hp.1.symm.trans hb)
  · exact Bool.false_ne_true (hp.2.symm.trans hb)

lemma Inline.eq_false (hp : Inline p) (hb : isBreak b = true) : p b = false := by
  by_contra h
  exact Bool.false_ne_true ((hp.not_isBreak (Bool.eq_true_of_not_eq_false h)).symm.trans hb)

lemma apart_nil : Apart [] back ↔ back.head?.any isBreak = true := by
  simp [Apart]

lemma Apart.suffix (h : Apart front back) {rest : List UInt8} (hrest : rest <:+ front)
    (hne : rest ≠ []) : Apart rest back := by
  rwa [Apart, getLast?_of_suffix hrest hne]

lemma Apart.tail (h : Apart (b :: front) back) (hb : isBreak b = false) : Apart front back := by
  rcases front with _ | ⟨c, front⟩
  · rcases h with hlast | hback
    · simp [hb] at hlast
    · exact .inr hback
  · exact h.suffix (List.suffix_cons b _) (by simp)

lemma SplitsNoBreak.suffix (h : SplitsNoBreak front back) {rest : List UInt8}
    (hrest : rest <:+ front) : SplitsNoBreak rest back := by
  intro hlast
  have hne : rest ≠ [] := by
    rintro rfl
    cases hlast
  rw [getLast?_of_suffix hrest hne] at hlast
  exact h hlast

lemma SplitsNoBreak.append {middle : List UInt8} (h : SplitsNoBreak front (middle ++ back))
    (h' : SplitsNoBreak middle back) : SplitsNoBreak (front ++ middle) back := by
  cases middle with
  | nil => rwa [List.append_nil]
  | cons b middle =>
    intro hlast
    rw [List.getLast?_append_of_ne_nil _ (by simp)] at hlast
    exact h' hlast

lemma SplitsNoBreak.left {middle : List UInt8} (h : SplitsNoBreak front (middle ++ back)) :
    SplitsNoBreak front middle := by
  intro hlast hhead
  have hne : middle ≠ [] := by
    rintro rfl
    cases hhead
  have hsame : (middle ++ back).head? = middle.head? := List.head?_append_of_ne_nil _ hne
  exact h hlast (hsame.trans hhead)

lemma splitsNoBreak_nil (front : List UInt8) : SplitsNoBreak front [] := by
  intro _
  simp

lemma splitsNoBreak_of_inline (h : front.any isBreak = false) : SplitsNoBreak front back := by
  intro hlast
  have hmem := List.mem_of_getLast? hlast
  have hbreak := List.any_eq_false.1 h _ hmem
  exact absurd rfl hbreak

lemma any_takeWhile (hp : Inline p) (bs : List UInt8) : (bs.takeWhile p).any isBreak = false := by
  rw [List.any_eq_false]
  intro b hb
  rw [hp.not_isBreak (List.mem_takeWhile_imp hb)]
  exact Bool.false_ne_true

/-! What stops at line breaks stops at the joint. -/

lemma head?_append_apart (h : Apart front back) (hp : Inline p) :
    (front ++ back).head?.any p = front.head?.any p := by
  rcases front with _ | ⟨c, front⟩
  · cases hback : back.head? with
    | none => simp [hback]
    | some c =>
      rw [apart_nil, hback] at h
      simp [hback, hp.eq_false h]
  · rfl

lemma head?_append_iff (h : Apart front back) {c : UInt8} (hc : isBreak c = false) :
    (front ++ back).head? = some c ↔ front.head? = some c := by
  rcases front with _ | ⟨b, front⟩
  · rw [apart_nil] at h
    cases hback : back.head? with
    | none => simp [hback]
    | some b =>
      have hne : b ≠ c := by
        rintro rfl
        simp [hback, hc] at h
      simp [hback, hne]
  · rfl

lemma takeWhile_append_apart (h : Apart front back) (hp : Inline p) :
    (front ++ back).takeWhile p = front.takeWhile p := by
  induction front with
  | nil =>
    have hhead := head?_append_apart h hp
    rw [List.nil_append] at hhead ⊢
    cases back with
    | nil => rfl
    | cons c back => rw [List.takeWhile_cons_of_neg (by simpa using hhead), List.takeWhile_nil]
  | cons b front ih =>
    rw [List.cons_append, List.takeWhile_cons, List.takeWhile_cons]
    split
    next hb => rw [ih (h.tail (hp.not_isBreak hb))]
    · rfl

lemma dropWhile_append_apart (h : Apart front back) (hp : Inline p) :
    (front ++ back).dropWhile p = front.dropWhile p ++ back := by
  have hsplit : (front ++ back).takeWhile p ++ (front ++ back).dropWhile p =
      front.takeWhile p ++ (front.dropWhile p ++ back) := by
    rw [List.takeWhile_append_dropWhile, ← List.append_assoc, List.takeWhile_append_dropWhile]
  rw [takeWhile_append_apart h hp] at hsplit
  exact List.append_cancel_left hsplit

lemma Apart.dropWhile (h : Apart front back) (hp : Inline p) :
    Apart (front.dropWhile p) back := by
  induction front with
  | nil => exact h
  | cons b front ih =>
    rw [List.dropWhile_cons]
    split
    next hb => exact ih (h.tail (hp.not_isBreak hb))
    · exact h

lemma isPrefixOf_append_apart (h : Apart front back) (q : List UInt8)
    (hq : q.any isBreak = false) : q.isPrefixOf (front ++ back) = q.isPrefixOf front := by
  induction q generalizing front with
  | nil => rfl
  | cons c q ih =>
    obtain ⟨hc, hq⟩ : isBreak c = false ∧ q.any isBreak = false := by simpa using hq
    cases front with
    | nil =>
      cases back with
      | nil => rfl
      | cons b back =>
        rw [apart_nil] at h
        have hne : c ≠ b := by
          rintro rfl
          simp [hc] at h
        simp [List.isPrefixOf, hne]
    | cons b front =>
      by_cases hcb : c = b
      · subst hcb
        simpa [List.isPrefixOf] using ih (h.tail hc) hq
      · have hne : (c == b) = false := by simpa using hcb
        simp [List.isPrefixOf, hne]

lemma Apart.drop (h : Apart front back) {q : List UInt8} (hq : q.any isBreak = false)
    (hfront : q.isPrefixOf front = true) :
    (front ++ back).drop q.length = front.drop q.length ++ back ∧
      Apart (front.drop q.length) back := by
  obtain ⟨rest, rfl⟩ := List.isPrefixOf_iff_prefix.1 hfront
  rw [List.append_assoc, List.drop_left, List.drop_left]
  refine ⟨rfl, ?_⟩
  clear hfront
  induction q with
  | nil => exact h
  | cons c q ih =>
    obtain ⟨hc, hq⟩ : isBreak c = false ∧ q.any isBreak = false := by simpa using hq
    exact ih hq (h.tail hc)

/-! A line break is the same with more text behind it, unless that completes it. -/

lemma afterBreak?_isSome_cons (b : UInt8) (bs : List UInt8) :
    (afterBreak? (b :: bs)).isSome = isBreak b := by
  rw [afterBreak?]
  split
  next h =>
    obtain ⟨rfl, -⟩ : b = ascii '\r' ∧ _ := by simpa using h
    rfl
  · cases isBreak b <;> rfl

lemma exists_afterBreak? {b : UInt8} (h : isBreak b = true) (bs : List UInt8) :
    ∃ rest, afterBreak? (b :: bs) = some rest :=
  Option.isSome_iff_exists.1 ((afterBreak?_isSome_cons b bs).trans h)

lemma afterBreak?_cons_eq_none {b : UInt8} {bs : List UInt8} :
    afterBreak? (b :: bs) = none ↔ isBreak b = false := by
  rw [← Option.isNone_iff_eq_none, ← Option.not_isSome, afterBreak?_isSome_cons, Bool.not_eq_true']

lemma afterBreak?_eq_some {rest : List UInt8} (h : afterBreak? front = some rest) :
    ∃ mark ∈ [[ascii '\n'], [ascii '\r'], [ascii '\r', ascii '\n']],
      front = mark ++ rest ∧ SplitsNoBreak mark rest := by
  cases front with
  | nil => cases h
  | cons b bs =>
    rw [afterBreak?] at h
    split at h
    next hcrlf =>
      obtain ⟨rfl, hhead⟩ : b = ascii '\r' ∧ bs.head? = some (ascii '\n') := by simpa using hcrlf
      obtain rfl := Option.some.inj h
      refine ⟨[ascii '\r', ascii '\n'], by simp, ?_, ?_⟩
      · rw [← List.cons_head?_tail hhead]
        rfl
      · intro hlast
        cases hlast
    next hcrlf =>
      split at h
      next hb =>
        obtain rfl := Option.some.inj h
        refine ⟨[b], ?_, rfl, ?_⟩
        · rcases isBreak_iff.1 hb with rfl | rfl <;> simp
        · simpa [SplitsNoBreak] using hcrlf
      · cases h

lemma afterBreak?_append {rest : List UInt8} (h : afterBreak? front = some rest)
    (hrest : rest ≠ [] ∨ SplitsNoBreak front back) :
    afterBreak? (front ++ back) = some (rest ++ back) := by
  rcases front with _ | ⟨b, _ | ⟨c, front⟩⟩
  · cases h
  · have hb : isBreak b = true := by rw [← afterBreak?_isSome_cons b [], h, Option.isSome_some]
    obtain rfl : [] = rest := by simpa [afterBreak?, hb] using h
    have hjoint : ¬(b = ascii '\r' && back.head? = some (ascii '\n')) = true := by
      simpa [SplitsNoBreak] using hrest
    rw [List.singleton_append, afterBreak?, if_neg hjoint, if_pos hb]
    rfl
  · rw [List.cons_append, afterBreak?]
    rw [afterBreak?] at h
    by_cases hcrlf : (b = ascii '\r' && (c :: front).head? = some (ascii '\n')) = true
    · rw [if_pos hcrlf] at h
      rw [if_pos (by exact hcrlf)]
      exact congrArg (fun r => some (r ++ back)) (Option.some.inj h)
    · rw [if_neg hcrlf] at h
      rw [if_neg (by exact hcrlf)]
      split at h
      next hb =>
        rw [if_pos hb, ← Option.some.inj h]
      · cases h

end Apart

end Text
end Shading
