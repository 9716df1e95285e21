import Shading.Preprocessor.Cases
import Shading.Proofs.Preprocessor.Line

/-!
# Depth of groups

The number of groups that are open behind a line follows from their number before it and from the
keyword on the line. Where it is always known the groups of a text are nested and none of its lines
includes another text.
-/

namespace Shading

/-- The number of open groups behind a directive with this keyword, if the directive belongs to the
open groups and does not include another text. -/
def Keyword.depthBehind? (depth : Nat) : Keyword → Option Nat
  | ifDefined | ifNotDefined | ifHolds => some (depth + 1)
  | elseIf | otherwise => if depth = 0 then none else some depth
  | endIf => if depth = 0 then none else some (depth - 1)
  | includeFile => none
  | _ => some depth

/-- The number of open groups behind a line. -/
def Line.depthBehind? (depth : Nat) (l : Line) : Option Nat :=
  match l.keyword? with
  | some keyword => keyword.depthBehind? depth
  | none => some depth

/-- The groups that are open before the lines and all groups within them end there, and no line includes
another text. -/
def Line.Closes (depth : Nat) (ls : List Line) : Prop :=
  ls.foldlM depthBehind? depth = some 0

namespace Line

/-- The line that the lexemes begin with. -/
def first (xs : List Lexeme) : Line :=
  { content := xs.takeWhile (·.token != .newline)
    stop := (xs.dropWhile (·.token != .newline)).head? }

lemma first_cons {x : Lexeme} (hx : x.token ≠ .newline) (xs : List Lexeme) :
    first (x :: xs) = { first xs with content := x :: (first xs).content } := by
  simp [first, hx]

lemma words_first_skipped {x : Lexeme} (hx : x.token.isSkipped = true) (xs : List Lexeme) :
    (first (x :: xs)).words = (first xs).words := by
  have hnewline : x.token ≠ .newline := by
    intro h
    rw [h] at hx
    cases hx
  rw [first_cons hnewline]
  simp [words, hx]

lemma words_first_word {x : Lexeme} (hnewline : x.token ≠ .newline) (hskipped : x.token.isSkipped = false)
    (xs : List Lexeme) : (first (x :: xs)).words = x.located :: (first xs).words := by
  rw [first_cons hnewline, words, List.filter_cons_of_pos (by simpa using hskipped)]
  rfl

lemma words_first_hash {x : Lexeme} (hx : x.token = .punct .hash) (xs : List Lexeme) :
    (first (x :: xs)).words = ⟨x.location, .punct .hash⟩ :: (first xs).words := by
  rw [words_first_word (by simp [hx]) (by simp [hx, Token.isSkipped]), ← hx]
  rfl

lemma mem_words_first {xs : List Lexeme} {t : LocatedToken} (h : t ∈ (first xs).words) :
    ∃ x ∈ xs, x.located = t ∧ x.token.isSkipped = false ∧ x.token ≠ .newline := by
  obtain ⟨x, hx, rfl⟩ := List.mem_map.1 h
  obtain ⟨htake, hskipped⟩ := List.mem_filter.1 hx
  have hnewline := List.mem_takeWhile_imp htake
  exact ⟨x, (List.takeWhile_prefix _).subset htake, rfl, by simpa using hskipped, by simpa using hnewline⟩

lemma exists_of_words_first {xs : List Lexeme} {t : LocatedToken} {ts : List LocatedToken}
    (h : (first xs).words = t :: ts) : ∃ x ys, x :: ys <:+ xs ∧ x.located = t ∧ (first ys).words = ts := by
  induction xs with
  | nil => cases h
  | cons x xs ih =>
    by_cases hnewline : x.token = .newline
    · have hempty : (first (x :: xs)).words = [] := by simp [first, words, hnewline]
      rw [hempty] at h
      cases h
    by_cases hskipped : x.token.isSkipped = true
    · rw [words_first_skipped hskipped] at h
      obtain ⟨y, ys, hsuffix, hy⟩ := ih h
      exact ⟨y, ys, hsuffix.trans (List.suffix_cons x xs), hy⟩
    · rw [words_first_word hnewline (Bool.eq_false_of_not_eq_true hskipped)] at h
      obtain ⟨ht, hts⟩ := List.cons.inj h
      exact ⟨x, xs, List.suffix_refl _, ht, hts⟩

lemma split_eq {xs : List Lexeme} (hxs : xs ≠ []) :
    split xs = first xs :: split ((xs.dropWhile (·.token != .newline)).drop 1) := by
  induction xs with
  | nil => exact absurd rfl hxs
  | cons x xs ih =>
    rw [split]
    by_cases hx : x.token = .newline
    · simp [hx, first]
    · rw [if_neg hx, first_cons hx, List.dropWhile_cons, if_pos (by simpa using hx)]
      cases xs with
      | nil => rfl
      | cons y ys => rw [ih (by simp)]

lemma tail_split (xs : List Lexeme) :
    (split xs).tail = split ((xs.dropWhile (·.token != .newline)).drop 1) := by
  cases xs with
  | nil => rfl
  | cons x xs => rw [split_eq (by simp), List.tail_cons]

/-- The lines that are still to begin. -/
def upcoming (atLineStart : Bool) (xs : List Lexeme) : List Line :=
  if atLineStart then split xs else (split xs).tail

lemma closes_cons {depth : Nat} {l : Line} {ls : List Line} :
    Closes depth (l :: ls) ↔ ∃ n, l.depthBehind? depth = some n ∧ Closes n ls := by
  unfold Closes
  rw [List.foldlM_cons]
  cases l.depthBehind? depth <;> simp

lemma directive?_of_words {l : Line} (h : ∀ t ∈ l.words.head?, t.token ≠ .punct .hash) :
    l.directive? = none := by
  unfold directive?
  split
  next hash args hwords => exact absurd rfl (h _ (by rw [hwords]; rfl))
  · rfl

/-- Lexemes that begin no directive leave the directives that are still to begin as they are. -/
theorem upcoming_passed {atLineStart : Bool} {x : Lexeme} {xs : List Lexeme}
    (hhash : ¬(x.token = .punct .hash && atLineStart) = true) :
    (upcoming atLineStart (x :: xs)).filterMap directive? =
      (upcoming (x.startsLineBehind atLineStart) xs).filterMap directive? := by
  by_cases hnewline : x.token = .newline
  · have hsplit : split (x :: xs) = { content := [], stop := some x } :: split xs := by
      rw [split, if_pos hnewline]
    have hbehind : x.startsLineBehind atLineStart = true := by
      simp [Lexeme.startsLineBehind, hnewline, Token.isSkipped]
    rw [hbehind, upcoming, hsplit]
    cases atLineStart with
    | false => rfl
    | true => exact List.filterMap_cons_none (directive?_of_words (by simp [words]))
  · have hdrop : ((x :: xs).dropWhile (·.token != .newline)).drop 1 =
        (xs.dropWhile (·.token != .newline)).drop 1 := by
      rw [List.dropWhile_cons, if_pos (by simpa using hnewline)]
    have hsplit := split_eq (List.cons_ne_nil x xs)
    rw [hdrop, ← tail_split] at hsplit
    unfold upcoming
    by_cases hskipped : x.token.isSkipped = true
    · have hbehind : x.startsLineBehind atLineStart = atLineStart := if_pos hskipped
      rw [hbehind, hsplit]
      cases atLineStart with
      | false => rfl
      | true =>
        have hwords := words_first_skipped hskipped xs
        have hdirective : (first (x :: xs)).directive? = (first xs).directive? := by
          unfold directive?
          rw [hwords]
        cases xs with
        | nil =>
          exact List.filterMap_cons_none (hdirective.trans (directive?_of_words (by simp [words, first])))
        | cons y ys =>
          rw [if_pos rfl, if_pos rfl, split_eq (List.cons_ne_nil y ys), List.tail_cons, List.filterMap_cons,
            List.filterMap_cons, hdirective]
    · have hbehind : x.startsLineBehind atLineStart = false := by
        simp [Lexeme.startsLineBehind, hskipped, hnewline]
      rw [hbehind, hsplit]
      cases atLineStart with
      | false => rfl
      | true =>
        have hword : x.token ≠ .punct .hash := by simpa using hhash
        refine List.filterMap_cons_none (directive?_of_words ?_)
        rw [words_first_word hnewline (Bool.eq_false_of_not_eq_true hskipped)]
        simpa [Lexeme.located] using hword

/-- The number of open groups behind what stands behind a hash. -/
def depthBehindHash? (depth : Nat) : Except Rejection Directive → Option Nat
  | .ok d => (Keyword.ofName d.name).depthBehind? depth
  | .error _ => some depth

/-- Whether lines close their groups is a matter of the directives among them. -/
theorem closes_iff {depth : Nat} {ls : List Line} :
    Closes depth ls ↔ (ls.filterMap directive?).foldlM depthBehindHash? depth = some 0 := by
  induction ls generalizing depth with
  | nil => rfl
  | cons l ls ih =>
    rw [closes_cons, depthBehind?, keyword?]
    rcases hl : l.directive? with _ | _ | d
    · simp [List.filterMap_cons_none hl, ih]
    · simp [List.filterMap_cons_some hl, depthBehindHash?, ih]
    · rw [List.filterMap_cons_some hl, List.foldlM_cons, depthBehindHash?]
      simp only [Option.bind_eq_bind, Option.bind_eq_some_iff, ih]

lemma closes_passed {depth : Nat} {atLineStart : Bool} {x : Lexeme} {xs : List Lexeme}
    (hhash : ¬(x.token = .punct .hash && atLineStart) = true)
    (h : Closes depth (upcoming atLineStart (x :: xs))) :
    Closes depth (upcoming (x.startsLineBehind atLineStart) xs) := by
  rwa [closes_iff, ← upcoming_passed hhash, ← closes_iff]

end Line

end Shading
