import Shading.Proofs.Lexeme.Kinds
import Shading.Proofs.Lexeme.Tiling

/-!
# Tokens and their faults

A token is invalid exactly if it has an error. So in a source without errors all text stands in tokens that
are kept, in blanks or in comments.
-/

namespace Shading

namespace Reading

open Text

variable {b : UInt8} {bs : List UInt8}

/-! ### Blanks and comments -/

/-- Blanks within a line, and line breaks behind a backslash. -/
inductive IsWhitespace : List UInt8 → Prop
  | nil : IsWhitespace []
  | blank {b : UInt8} (hb : isBlank b = true) {bs : List UInt8} (h : IsWhitespace bs) : IsWhitespace (b :: bs)
  | escaped {mark : List UInt8} (hmark : mark ∈ [[ascii '\n'], [ascii '\r'], [ascii '\r', ascii '\n']])
      {bs : List UInt8} (h : IsWhitespace bs) : IsWhitespace (ascii '\\' :: (mark ++ bs))

/-- A comment up to the end of a line, or one up to the first end that its body has. -/
inductive IsComment : List UInt8 → Prop
  | line {body : List UInt8} (h : body.any isBreak = false) :
      IsComment (ascii '/' :: ascii '/' :: body)
  | block {body : List UInt8} (h : ¬[ascii '*', ascii '/'] <:+: body ++ [ascii '*']) :
      IsComment (ascii '/' :: ascii '*' :: (body ++ [ascii '*', ascii '/']))

lemma isWhitespace_skipBlanks (bs : List UInt8) :
    ∃ consumed, bs = consumed ++ skipBlanks bs ∧ IsWhitespace consumed := by
  fun_induction skipBlanks bs with
  | case1 => exact ⟨[], rfl, .nil⟩
  | case2 b bs hblank ih =>
    obtain ⟨consumed, hbs, hconsumed⟩ := ih
    exact ⟨b :: consumed, congrArg (b :: ·) hbs, .blank hblank hconsumed⟩
  | case3 bs rest hbreak hblank ih =>
    obtain ⟨consumed, hrest, hconsumed⟩ := ih
    obtain ⟨mark, hmark, hbs, -⟩ := afterBreak?_eq_some hbreak
    refine ⟨ascii '\\' :: (mark ++ consumed), ?_, .escaped hmark hconsumed⟩
    rw [List.cons_append, List.append_assoc, ← hrest, hbs]
  | case4 => exact ⟨[], rfl, .nil⟩
  | case5 => exact ⟨[], rfl, .nil⟩

lemma body_afterComment? {rest : List UInt8} (h : afterComment? bs = some rest) :
    ∃ body, bs = body ++ ascii '*' :: ascii '/' :: rest ∧
      ¬[ascii '*', ascii '/'] <:+: body ++ [ascii '*'] := by
  induction bs with
  | nil => cases h
  | cons b bs ih =>
    rw [afterComment?] at h
    split at h
    next hend =>
      obtain ⟨rfl, hhead⟩ : b = ascii '*' ∧ bs.head? = some (ascii '/') := by simpa using hend
      obtain rfl := Option.some.inj h
      refine ⟨[], by rw [List.nil_append, List.cons_head?_tail hhead], ?_⟩
      decide
    next hgoes =>
      obtain ⟨body, rfl, hbody⟩ := ih h
      refine ⟨b :: body, rfl, ?_⟩
      intro hinfix
      rcases List.infix_cons_iff.1 hinfix with hfront | hlater
      · obtain ⟨hb, hfront⟩ := List.cons_prefix_cons.1 hfront
        refine hgoes ?_
        cases body with
        | nil => exact absurd hfront (by decide)
        | cons c body =>
          obtain ⟨hc, -⟩ := List.cons_prefix_cons.1 hfront
          simp [← hb, ← hc]
      · exact hbody hlater

lemma IsReading.skipped {r : Reading} (h : IsReading b bs r) (hskipped : r.token.isSkipped = true)
    (hvalid : r.token ≠ .invalid) : ∃ consumed, b :: bs = consumed ++ r.rest ∧
      (r.token = .blank ∧ IsWhitespace consumed ∨ r.token = .comment ∧ IsComment consumed) := by
  cases h with
  | blank h =>
    obtain ⟨consumed, hconsumed, hwhitespace⟩ := isWhitespace_skipBlanks (b :: bs)
    exact ⟨consumed, hconsumed, .inl ⟨rfl, hwhitespace⟩⟩
  | lineComment hb hbs =>
    obtain ⟨tail, rfl⟩ := List.head?_eq_some_iff.1 hbs
    have hrest : (ascii '/' :: tail).dropWhile (!isBreak ·) = tail.dropWhile (!isBreak ·) :=
      List.dropWhile_cons_of_pos (by rfl)
    refine ⟨ascii '/' :: ascii '/' :: tail.takeWhile (!isBreak ·), ?_, .inr ⟨rfl, .line ?_⟩⟩
    · rw [hb, hrest, List.cons_append, List.cons_append, List.takeWhile_append_dropWhile]
    · exact any_takeWhile ⟨rfl, rfl⟩ tail
  | blockComment hb hbs h =>
    obtain ⟨tail, rfl⟩ := List.head?_eq_some_iff.1 hbs
    obtain ⟨body, hbody, hfirst⟩ := body_afterComment? h
    refine ⟨_, ?_, .inr ⟨rfl, .block hfirst⟩⟩
    rw [hb, show tail = _ from hbody]
    simp
  | @numeral n rest h =>
    have htype := n.constantType?_token
    cases htoken : n.token.1 <;> simp_all [Token.isSkipped, Token.constantType?]
  | newline h => cases hskipped
  | string content rest => cases hskipped
  | identifier name rest => cases hskipped
  | punct p rest => cases hskipped
  | malformed h => exact absurd rfl hvalid
  | unterminatedComment h => exact absurd rfl hvalid
  | unterminatedString rest => exact absurd rfl hvalid
  | unexpected hb => exact absurd rfl hvalid

end Reading

/-! ### Sources -/

/-- The lexeme accounts for the piece: it is kept, or else the piece is whitespace or a comment. -/
def Lexeme.StandsFor (x : Lexeme) (piece : List UInt8) : Prop :=
  piece ≠ [] ∧ (x.token.isSkipped = true →
    x.token = .blank ∧ Reading.IsWhitespace piece ∨ x.token = .comment ∧ Reading.IsComment piece)

namespace Cursor

variable {c : Cursor}

/-- The pieces of a source that its lexemes take. -/
def pieces (c : Cursor) : List (List UInt8) :=
  if _h : c.rest = [] then []
  else c.taken :: c.read.2.pieces
termination_by c.rest.length
decreasing_by exact read_rest_length_lt _h

lemma faultFits_read (c : Cursor) :
    (c.read.1.token = .invalid ∧ ∃ cause, c.read.1.fault = some (.error cause)) ∨
      (c.read.1.token ≠ .invalid ∧ (c.read.1.fault = none ∨
        ∃ type, c.read.1.token.constantType? = some type ∧ c.read.1.fault = some (.overflow type))) := by
  obtain ⟨location, _ | ⟨b, bs⟩⟩ := c
  · exact .inr ⟨by simp [read], .inl rfl⟩
  · exact (Reading.isReading_read b bs).faultFits

lemma taken_eq {consumed : List UInt8} (h : c.rest = consumed ++ c.read.2.rest) : c.taken = consumed :=
  List.append_cancel_right (c.rest_eq_taken.symm.trans h)

lemma taken_skipped (hskipped : c.read.1.token.isSkipped = true) (hvalid : c.read.1.token ≠ .invalid) :
    c.read.1.token = .blank ∧ Reading.IsWhitespace c.taken ∨
      c.read.1.token = .comment ∧ Reading.IsComment c.taken := by
  obtain ⟨location, _ | ⟨b, bs⟩⟩ := c
  · cases hskipped
  · obtain ⟨consumed, hconsumed, hkind⟩ :=
      (Reading.isReading_read b bs).skipped hskipped hvalid
    have htaken : taken ⟨location, b :: bs⟩ = consumed := taken_eq hconsumed
    rw [htaken]
    exact hkind

lemma flatten_pieces (c : Cursor) : c.pieces.flatten = c.rest := by
  fun_induction pieces c with
  | case1 c h => exact h.symm
  | case2 c h ih => rw [List.flatten_cons, ih, ← rest_eq_taken]

lemma exists_read {x : Lexeme} (hx : x ∈ (Lexemes.ofCursor c).list) :
    ∃ c' : Cursor, c'.rest ≠ [] ∧ c'.read.1 = x := by
  fun_induction Lexemes.ofCursor c with
  | case1 c h => cases hx
  | case2 c h reading following ih =>
    rcases List.mem_cons.1 hx with rfl | hx
    · exact ⟨c, h, rfl⟩
    · exact ih hx

/-- If no token is invalid, the lexemes stand for the pieces of the source. -/
theorem pieces_of_valid (hvalid : ∀ x ∈ (Lexemes.ofCursor c).list, x.token ≠ .invalid) :
    List.Forall₂ Lexeme.StandsFor (Lexemes.ofCursor c).list c.pieces := by
  fun_induction pieces c with
  | case1 c h =>
    rw [Lexemes.ofCursor_nil h]
    exact .nil
  | case2 c h ih =>
    rw [Lexemes.ofCursor_read h] at hvalid ⊢
    obtain ⟨hfirst, hfollowing⟩ := List.forall_mem_cons.1 hvalid
    exact .cons ⟨taken_ne_nil h, fun hskipped => taken_skipped hskipped hfirst⟩ (ih hfollowing)

lemma diagnostic_read (source : String) (c : Cursor) :
    (c.read.1.token = .invalid ∧ ∃ cause, c.read.1.diagnostic? source =
      some ⟨source, c.location, .invalid, .error (.lexical cause)⟩) ∨
    (c.read.1.token ≠ .invalid ∧ (c.read.1.diagnostic? source = none ∨
      ∃ type, c.read.1.token.constantType? = some type ∧ c.read.1.diagnostic? source =
        some ⟨source, c.location, c.read.1.token, .warning (.constantOverflow type)⟩)) := by
  have hlocation := c.read_location
  rcases c.faultFits_read with ⟨htoken, cause, hfault⟩ | ⟨htoken, hfault | ⟨type, htype, hfault⟩⟩
  · exact .inl ⟨htoken, cause, by simp [Lexeme.diagnostic?, hfault, hlocation, htoken]⟩
  · exact .inr ⟨htoken, .inl (by simp [Lexeme.diagnostic?, hfault])⟩
  · exact .inr ⟨htoken, .inr ⟨type, htype, by simp [Lexeme.diagnostic?, hfault, hlocation]⟩⟩

/-- A reading yields an invalid token exactly if it reports an error, which is then its only diagnostic
and tells the token, the source and the place before the reading. Any other reading reports nothing, or of
a numeric constant that it is too large for its type. So the tokens that are kept of a source without
errors account for all of it but whitespace and comments. -/
theorem invalid_iff_error (source : String) (content : List UInt8) :
    (∀ c : Cursor, let report? := c.read.1.diagnostic? source
      (c.read.1.token = .invalid ↔ ∃ d, report? = some d ∧ d.isFatal = true) ∧
      (c.read.1.token = .invalid →
        ∃ cause, report? = some ⟨source, c.location, .invalid, .error (.lexical cause)⟩) ∧
      (c.read.1.token ≠ .invalid → report? = none ∨
        ∃ type, c.read.1.token.constantType? = some type ∧
          report? = some ⟨source, c.location, c.read.1.token, .warning (.constantOverflow type)⟩)) ∧
    ((∀ d ∈ (Lexemes.ofBytes content).list.filterMap (·.diagnostic? source), d.isFatal = false) →
      (pieces { rest := content }).flatten = content ∧
      List.Forall₂ Lexeme.StandsFor (Lexemes.ofBytes content).list (pieces { rest := content })) := by
  constructor
  · intro c report?
    rcases diagnostic_read source c with ⟨htoken, cause, hreport⟩ | ⟨htoken, hreport⟩
    · exact ⟨⟨fun _ => ⟨_, hreport, rfl⟩, fun _ => htoken⟩, fun _ => ⟨cause, hreport⟩,
        fun hvalid => absurd htoken hvalid⟩
    · refine ⟨⟨fun hinvalid => absurd hinvalid htoken, ?_⟩, fun hinvalid => absurd hinvalid htoken,
        fun _ => hreport⟩
      rintro ⟨d, hd, hfatal⟩
      rcases hreport with hnone | ⟨type, -, hsome⟩
      · cases hnone.symm.trans hd
      · obtain rfl := Option.some.inj (hsome.symm.trans hd)
        cases hfatal
  · intro hclean
    refine ⟨flatten_pieces _, pieces_of_valid ?_⟩
    intro x hx hinvalid
    obtain ⟨c, -, rfl⟩ := exists_read hx
    rcases diagnostic_read source c with ⟨-, cause, hreport⟩ | ⟨hvalid, -⟩
    · cases hclean _ (List.mem_filterMap.2 ⟨_, hx, hreport⟩)
    · exact hvalid hinvalid

/-- A constant that is too large, behind a comment and a line break that is escaped, and a byte that begins
no token. -/
theorem invalid_iff_error_overflow :
    let content := Text.bytes "a/**/\\\n4294967296"
    (Lexemes.ofBytes content).list.filterMap (·.diagnostic? "s") =
        [⟨"s", ⟨1, 0⟩, .int 0, .warning (.constantOverflow .int)⟩] ∧
      (∀ d ∈ (Lexemes.ofBytes content).list.filterMap (·.diagnostic? "s"), d.isFatal = false) ∧
      pieces { rest := content } = ["a", "/**/", "\\\n", "4294967296"].map Text.bytes ∧
      List.Forall₂ Lexeme.StandsFor (Lexemes.ofBytes content).list (pieces { rest := content }) ∧
      (read ⟨⟨0, 3⟩, [ascii '$']⟩).1.token = .invalid ∧
      ∃ cause, (read ⟨⟨0, 3⟩, [ascii '$']⟩).1.diagnostic? "s" =
        some ⟨"s", ⟨0, 3⟩, .invalid, .error (.lexical cause)⟩ := by
  intro content
  have hclean : ∀ d ∈ (Lexemes.ofBytes content).list.filterMap (·.diagnostic? "s"), d.isFatal = false := by
    decide +kernel
  have hinvalid : (read ⟨⟨0, 3⟩, [ascii '$']⟩).1.token = .invalid := by decide +kernel
  obtain ⟨hreads, hpieces⟩ := invalid_iff_error "s" content
  exact ⟨by decide +kernel, hclean, by decide +kernel, (hpieces hclean).2, hinvalid,
    (hreads _).2.1 hinvalid⟩

end Cursor

end Shading
