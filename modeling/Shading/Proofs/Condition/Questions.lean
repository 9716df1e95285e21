import Shading.Preprocessor.Directive
import Shading.Proofs.Condition.Refusals

/-!
# Questions for macros

The tokens of a condition can be divided into questions for macros and other words in at most one way. The
questions are answered exactly if there is such a way. Where no name stands outside the questions, nothing is
expanded, so a condition depends on the names of the macros and not on what they stand for.
-/

namespace Shading

namespace Condition

/-- A question for a macro, whose name may stand in parentheses, or another token of a condition. -/
inductive Piece
  | question (name : String) (parenthesized : Bool)
  | word (t : Token)
  deriving DecidableEq, Repr

namespace Piece

def tokens : Piece → List Token
  | question name false => [.identifier "defined", .identifier name]
  | question name true =>
    [.identifier "defined", .punct .leftParen, .identifier name, .punct .rightParen]
  | word t => [t]

/-- The operator stands only in questions, or where it is itself the name that is asked for. -/
def IsWellFormed : Piece → Prop
  | question _ _ => True
  | word t => t ≠ .identifier "defined"

/-- The token in place of the piece: the answer to a question, or the word itself. -/
def resolved (isDefined : String → Bool) : Piece → Token
  | question name _ => answer (isDefined name)
  | word t => t

end Piece

/-- The pieces, one after the other, are the tokens. -/
structure Divides (pieces : List Piece) (ts : List Token) : Prop where
  wellFormed : ∀ piece ∈ pieces, piece.IsWellFormed
  covers : pieces.flatMap Piece.tokens = ts

/-- No name stands outside the questions, if the tokens can be divided at all. -/
def OnlyAsks (ts : List Token) : Prop :=
  ∀ pieces, Divides pieces ts → ∀ t, .word t ∈ pieces → t.name? = none

section Resolving

variable {isDefined : String → Bool} {pieces pieces' : List Piece} {piece piece' : Piece} {ts rest out : List Token}

lemma Divides.cons (piece : Piece) (hpiece : piece.IsWellFormed) (h : Divides pieces rest) :
    Divides (piece :: pieces) (piece.tokens ++ rest) where
  wellFormed := List.forall_mem_cons.2 ⟨hpiece, h.wellFormed⟩
  covers := by rw [List.flatMap_cons, h.covers]

lemma resolveDefined_piece (hpiece : piece.IsWellFormed) (rest : List Token) :
    resolveDefined isDefined (piece.tokens ++ rest) =
      (resolveDefined isDefined rest).map (piece.resolved isDefined :: ·) := by
  cases piece with
  | question name parenthesized =>
    cases parenthesized <;> simp [Piece.tokens, Piece.resolved, resolveDefined]
  | word t =>
    have ht : t ≠ .identifier "defined" := hpiece
    rw [Piece.tokens, List.singleton_append, resolveDefined.eq_def]
    dsimp only
    rw [if_neg ht]
    rfl

/-- Where the tokens are divided, every question is answered and every word is kept. -/
theorem Divides.resolveDefined (h : Divides pieces ts) :
    resolveDefined isDefined ts = .ok (pieces.map (Piece.resolved isDefined)) := by
  obtain ⟨hwellFormed, rfl⟩ := h
  induction pieces with
  | nil => rw [List.flatMap_nil, Condition.resolveDefined]; rfl
  | cons piece pieces ih =>
    obtain ⟨hpiece, hpieces⟩ := List.forall_mem_cons.1 hwellFormed
    rw [List.flatMap_cons, resolveDefined_piece hpiece, ih hpieces]
    rfl

lemma ok_of_map {outcome : Except ConditionError (List Token)} {t : Token}
    (h : outcome.map (t :: ·) = .ok out) : ∃ rest, outcome = .ok rest := by
  cases outcome with
  | error e => cases h
  | ok rest => exact ⟨rest, rfl⟩

lemma exists_divides (h : Condition.resolveDefined isDefined ts = .ok out) : ∃ pieces, Divides pieces ts := by
  fun_induction Condition.resolveDefined isDefined ts generalizing out with
  | case1 => exact ⟨[], by simp, rfl⟩
  | case2 name rest ih =>
    obtain ⟨out, hout⟩ := ok_of_map h
    obtain ⟨pieces, hpieces⟩ := ih hout
    exact ⟨_, hpieces.cons (.question name false) trivial⟩
  | case3 name rest ih =>
    obtain ⟨out, hout⟩ := ok_of_map h
    obtain ⟨pieces, hpieces⟩ := ih hout
    exact ⟨_, hpieces.cons (.question name true) trivial⟩
  | case4 => cases h
  | case5 => cases h
  | case6 => cases h
  | case7 t ts hword ih =>
    obtain ⟨out, hout⟩ := ok_of_map h
    obtain ⟨pieces, hpieces⟩ := ih hout
    exact ⟨_, hpieces.cons (.word t) hword⟩

theorem resolveDefined_eq_ok_iff :
    Condition.resolveDefined isDefined ts = .ok out ↔
      ∃ pieces, Divides pieces ts ∧ out = pieces.map (Piece.resolved isDefined) := by
  constructor
  · intro h
    obtain ⟨pieces, hpieces⟩ := exists_divides h
    rw [hpieces.resolveDefined] at h
    exact ⟨pieces, hpieces, (Except.ok.inj h).symm⟩
  · rintro ⟨pieces, hpieces, rfl⟩
    exact hpieces.resolveDefined

lemma piece_unique (hpiece : piece.IsWellFormed) (hpiece' : piece'.IsWellFormed)
    (h : piece.tokens ++ ts = piece'.tokens ++ rest) : piece = piece' ∧ ts = rest := by
  rcases piece with ⟨name, _ | _⟩ | t <;> rcases piece' with ⟨name', _ | _⟩ | t'
  all_goals simp_all [Piece.tokens, Piece.IsWellFormed]

lemma piece_tokens_ne_nil (piece : Piece) : piece.tokens ≠ [] := by
  rcases piece with ⟨name, _ | _⟩ | t <;> exact List.cons_ne_nil _ _

lemma Divides.unique (h : Divides pieces ts) (h' : Divides pieces' ts) : pieces = pieces' := by
  obtain ⟨hpieces, rfl⟩ := h
  obtain ⟨hpieces', hcovers⟩ := h'
  induction pieces generalizing pieces' with
  | nil =>
    cases pieces' with
    | nil => rfl
    | cons piece' pieces' => simp [piece_tokens_ne_nil] at hcovers
  | cons piece pieces ih =>
    obtain ⟨hpiece, hrest⟩ := List.forall_mem_cons.1 hpieces
    cases pieces' with
    | nil => simp [piece_tokens_ne_nil] at hcovers
    | cons piece' pieces' =>
      obtain ⟨hpiece', hrest'⟩ := List.forall_mem_cons.1 hpieces'
      rw [List.flatMap_cons, List.flatMap_cons] at hcovers
      obtain ⟨rfl, hfollowing⟩ := piece_unique hpiece' hpiece hcovers
      rw [ih hrest hrest' hfollowing]

end Resolving

section Names

variable {table t u : DefineTable} {limit : Nat} {ts out : List Token}

lemma expand_nameless (h : ∀ t ∈ ts, t.name? = none) : expand table limit ts = .ok ts := by
  have htoken {t : Token} (ht : t.name? = none) : expandToken table limit limit [] t = .ok [t] := by
    have hnone : calledMacro? table [] t = none := by
      cases t with
      | identifier name => cases ht
      | _ => rfl
    cases limit <;> rw [expandToken, hnone]
  unfold expand
  induction ts with
  | nil => rfl
  | cons t ts ih =>
    obtain ⟨ht, hts⟩ := List.forall_mem_cons.1 h
    rw [replaceEach, htoken ht]
    dsimp only
    rw [ih hts]
    rfl

lemma OnlyAsks.nameless (h : OnlyAsks ts) (hout : resolveDefined table.contains ts = .ok out) :
    ∀ t ∈ out, t.name? = none := by
  obtain ⟨pieces, hpieces, rfl⟩ := resolveDefined_eq_ok_iff.1 hout
  intro t ht
  obtain ⟨piece, hpiece, rfl⟩ := List.mem_map.1 ht
  cases piece with
  | question name parenthesized => rfl
  | word t => exact h pieces hpieces t hpiece

lemma OnlyAsks.value (h : OnlyAsks ts) (table : DefineTable) (limit : Nat) :
    value table limit ts =
      ((resolveDefined table.contains ts).bind evaluate).mapError (.directive <| .condition ·) := by
  unfold Condition.value
  cases hresolved : resolveDefined table.contains ts with
  | error e => rfl
  | ok out =>
    have hexpand : expand table limit out = .ok out := expand_nameless (h.nameless hresolved)
    simp only [Except.mapError, bind, Except.bind, hexpand]

end Names

end Condition

open Condition

/-- The questions in a condition are answered exactly if its tokens can be divided into questions and other
words, and this way is the only one: each question is replaced by its answer, and the words stay in order. If no
name stands outside the questions, then with other macros of the same names the condition has the same truth or
the same error, however deep macros may be nested. -/
theorem Directive.questions_answered (d : Directive) :
    (∀ (table : DefineTable) (out : List Token),
      resolveDefined table.contains (d.args.map (·.token)) = .ok out ↔
        ∃ pieces, Divides pieces (d.args.map (·.token)) ∧
          out = pieces.map (Piece.resolved table.contains)) ∧
    (∀ pieces pieces', Divides pieces (d.args.map (·.token)) → Divides pieces' (d.args.map (·.token)) →
      pieces = pieces') ∧
    ∀ (t u : DefineTable) (limit limit' : Nat), (∀ name, t.contains name = u.contains name) →
      OnlyAsks (d.args.map (·.token)) → d.asksForTruth t limit = d.asksForTruth u limit' := by
  refine ⟨fun table out => resolveDefined_eq_ok_iff, fun pieces pieces' h h' => h.unique h', ?_⟩
  intro t u limit limit' hnames honly
  have hcontains : t.contains = u.contains := funext hnames
  unfold Directive.asksForTruth
  rw [honly.value, honly.value, hcontains]

/-- A line that asks for two macros, one of them in parentheses and one with the name of the operator. -/
def askingPieces : List Piece :=
  [.question "A" true, .word (.punct .andAlso), .word (.punct .bang), .question "defined" false]

def askingLine : Directive where
  hash := .start
  name := "if"
  location := .start
  args := (askingPieces.flatMap Piece.tokens).map (⟨.start, ·⟩)

theorem Directive.questions_answered_operatorName :
    let recursive : DefineTable := { entries := [("A", ⟨"A", [⟨.start, .identifier "A"⟩]⟩)] }
    let malformed : DefineTable := { entries := [("A", ⟨"A", [⟨.start, .punct .rightParen⟩]⟩)] }
    (∀ name, recursive.contains name = malformed.contains name) ∧
    OnlyAsks (askingLine.args.map (·.token)) ∧
    resolveDefined recursive.contains (askingLine.args.map (·.token)) =
      .ok [.int 1, .punct .andAlso, .punct .bang, .int 0] ∧
    askingLine.asksForTruth recursive 0 = .ok true ∧ askingLine.asksForTruth malformed 128 = .ok true := by
  intro recursive malformed
  obtain ⟨hresolved, hunique, hagree⟩ := Directive.questions_answered askingLine
  have hnames : ∀ name, recursive.contains name = malformed.contains name := by
    intro name
    simp only [DefineTable.contains, DefineTable.get?, recursive, malformed, List.lookup_cons]
    cases name == "A" <;> rfl
  have hdivides : Divides askingPieces (askingLine.args.map (·.token)) := by
    refine ⟨?_, rfl⟩
    simp [askingPieces, Piece.IsWellFormed]
  have honly : OnlyAsks (askingLine.args.map (·.token)) := by
    intro pieces hpieces t ht
    rw [hunique pieces askingPieces hpieces hdivides] at ht
    have hwords : t = .punct .andAlso ∨ t = .punct .bang := by simpa [askingPieces] using ht
    rcases hwords with rfl | rfl <;> rfl
  have htruth : askingLine.asksForTruth recursive 0 = .ok true := by decide +kernel
  refine ⟨hnames, honly, ?_, htruth, ?_⟩
  · exact (hresolved recursive _).2 ⟨askingPieces, hdivides, by decide +kernel⟩
  · rw [← hagree recursive malformed 0 128 hnames honly, htruth]

end Shading
