import Shading.Proofs.Condition.Expansion
import Shading.Preprocessor.Directive

/-!
# Lines

A source is divided into lines at its line breaks. A line is a directive if its first word is a
hash.
-/

namespace Shading

/-- The lexemes of a line, and the line break behind them if the source does not end there. -/
structure Line where
  content : List Lexeme
  stop : Option Lexeme
  deriving DecidableEq, Repr

/-- The report of a rejection in the source of this name. -/
def Rejection.diagnostic (source : String) (r : Rejection) : Diagnostic :=
  { source, location := r.token.location, token := r.token.token, problem := .error r.cause }

namespace Line

def lexemes (l : Line) : List Lexeme :=
  l.content ++ l.stop.toList

def blank (l : Line) : Line :=
  { l with content := [] }

def split : List Lexeme → List Line
  | [] => []
  | x :: xs =>
    if x.token = .newline then { content := [], stop := some x } :: split xs
    else
      match split xs with
      | [] => [{ content := [x], stop := none }]
      | l :: ls => { l with content := x :: l.content } :: ls

/-- A line ends with a line break, and there is none within it. -/
structure IsLine (l : Line) : Prop where
  content : ∀ x ∈ l.content, x.token ≠ .newline
  stop : ∀ x ∈ l.stop, x.token = .newline ∧ x.fault = none

/-- The lexemes `rest` follow only behind a line break, and only the last line has none. -/
def Separated : List Line → List Lexeme → Prop
  | [], _ => True
  | l :: ls, rest => (l.stop = none → ls.flatMap lexemes ++ rest = []) ∧ Separated ls rest

lemma split_flatten (xs : List Lexeme) : (split xs).flatMap lexemes = xs := by
  induction xs with
  | nil => rfl
  | cons x xs ih =>
    rw [split]
    split
    · simp [lexemes, ih]
    · cases hsplit : split xs with
      | nil =>
        rw [hsplit] at ih
        simp [lexemes, ← ih]
      | cons l ls =>
        rw [hsplit] at ih
        simp [lexemes, ← ih]

lemma split_isLine {xs : List Lexeme} (hxs : ∀ x ∈ xs, x.token = .newline → x.fault = none) :
    ∀ l ∈ split xs, l.IsLine := by
  induction xs with
  | nil => simp [split]
  | cons x xs ih =>
    have ih := ih fun y hy => hxs y (List.mem_cons_of_mem x hy)
    rw [split]
    by_cases hx : x.token = .newline
    · rw [if_pos hx]
      intro l hl
      rcases List.mem_cons.1 hl with rfl | hl
      · exact ⟨by simp, by simp [hx, hxs x List.mem_cons_self hx]⟩
      · exact ih l hl
    · rw [if_neg hx]
      cases hsplit : split xs with
      | nil =>
        intro l hl
        obtain rfl := List.mem_singleton.1 hl
        exact ⟨by simp [hx], by simp⟩
      | cons l ls =>
        rw [hsplit] at ih
        intro l' hl'
        rcases List.mem_cons.1 hl' with rfl | hl'
        · have hl := ih l List.mem_cons_self
          refine ⟨?_, hl.stop⟩
          intro y hy
          rcases List.mem_cons.1 hy with rfl | hy
          · exact hx
          · exact hl.content y hy
        · exact ih l' (List.mem_cons_of_mem l hl')

lemma split_separated (xs : List Lexeme) : Separated (split xs) [] := by
  induction xs with
  | nil => trivial
  | cons x xs ih =>
    rw [split]
    split
    · exact ⟨by simp, ih⟩
    · cases hsplit : split xs with
      | nil => exact ⟨fun _ => rfl, trivial⟩
      | cons l ls =>
        rw [hsplit] at ih
        exact ih

lemma separated_append (ls ls' : List Line) (rest : List Lexeme) :
    Separated (ls ++ ls') rest ↔
      Separated ls (ls'.flatMap lexemes ++ rest) ∧ Separated ls' rest := by
  induction ls with
  | nil => simp [Separated]
  | cons l ls ih =>
    rw [List.cons_append, Separated, Separated, ih, List.flatMap_append, List.append_assoc]
    exact and_assoc.symm

/-! Lines of which less is kept. -/

section Kept

variable {α : Type} {line less : α → Line} (hsublist : ∀ a, (less a).lexemes.Sublist (line a).lexemes)
include hsublist

lemma sublist_kept (as : List α) :
    (as.flatMap fun a => (less a).lexemes).Sublist ((as.map line).flatMap lexemes) := by
  induction as with
  | nil => exact .slnil
  | cons a as ih => exact (hsublist a).append ih

lemma Separated.kept (hstop : ∀ a, (less a).stop = (line a).stop) {as : List α}
    (h : Separated (as.map line) []) : Separated (as.map less) [] := by
  induction as with
  | nil => trivial
  | cons a as ih =>
    obtain ⟨hlast, hrest⟩ := h
    refine ⟨?_, ih hrest⟩
    intro hnone
    rw [hstop] at hnone
    have hbehind := sublist_kept hsublist as
    have hempty := hlast hnone
    rw [List.append_nil] at hempty
    rw [hempty, List.sublist_nil] at hbehind
    rw [List.append_nil, List.flatMap_map]
    exact hbehind

end Kept

def words (l : Line) : List LocatedToken :=
  (l.content.filter (!·.token.isSkipped)).map (·.located)

/-- What is wrong with the tokens of a line of the source of this name. -/
def faults (source : String) (l : Line) : List Diagnostic :=
  l.content.filterMap (·.diagnostic? source)

/-- Whether the first word of the line is a hash. -/
def isDirective (l : Line) : Bool :=
  match l.words with
  | ⟨_, .punct .hash⟩ :: _ => true
  | _ => false

def directive? (l : Line) : Option (Except Rejection Directive) :=
  match l.words with
  | ⟨hash, .punct .hash⟩ :: args => Preprocessor.parseDirective hash args
  | _ => none

def keyword? (l : Line) : Option Keyword :=
  match l.directive? with
  | some (.ok d) => some (.ofName d.name)
  | _ => none

def opens (l : Line) : Bool :=
  l.keyword? = some .ifDefined || l.keyword? = some .ifNotDefined || l.keyword? = some .ifHolds

/-- Whether the line is neither an include nor a part of a group. -/
def isPlain (l : Line) : Bool :=
  !(l.opens || l.keyword? = some .elseIf || l.keyword? = some .otherwise ||
    l.keyword? = some .endIf || l.keyword? = some .includeFile)

def answer (limit : Nat) (table : DefineTable) (l : Line) : Except Rejection Bool :=
  match l.directive? with
  | some (.ok d) =>
    match Keyword.ofName d.name with
    | .ifDefined => d.asksForMacro table true
    | .ifNotDefined => d.asksForMacro table false
    | _ => d.asksForTruth table limit
  | some (.error r) => .error r
  | none => .ok false

def conditionReports (source : String) (limit : Nat) (table : DefineTable) (l : Line) :
    List Diagnostic :=
  match l.answer limit table with
  | .ok _ => []
  | .error r => [r.diagnostic source]

/-- Whether the condition on a line holds. One that has no answer does not. -/
def holds (limit : Nat) (table : DefineTable) (l : Line) : Bool :=
  match l.answer limit table with
  | .ok answer => answer
  | .error _ => false

/-- The macros behind a line of text that counts. -/
def redefine (table : DefineTable) (l : Line) : DefineTable :=
  match l.directive? with
  | some (.ok d) =>
    match Keyword.ofName d.name with
    | .define =>
      match d.definition with
      | .ok m => table.insert m.name m
      | .error _ => table
    | .undefine =>
      match d.macroName with
      | .ok name => table.erase name
      | .error _ => table
    | _ => table
  | _ => table

/-- What is reported of the directive on a line of text that counts. -/
def directiveReports (source : String) (l : Line) : List Diagnostic :=
  match l.directive? with
  | some (.ok d) =>
    match Keyword.ofName d.name with
    | .define =>
      match d.definition with
      | .ok _ => []
      | .error r => [r.diagnostic source]
    | .undefine =>
      match d.macroName with
      | .ok _ => []
      | .error r => [r.diagnostic source]
    | .raise =>
      [Rejection.diagnostic source
        (.directive d.hash (.identifier d.name) (.raised (spaced d.args)))]
    | .warn =>
      [{ source, location := d.hash, token := .identifier d.name
         problem := .warning (.directive (spaced d.args)) }]
    | .unknown =>
      [Rejection.diagnostic source
        (.directive d.location (.identifier d.name) (.unknown d.name))]
    | _ => []
  | some (.error r) => [r.diagnostic source]
  | none => []

/-- The tokens that a line of text that counts delivers: what its words stand for. -/
def tokens (limit : Nat) (table : DefineTable) (l : Line) : List LocatedToken :=
  if l.isDirective then []
  else l.words.flatMap fun t =>
    (Condition.leaveOut table limit [] t.token).1.map fun u => ⟨t.location, u⟩

/-- What is reported of a line of text that counts: its faults, and what is wrong with its directive
or the calls in it that are left out. -/
def reports (source : String) (limit : Nat) (table : DefineTable) (l : Line) :
    List Diagnostic :=
  if l.isDirective then l.faults source ++ l.directiveReports source
  else l.content.flatMap fun x => (x.diagnostic? source).toList ++
    if x.token.isSkipped then []
    else (Condition.leaveOut table limit [] x.token).2.map fun name =>
      { source, location := x.location, token := .identifier name
        problem := .error (.expansionTooDeep name limit) }

end Line

end Shading
