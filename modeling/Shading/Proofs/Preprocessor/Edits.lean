import Shading.Proofs.Compiler.History
import Shading.Proofs.Lexeme.Name
import Shading.Proofs.Preprocessor.Defining
import Shading.Proofs.Preprocessor.Inclusion
import Shading.Proofs.Preprocessor.Origins
import Shading.Proofs.Preprocessor.Rejections
import Shading.Proofs.Preprocessor.Visited

/-!
# How macros change

Macros change only by lines that define them or take them away. What a line defines is written there word by
word, and together with what a compiler accepts this keeps every macro under its own name, an identifier.
-/

namespace Shading

open Text

namespace DefineTable

/-- A change of the macros by a line: a macro that is defined in a source, or a name that is taken away. -/
inductive Edit
  | define (source : Source) (m : Definition)
  | undefine (name : String)
  deriving DecidableEq, Repr

def edit (table : DefineTable) : Edit → DefineTable
  | .define _ m => table.insert m.name m
  | .undefine name => table.erase name

/-- The table behind a change, if there is one. -/
def amend (table : DefineTable) (change : Option Edit) : DefineTable :=
  change.toList.foldl edit table

end DefineTable

open DefineTable (Edit)

/-- The change of the macros that a directive in this source asks for. -/
def Directive.edit? (source : Source) (d : Directive) : Option Edit :=
  match Keyword.ofName d.name with
  | .define => d.definition.toOption.map (.define source)
  | .undefine => d.macroName.toOption.map .undefine
  | _ => none

namespace Preprocessor

/-- The change of the macros that the line behind a hash in this source asks for. -/
def lineEdit? (source : Source) (hash : Location) (line : List LocatedToken) : Option Edit :=
  ((parseDirective hash line).bind (·.toOption)).bind (·.edit? source)

/-- The change of the macros that the next step makes: what a line in text that counts asks for. -/
def edit? (p : Preprocessor) : Option Edit :=
  match p.expansions, p.frames with
  | [], f :: _ =>
    match f.lexemes with
    | [] => none
    | x :: rest =>
      if x.token = .punct .hash && f.atLineStart && f.isActive then
        lineEdit? f.source x.location (Line.first rest).words
      else none
  | _, _ => none

/-! ### What a step does to the macros -/

section Defines

variable (fs : FileSystem) (p : Preprocessor)

/-- The macros behind a directive. -/
def definesBehind : Except Rejection Preprocessor → DefineTable
  | .ok q => q.defines
  | .error _ => p.defines

lemma defines_setGroups (groups : List Group) : (p.setGroups groups).defines = p.defines := by
  unfold setGroups mapTop
  split <;> rfl

lemma defines_ask (question : Except Rejection Bool) : (p.ask question).1.defines = p.defines := by
  cases question <;> rfl

lemma defines_openGroup (question : Except Rejection Bool) : (p.openGroup question).defines = p.defines := by
  unfold openGroup
  rw [defines_setGroups]
  split
  · exact p.defines_ask question
  · rfl

lemma definesBehind_openBranch (d : Directive) : p.definesBehind (p.openBranch d) = p.defines := by
  unfold openBranch
  split
  · rfl
  next g outer _ =>
    split
    · rfl
    · refine (defines_setGroups _ _).trans ?_
      split
      · exact p.defines_ask _
      · rfl

lemma definesBehind_openLastBranch (d : Directive) : p.definesBehind (p.openLastBranch d) = p.defines := by
  unfold openLastBranch
  split
  · rfl
  · split
    · rfl
    · exact p.defines_setGroups _

lemma definesBehind_closeGroup (d : Directive) : p.definesBehind (p.closeGroup d) = p.defines := by
  unfold closeGroup
  split
  · rfl
  · exact p.defines_setGroups _

lemma definesBehind_enter (location : Location) (isLocal : Bool) (name : String) :
    p.definesBehind (p.enter fs location isLocal name) = p.defines := by
  apply enter_cases (motive := fun r => p.definesBehind r = p.defines)
  all_goals
    intros
    rfl

/-- A directive changes the macros as it asks for, if the text counts. -/
theorem definesBehind_obey (source : Source) (d : Directive) :
    p.definesBehind (p.obey fs d) = p.defines.amend (if p.isActive then d.edit? source else none) := by
  have hnone : p.defines.amend (if p.isActive then none else none) = p.defines := by
    rw [ite_self]
    rfl
  unfold obey Directive.edit?
  cases Keyword.ofName d.name with
  | ifDefined => exact (p.defines_openGroup _).trans hnone.symm
  | ifNotDefined => exact (p.defines_openGroup _).trans hnone.symm
  | ifHolds => exact (p.defines_openGroup _).trans hnone.symm
  | elseIf => exact (p.definesBehind_openBranch d).trans hnone.symm
  | otherwise => exact (p.definesBehind_openLastBranch d).trans hnone.symm
  | endIf => exact (p.definesBehind_closeGroup d).trans hnone.symm
  | define =>
    cases p.isActive with
    | false => rfl
    | true => cases d.definition <;> rfl
  | undefine =>
    cases p.isActive with
    | false => rfl
    | true => cases d.macroName <;> rfl
  | includeFile =>
    cases p.isActive with
    | false => rfl
    | true =>
      cases d.includedName with
      | error r => rfl
      | ok named => exact p.definesBehind_enter fs _ _ _
  | raise => cases p.isActive <;> rfl
  | warn => cases p.isActive <;> rfl
  | ignored => cases p.isActive <;> rfl
  | unknown => cases p.isActive <;> rfl

lemma defines_obeyLine (source : Source) (hash : Location) (line : List LocatedToken) :
    (p.obeyLine fs hash line).defines =
      p.defines.amend (if p.isActive then lineEdit? source hash line else none) := by
  unfold obeyLine lineEdit?
  rcases parseDirective hash line with _ | r | d
  · simp [DefineTable.amend]
  · cases p.isActive <;> rfl
  · have hobeyed := p.definesBehind_obey fs source d
    dsimp only
    cases hobey : p.obey fs d with
    | ok q =>
      rw [hobey] at hobeyed
      exact hobeyed
    | error r =>
      rw [hobey] at hobeyed
      exact hobeyed

lemma defines_place (t : LocatedToken) : (p.place t).next.defines = p.defines := by
  unfold place
  split
  · rfl
  · split <;> rfl

lemma defines_stepExpansion (e : Expansion) (outer : List Expansion) :
    (p.stepExpansion e outer).next.defines = p.defines := by
  unfold stepExpansion
  split
  · rfl
  · dsimp only
    split
    · rfl
    · exact defines_place _ _

lemma defines_stepEnd (f : Frame) (outer : List Frame) : (p.stepEnd f outer).next.defines = p.defines := by
  unfold stepEnd
  dsimp only
  split
  · rfl
  · split <;> split <;> rfl

lemma defines_stepLexeme (f : Frame) (outer : List Frame) (x : Lexeme) (rest : List Lexeme) :
    (p.stepLexeme fs f outer x rest).next.defines =
      p.defines.amend (if x.token = .punct .hash && f.atLineStart && f.isActive then
        lineEdit? f.source x.location (Line.first rest).words else none) := by
  have hnone (hhash : ¬(x.token = .punct .hash && f.atLineStart) = true) :
      p.defines.amend (if x.token = .punct .hash && f.atLineStart && f.isActive then
        lineEdit? f.source x.location (Line.first rest).words else none) = p.defines := by
    rw [if_neg fun h => hhash (Bool.and_eq_true_iff.1 h).1]
    rfl
  apply stepLexeme_cases (motive := fun s => s.next.defines = _)
  case passed => exact fun hhash => (hnone hhash).symm
  case directive =>
    intro hhash hstart
    rw [hhash, hstart, decide_eq_true rfl, Bool.true_and, Bool.true_and]
    exact defines_obeyLine fs _ f.source x.location (Line.first rest).words
  case placed => exact fun _ _ hhash _ => (defines_place _ _).trans (hnone hhash).symm

/-- A step changes the macros only by a line, and as the line asks for. -/
theorem defines_step : (p.step fs).next.defines = p.defines.amend p.edit? := by
  unfold step edit?
  cases p.expansions with
  | cons e outer => exact p.defines_stepExpansion e outer
  | nil =>
    cases p.frames with
    | nil => rfl
    | cons f outer =>
      dsimp only
      cases f.lexemes with
      | nil => exact p.defines_stepEnd f outer
      | cons x rest => exact p.defines_stepLexeme fs f outer x rest

end Defines

end Preprocessor

/-! ### Lines that define macros -/

namespace Line

variable {c : Cursor}

lemma exists_word {xs : List Lexeme} {t : LocatedToken} {ts : List LocatedToken}
    (hxs : xs <:+ (Lexemes.ofCursor c).list) (h : (first xs).words = t :: ts) :
    ∃ n, (c.afterReads n).read.1.located = t ∧
      (first (Lexemes.ofCursor (c.afterReads n).read.2).list).words = ts ∧
      (Lexemes.ofCursor (c.afterReads n).read.2).list <:+ xs := by
  obtain ⟨x, ys, hys, hx, hts⟩ := exists_of_words_first h
  obtain ⟨n, hn⟩ := Lexemes.exists_afterReads (hys.trans hxs)
  obtain ⟨hread, hbehind⟩ := Lexemes.ofCursor_eq_cons hn
  refine ⟨n, by rw [hread, hx], by rw [hbehind, hts], ?_⟩
  rw [hbehind]
  exact (List.suffix_cons x ys).trans hys

lemma head?_words_first (h : c.rest.head? = some (ascii '(')) :
    (first (Lexemes.ofCursor c).list).words.head? = some ⟨c.location, .punct .leftParen⟩ := by
  obtain ⟨l, back⟩ := c
  obtain ⟨back, rfl⟩ := List.head?_eq_some_iff.1 h
  rw [Lexemes.ofCursor_read (c := ⟨l, ascii '(' :: back⟩) (by simp), Cursor.read_leftParen,
    words_first_word (by simp) (by rfl)]
  rfl

end Line

namespace Definition

/-- In a source with this content a line defines the macro: behind a hash and the word `define` stand its
name, with no parenthesis directly behind it, and then its body up to the end of the line. -/
def IsWrittenIn (content : List UInt8) (m : Definition) : Prop :=
  ∃ (k j : Nat) (word : Location),
    let line := Cursor.afterReads { rest := content } k
    let named := line.afterReads j
    (Line.first (Lexemes.ofCursor line).list).words = ⟨line.location, .punct .hash⟩ ::
      ⟨word, .identifier "define"⟩ :: ⟨named.location, .identifier m.name⟩ :: m.body ∧
    named.taken = bytes m.name ∧ named.read.2.rest.head? ≠ some (ascii '(')

variable {content : List UInt8} {m : Definition}

/-- The macro whose definition begins with this hash is written in the content. -/
lemma isWrittenIn_of_line {x : Lexeme} {rest : List Lexeme} {word place : Location}
    (hrest : x :: rest <:+ (Lexemes.ofBytes content).list) (hx : x.token = .punct .hash)
    (hwords : (Line.first rest).words = ⟨word, .identifier "define"⟩ :: ⟨place, .identifier m.name⟩ :: m.body)
    (hapart : m.body.head? ≠ some ⟨place.right m.name.utf8ByteSize, .punct .leftParen⟩) :
    m.IsWrittenIn content := by
  obtain ⟨k, hk⟩ := Lexemes.exists_afterReads hrest
  obtain ⟨hline, -⟩ := Lexemes.ofCursor_eq_cons hk
  have hinside : rest <:+ (Lexemes.ofCursor (Cursor.afterReads { rest := content } k)).list := by
    rw [hk]
    exact List.suffix_cons x rest
  obtain ⟨i, -, hargs, hbehind⟩ := Line.exists_word hinside hwords
  obtain ⟨j, hname, hbody, -⟩ := Line.exists_word (hbehind.trans hinside) hargs
  refine ⟨k, j, word, ?_⟩
  dsimp only
  rw [hk, Line.words_first_hash hx, hwords]
  generalize Cursor.afterReads { rest := content } k = line at *
  generalize line.afterReads j = named at *
  have hx : x.location = line.location := by rw [← hline, line.read_location]
  obtain rfl : named.location = place := by
    rw [← named.read_location]
    exact congrArg LocatedToken.location hname
  obtain ⟨-, hbytes, hend⟩ := Cursor.name_read (congrArg LocatedToken.token hname)
  refine ⟨by rw [hx], hbytes, fun hparen => hapart ?_⟩
  rw [← hbody, Line.head?_words_first hparen, hend]

lemma IsWrittenIn.isValid (h : m.IsWrittenIn content) : Identifier.isValid m.name = true := by
  obtain ⟨k, j, word, hwords, -, -⟩ := h
  obtain ⟨x, hx, hname, -⟩ := Line.mem_words_first
    (hwords ▸ List.mem_cons_of_mem _ (List.mem_cons_of_mem _ List.mem_cons_self))
  exact Lexemes.valid_of_identifier _ x hx m.name (congrArg LocatedToken.token hname)

lemma IsWrittenIn.ne_newline (h : m.IsWrittenIn content) : ∀ t ∈ m.body, t.token ≠ .newline := by
  obtain ⟨k, j, word, hwords, -, -⟩ := h
  intro t ht
  obtain ⟨x, -, rfl, -, hnewline⟩ := Line.mem_words_first
    (hwords ▸ List.mem_cons_of_mem _ (List.mem_cons_of_mem _ (List.mem_cons_of_mem _ ht)))
  exact hnewline

end Definition

lemma toOption_eq_some {ε α : Type} {r : Except ε α} {a : α} : r.toOption = some a ↔ r = .ok a := by
  cases r <;> simp [Except.toOption]

namespace Directive

open Preprocessor in
lemma definition_eq_ok {d : Directive} {m : Definition} (h : d.definition = .ok m) :
    ∃ place, d.args = ⟨place, .identifier m.name⟩ :: m.body ∧
      m.body.head? ≠ some ⟨place.right m.name.utf8ByteSize, .punct .leftParen⟩ := by
  cases hname : d.macroName with
  | error r =>
    rw [definition_noMacro hname] at h
    cases h
  | ok name =>
    obtain ⟨place, body, hargs⟩ := macroName_ok.1 hname
    by_cases hparen : body.head? = some ⟨place.right name.utf8ByteSize, .punct .leftParen⟩
    · obtain ⟨rest, rfl⟩ := List.head?_eq_some_iff.1 hparen
      rw [definition_functionLike place name rest hargs] at h
      cases h
    · rw [definition_of_apart hargs hparen] at h
      obtain rfl := Except.ok.inj h
      exact ⟨place, hargs, hparen⟩

lemma edit?_eq_define {d : Directive} {source source' : Source} {m : Definition}
    (h : d.edit? source = some (.define source' m)) :
    source' = source ∧ Keyword.ofName d.name = .define ∧ d.definition = .ok m := by
  unfold edit? at h
  split at h
  next hkeyword =>
    obtain ⟨m', hm, heq⟩ := Option.map_eq_some_iff.1 h
    obtain ⟨rfl, rfl⟩ := Edit.define.inj heq
    exact ⟨rfl, hkeyword, toOption_eq_some.1 hm⟩
  · obtain ⟨name, _, heq⟩ := Option.map_eq_some_iff.1 h
    cases heq
  · cases h

end Directive

namespace Preprocessor

/-- The words of a line that defines a macro, behind its hash. -/
lemma lineEdit?_eq_define {source source' : Source} {hash : Location} {line : List LocatedToken} {m : Definition}
    (h : lineEdit? source hash line = some (.define source' m)) : source' = source ∧ ∃ word place,
      line = ⟨word, .identifier "define"⟩ :: ⟨place, .identifier m.name⟩ :: m.body ∧
        m.body.head? ≠ some ⟨place.right m.name.utf8ByteSize, .punct .leftParen⟩ := by
  obtain ⟨d, hd, hedit⟩ := Option.bind_eq_some_iff.1 h
  obtain ⟨r, hr, hd⟩ := Option.bind_eq_some_iff.1 hd
  obtain rfl := toOption_eq_some.1 hd
  obtain ⟨hsource, hkeyword, hdefinition⟩ := Directive.edit?_eq_define hedit
  obtain ⟨-, hline⟩ := parseDirective_ok hr
  obtain ⟨place, hargs, hapart⟩ := Directive.definition_eq_ok hdefinition
  rw [(Keyword.spelling_active hkeyword).1 rfl, hargs] at hline
  exact ⟨hsource, _, place, hline, hapart⟩

/-- A macro that a line defines is written there. -/
theorem isWrittenIn_of_edit {p : Preprocessor} (hp : ∀ f ∈ p.frames, f.IsLoaded) {source : Source}
    {m : Definition} (h : p.edit? = some (.define source m)) :
    ∃ content, source.loaded = some content ∧ m.IsWrittenIn content := by
  unfold edit? at h
  split at h
  next f outer hexpansions hframes =>
    split at h
    · cases h
    next x rest hlexemes =>
      split at h
      next hcounts =>
        obtain ⟨hx, -⟩ : x.token = .punct .hash ∧ _ := by simpa [and_assoc] using hcounts
        obtain ⟨rfl, word, place, hwords, hapart⟩ := lineEdit?_eq_define h
        obtain ⟨content, hcontent, hrest, -⟩ := hp f (by simp [hframes])
        rw [hlexemes] at hrest
        exact ⟨content, hcontent, Definition.isWrittenIn_of_line hrest hx hwords hapart⟩
      · cases h
  · cases h

/-! ### All that is done to the macros -/

/-- From the first state the other one is reached, and on the way the macros are changed in these ways. The
files may change between steps, the token that is kept and what is reported at any time. -/
inductive Edits (first : Preprocessor) : List Edit → Preprocessor → Prop
  | start : Edits first [] first
  | step {es : List Edit} {p : Preprocessor} (h : Edits first es p) (fs : FileSystem) :
      Edits first (es ++ p.edit?.toList) (p.step fs).next
  | same {es : List Edit} {p : Preprocessor} (h : Edits first es p) (lookahead : Option LocatedToken)
      (log : Array Diagnostic) : Edits first es { p with lookahead, log }

variable {first p : Preprocessor} {es : List Edit}

lemma Edits.defines_eq (h : Edits first es p) : p.defines = es.foldl DefineTable.edit first.defines := by
  induction h with
  | start => rfl
  | @step es p h fs ih => rw [defines_step, DefineTable.amend, List.foldl_append, ih]
  | same h lookahead log ih => exact ih

lemma Edits.isSound (h : Edits first es p) (hfirst : first.IsSound) : p.IsSound := by
  induction h with
  | start => exact hfirst
  | step h fs ih => exact isSound_step fs ih
  | same h lookahead log ih => exact ⟨ih.defines, ih.lexemes⟩

lemma Edits.loaded (h : Edits first es p) (hfirst : ∀ f ∈ first.frames, f.IsLoaded) :
    ∀ f ∈ p.frames, f.IsLoaded := by
  induction h with
  | start => exact hfirst
  | step h fs ih => exact loaded_step fs ih
  | same h lookahead log ih => exact ih

lemma defines_start (fs : FileSystem) (c : Compiler) (source : Source) :
    (c.preprocessor fs source).defines = c.defines := by
  unfold Compiler.preprocessor start
  dsimp only
  split <;> rfl

/-- Every macro that is defined on the way is written in its source. -/
theorem Edits.isWrittenIn (h : Edits first es p) (hfirst : ∀ f ∈ first.frames, f.IsLoaded) {source : Source}
    {m : Definition} (hm : .define source m ∈ es) :
    ∃ content, source.loaded = some content ∧ m.IsWrittenIn content := by
  induction h with
  | start => cases hm
  | @step es p h fs ih =>
    rcases List.mem_append.1 hm with hm | hm
    · exact ih hm
    · exact isWrittenIn_of_edit (h.loaded hfirst) (Option.mem_toList.1 hm)
  | same h lookahead log ih => exact ih hm

/-- The changes of the macros that this many steps make. -/
def edits (fs : FileSystem) (p : Preprocessor) (n : Nat) : List Edit :=
  (List.range n).flatMap fun m => (p.steps fs m).edit?.toList

lemma edits_steps (fs : FileSystem) (p : Preprocessor) (n : Nat) : Edits p (p.edits fs n) (p.steps fs n) := by
  induction n with
  | zero => exact .start
  | succ n ih =>
    rw [edits, List.range_succ, List.flatMap_append, List.flatMap_singleton, steps_succ]
    exact ih.step fs

/-- All that is visited on the way of a source is reached by changes of the compiler's macros. -/
theorem Visited.exists_edits {fs : FileSystem} (h : p.Visited fs) : ∃ c : Compiler, c.Reachable ∧
    ∃ source es, Edits (c.preprocessor fs source) es p := by
  apply h.induction
  · exact fun c hc source => ⟨c, hc, source, [], .start⟩
  · rintro p ⟨c, hc, source, es, hes⟩
    exact ⟨c, hc, source, _, hes.step fs⟩
  · rintro p lookahead log ⟨c, hc, source, es, hes⟩
    exact ⟨c, hc, source, es, hes.same lookahead log⟩

end Preprocessor

namespace DefineTable

/-- Every macro is kept under an identifier. -/
def IsNamed (table : DefineTable) : Prop :=
  ∀ name d, table.get? name = some d → Identifier.isValid name = true

variable {table : DefineTable}

lemma isNamed_insert (h : table.IsNamed) {name : String} (hname : Identifier.isValid name = true)
    (d : Definition) : (table.insert name d).IsNamed := by
  intro other e he
  rw [get?_insert] at he
  split at he
  next hother => rwa [hother]
  · exact h other e he

lemma isNamed_erase (h : table.IsNamed) (name : String) : (table.erase name).IsNamed := by
  intro other e he
  rw [get?_erase] at he
  split at he
  · cases he
  · exact h other e he

lemma isNamed_edits {es : List Edit} (h : table.IsNamed)
    (hes : ∀ source m, .define source m ∈ es → Identifier.isValid m.name = true) :
    (es.foldl edit table).IsNamed := by
  induction es generalizing table with
  | nil => exact h
  | cons e es ih =>
    refine ih ?_ fun source m hm => hes source m (List.mem_cons_of_mem e hm)
    cases e with
    | define source m => exact isNamed_insert h (hes source m List.mem_cons_self) m
    | undefine name => exact isNamed_erase h name

end DefineTable

lemma Compiler.Reachable.isNamed {c : Compiler} (h : c.Reachable) : c.defines.IsNamed := by
  induction h with
  | new config => nofun
  | @addDefine c c' name body hc h ih =>
    have haccepts := (c.addDefine_ok_iff name body).1 ⟨c', h⟩
    rw [c.addDefine_of_accepts haccepts] at h
    obtain rfl := Except.ok.inj h
    exact DefineTable.isNamed_insert ih (Compiler.accepts_iff.1 haccepts).1 _
  | removeDefine hc name ih => exact DefineTable.isNamed_erase ih name
  | configure hc config ih => exact ih

lemma Compiler.Reachable.call {c : Compiler} (hc : c.Reachable) (call : Call) : (c.call call).Reachable := by
  cases call with
  | add name body =>
    cases hadd : c.addDefine name body with
    | ok c' => simpa only [Compiler.call, hadd] using hc.addDefine hadd
    | error e => simpa only [Compiler.call, hadd] using hc
  | remove name => exact hc.removeDefine name

namespace Preprocessor

/-- What is true of the macros behind changes of the macros in a table. -/
structure KeepsMacros (table : DefineTable) (es : List Edit) (p : Preprocessor) : Prop where
  /-- The macros are those of the table with the changes made one after the other. -/
  changed : p.defines = es.foldl DefineTable.edit table
  /-- Every macro is kept under its own name, which is an identifier. -/
  named : ∀ name m, p.defines.get? name = some m → Identifier.isValid name = true ∧ m.name = name
  /-- No body holds an end or anything that is skipped. -/
  words : ∀ name m, p.defines.get? name = some m → ∀ t ∈ m.body, t.token ≠ .eof ∧ t.token.isSkipped = false
  /-- A body that a line defines holds no line break. -/
  lines : ∀ source m, .define source m ∈ es → ∀ t ∈ m.body, t.token ≠ .newline
  /-- What a line defines is written in its source, with no parenthesis directly behind the name. -/
  written : ∀ source m, .define source m ∈ es →
    ∃ content, source.loaded = some content ∧ m.IsWrittenIn content

/-- However macros are given to a compiler, defined by lines of any sources and taken away by either, each is
kept under its own name with words as its body, and what lines define stands in a line of its source. -/
theorem edits_keepMacros {c : Compiler} (hc : c.Reachable) {fs : FileSystem} {source : Source}
    {es : List Edit} {p : Preprocessor} (h : Edits (c.preprocessor fs source) es p) :
    KeepsMacros c.defines es p := by
  have hwritten {source' : Source} {m : Definition} (hm : .define source' m ∈ es) :=
    h.isWrittenIn (isRooted_start hc fs source).loaded hm
  have hsound := (h.isSound (isSound_start hc source)).defines
  have hdefines := h.defines_eq
  rw [defines_start] at hdefines
  have hnamed : p.defines.IsNamed := by
    rw [hdefines]
    refine DefineTable.isNamed_edits hc.isNamed fun source' m hm => ?_
    obtain ⟨content, -, hcontent⟩ := hwritten hm
    exact hcontent.isValid
  constructor
  case changed => exact hdefines
  case named => exact fun name m hm => ⟨hnamed name m hm, (hsound name m hm).1⟩
  case words => exact fun name m hm => (hsound name m hm).2
  case lines =>
    intro source' m hm
    obtain ⟨content, -, hcontent⟩ := hwritten hm
    exact hcontent.ne_newline
  case written => exact fun source' m hm => hwritten hm

/-- A program that defines a macro and includes a part, which defines another one and takes the first away. -/
def definingPart : FileSystem :=
  twoFiles (bytes "#define D 1\n#include \"part\"\n") (bytes "#define B (1)\n#define C(x)\n#undef D\n")

/-- A compiler with a macro of two lines. -/
def twoLines : Compiler :=
  Compiler.call {} (.add "A" (some "x\ny"))

/-- What the lines of the program and of its part do to the macros. -/
def partEdits : List Edit :=
  [.define { Source.ofFile ⟨"main"⟩ with loaded := some (bytes "#define D 1\n#include \"part\"\n") }
      { name := "D", body := [⟨⟨0, 10⟩, .int 1⟩] },
    .define { Source.ofFile ⟨"part"⟩ with loaded := some (bytes "#define B (1)\n#define C(x)\n#undef D\n") }
      { name := "B"
        body := [⟨⟨0, 10⟩, .punct .leftParen⟩, ⟨⟨0, 11⟩, .int 1⟩, ⟨⟨0, 12⟩, .punct .rightParen⟩] },
    .undefine "D"]

theorem edits_keepMacros_definingPart :
    let main := twoLines.preprocessor definingPart (.ofFile ⟨"main"⟩)
    let p := main.steps definingPart 7
    twoLines.Reachable ∧ Edits main partEdits p ∧ KeepsMacros twoLines.defines partEdits p ∧
      p.finished = true ∧ p.defines.entries.map (·.1) = ["B", "A"] ∧ p.log.size = 1 := by
  intro main p
  have hreachable : twoLines.Reachable := (Compiler.Reachable.new {}).call _
  have hpart : main.edits definingPart 7 = partEdits := by decide +kernel
  have hedits : Edits main partEdits p := hpart ▸ edits_steps definingPart main 7
  exact ⟨hreachable, hedits, edits_keepMacros hreachable hedits, by decide +kernel, by decide +kernel,
    by decide +kernel⟩

end Preprocessor

end Shading
