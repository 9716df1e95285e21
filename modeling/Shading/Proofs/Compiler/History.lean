import Shading.Proofs.Lexeme
import Shading.Proofs.Preprocessor.Reachable

/-!
# Histories of a compiler's macros

Macros are given to a compiler and taken away in any order. Whether one is accepted depends on its
name and its text alone, and of each name the table holds what was accepted last and not taken away
since.
-/

namespace Shading

namespace Diagnostic

lemma error?_eq_some {d : Diagnostic} {e : CompileError} :
    d.error? = some e ↔ ∃ cause, d.problem = .error cause ∧ e = .located d.location cause := by
  unfold error?
  cases d.problem with
  | error cause => simp [eq_comm]
  | warning cause => simp

lemma error?_eq_none {d : Diagnostic} : d.error? = none ↔ d.isFatal = false := by
  unfold error? isFatal
  cases d.problem <;> simp

lemma firstError?_eq_none {ds : List Diagnostic} :
    firstError? ds = none ↔ ∀ d ∈ ds, d.isFatal = false := by
  simp only [firstError?, List.findSome?_eq_none_iff, error?_eq_none]

lemma firstError?_eq_some {ds : List Diagnostic} {e : CompileError} :
    firstError? ds = some e ↔ ∃ earlier d later cause, ds = earlier ++ d :: later ∧
      (∀ d' ∈ earlier, d'.isFatal = false) ∧ d.problem = .error cause ∧
        e = .located d.location cause := by
  rw [firstError?, List.findSome?_eq_some_iff]
  constructor
  · rintro ⟨earlier, d, later, hds, hd, hearlier⟩
    obtain ⟨cause, hproblem, he⟩ := error?_eq_some.1 hd
    exact ⟨earlier, d, later, cause, hds, fun d' hd' => error?_eq_none.1 (hearlier d' hd'),
      hproblem, he⟩
  · rintro ⟨earlier, d, later, cause, hds, hearlier, hproblem, he⟩
    exact ⟨earlier, d, later, hds, error?_eq_some.2 ⟨cause, hproblem, he⟩,
      fun d' hd' => error?_eq_none.2 (hearlier d' hd')⟩

end Diagnostic

namespace Definition

/-- The words of a text, with their places in it. -/
def wordsOf (text : List UInt8) : List LocatedToken :=
  ((Lexemes.ofBytes text).list.filter (!·.token.isSkipped)).map (·.located)

/-- What is wrong with the tokens of a text that is read in the source of this name. -/
def reportsOf (source : String) (text : List UInt8) : List Diagnostic :=
  (Lexemes.ofBytes text).list.filterMap (·.diagnostic? source)

/-- Capturing stops at the first error, and yields the words if the whole text has none. -/
theorem capture_eq (source : String) (c : Cursor) :
    capture c =
      match Diagnostic.firstError? ((Lexemes.ofCursor c).list.filterMap (·.diagnostic? source)) with
      | some e => .error e
      | none => .ok (((Lexemes.ofCursor c).list.filter (!·.token.isSkipped)).map (·.located)) := by
  fun_induction capture c with
  | case1 c hc =>
    rw [Lexemes.ofCursor_nil hc]
    rfl
  | case2 c hc reading cause hfault =>
    have hfatal : reading.1.diagnostic? source = some
        { source, location := reading.1.location, token := reading.1.token
          problem := .error (.lexical cause) } := by
      rw [Lexeme.diagnostic?, hfault]
      rfl
    rw [Lexemes.ofCursor_read hc, List.filterMap_cons_some hfatal]
    rfl
  | case3 c hc reading hfault ih =>
    have hharmless : ∀ d ∈ reading.1.diagnostic? source, d.isFatal = false := by
      intro d hd
      obtain ⟨fault, hsome, rfl⟩ := Option.map_eq_some_iff.1 hd
      cases fault with
      | error cause => exact absurd hsome (hfault cause)
      | overflow type => rfl
    have hfirst : Diagnostic.firstError?
        ((reading.1 :: (Lexemes.ofCursor reading.2).list).filterMap (·.diagnostic? source)) =
        Diagnostic.firstError?
          ((Lexemes.ofCursor reading.2).list.filterMap (·.diagnostic? source)) := by
      cases hd : reading.1.diagnostic? source with
      | none => rw [List.filterMap_cons_none hd]
      | some d =>
        have hnone := Diagnostic.error?_eq_none.2 (hharmless d hd)
        rw [List.filterMap_cons_some hd, Diagnostic.firstError?, List.findSome?_cons, hnone]
        rfl
    rw [ih, Lexemes.ofCursor_read hc]
    simp only [reading] at hfirst ⊢
    rw [hfirst]
    cases Diagnostic.firstError?
      ((Lexemes.ofCursor c.read.2).list.filterMap (·.diagnostic? source)) with
    | some e => rfl
    | none => cases hskipped : c.read.1.token.isSkipped <;> simp [Except.map, hskipped]

end Definition

namespace Compiler

/-- A change of a compiler's macros. -/
inductive Call
  | add (name : String) (body : Option String)
  | remove (name : String)
  deriving DecidableEq, Repr

/-- The compiler after a call. A macro that cannot be added leaves it as it was. -/
def call (c : Compiler) : Call → Compiler
  | .add name body =>
    match c.addDefine name body with
    | .ok c' => c'
    | .error _ => c
  | .remove name => c.removeDefine name

def afterCalls (c : Compiler) (calls : List Call) : Compiler :=
  calls.foldl call c

/-- The display name of the text of a macro that is not in a source. -/
def defineName : String := "<define>"

/-- What is wrong with the text of a macro. -/
def bodyReports (body : Option String) : List Diagnostic :=
  Definition.reportsOf defineName (Text.bytes (body.getD defaultBody))

/-- Whether the macro can be added: its name is an identifier and its text has no error. -/
def accepts (name : String) (body : Option String) : Bool :=
  Identifier.isValid name && (bodyReports body).all (!·.isFatal)

/-- The macro that a name and a text make. -/
def defined (name : String) (body : Option String) : Definition :=
  { name, body := Definition.wordsOf (Text.bytes (body.getD defaultBody)) }

/-- Whether a call decides what is kept under the name. -/
def Call.decides (name : String) : Call → Bool
  | .add name' body => name' = name && accepts name' body
  | .remove name' => name' = name

/-- What a call that decides about the name leaves under it. -/
def Call.outcome (name : String) : Call → Option Definition
  | .add _ body => some (defined name body)
  | .remove _ => none

section Calls

variable (c : Compiler)

lemma addDefine_eq (name : String) (body : Option String) :
    c.addDefine name body =
      if Identifier.isValid name then
        match Diagnostic.firstError? (bodyReports body) with
        | some e => .error e
        | none => .ok { c with defines := c.defines.insert name (defined name body) }
      else .error (.invalidName name) := by
  unfold addDefine
  rw [Definition.capture_eq defineName]
  split
  · unfold bodyReports Definition.reportsOf Lexemes.ofBytes
    cases Diagnostic.firstError? _ <;> rfl
  · rfl

lemma accepts_iff {name : String} {body : Option String} :
    accepts name body = true ↔
      Identifier.isValid name = true ∧ ∀ d ∈ bodyReports body, d.isFatal = false := by
  simp [accepts]

lemma addDefine_of_accepts {name : String} {body : Option String} (h : accepts name body = true) :
    c.addDefine name body =
      .ok { c with defines := c.defines.insert name (defined name body) } := by
  obtain ⟨hname, hbody⟩ := accepts_iff.1 h
  rw [addDefine_eq, if_pos hname, Diagnostic.firstError?_eq_none.2 hbody]

lemma addDefine_ok_iff (name : String) (body : Option String) :
    (∃ c', c.addDefine name body = .ok c') ↔ accepts name body = true := by
  constructor
  · rintro ⟨c', hc'⟩
    rw [addDefine_eq] at hc'
    split at hc'
    next hname =>
      cases hfirst : Diagnostic.firstError? (bodyReports body) with
      | some e => simp [hfirst] at hc'
      | none => exact accepts_iff.2 ⟨hname, Diagnostic.firstError?_eq_none.1 hfirst⟩
    · simp at hc'
  · intro h
    exact ⟨_, c.addDefine_of_accepts h⟩

/-- Why a macro cannot be added: its name, or else the first error in its text. -/
theorem addDefine_error_iff (name : String) (body : Option String) (e : CompileError) :
    c.addDefine name body = .error e ↔
      (Identifier.isValid name = false ∧ e = .invalidName name) ∨
      (Identifier.isValid name = true ∧ ∃ earlier d later cause,
        bodyReports body = earlier ++ d :: later ∧ (∀ d' ∈ earlier, d'.isFatal = false) ∧
          d.problem = .error cause ∧ e = .located d.location cause) := by
  rw [addDefine_eq, ← Diagnostic.firstError?_eq_some]
  cases Identifier.isValid name with
  | false => simp [eq_comm]
  | true => cases Diagnostic.firstError? (bodyReports body) <;> simp

lemma call_get? (call : Call) (name : String) :
    (c.call call).defines.get? name =
      if call.decides name then call.outcome name else c.defines.get? name := by
  cases call with
  | remove name' =>
    simp only [Compiler.call, removeDefine, DefineTable.get?_erase, Call.decides, Call.outcome,
      decide_eq_true_eq, eq_comm (a := name')]
  | add name' body =>
    cases haccepts : accepts name' body with
    | true =>
      simp only [Compiler.call, c.addDefine_of_accepts haccepts, DefineTable.get?_insert,
        Call.decides, Call.outcome, haccepts, Bool.and_true, decide_eq_true_eq, eq_comm (a := name')]
      split
      next h => rw [h]
      · rfl
    | false =>
      have hfails : ¬∃ c', c.addDefine name' body = .ok c' := by
        rw [addDefine_ok_iff, haccepts]
        exact Bool.false_ne_true
      cases hadd : c.addDefine name' body with
      | ok c' => exact absurd ⟨c', hadd⟩ hfails
      | error e => simp [Compiler.call, hadd, Call.decides, haccepts]

lemma afterCalls_append (calls calls' : List Call) :
    c.afterCalls (calls ++ calls') = (c.afterCalls calls).afterCalls calls' :=
  List.foldl_append

lemma afterCalls_get? {calls : List Call} {name : String}
    (h : ∀ call ∈ calls, call.decides name = false) :
    (c.afterCalls calls).defines.get? name = c.defines.get? name := by
  induction calls generalizing c with
  | nil => rfl
  | cons call calls ih =>
    have hfirst : (c.call call).defines.get? name = c.defines.get? name := by
      rw [call_get?, h call List.mem_cons_self]
      rfl
    have hrest := ih (c.call call) fun call' h' => h call' (List.mem_cons_of_mem _ h')
    exact hrest.trans hfirst

end Calls

section History

variable {calls : List Call} {name : String}

/-- Either no call decides about the name, or one of them does and none after it. -/
lemma last_decision (calls : List Call) (name : String) :
    (∀ call ∈ calls, call.decides name = false) ∨
      ∃ before call after, calls = before ++ call :: after ∧ call.decides name = true ∧
        ∀ call' ∈ after, call'.decides name = false := by
  induction calls with
  | nil => exact .inl (by simp)
  | cons call calls ih =>
    rcases ih with hnone | ⟨before, last, after, rfl, hlast⟩
    · cases hcall : call.decides name with
      | true => exact .inr ⟨[], call, calls, rfl, hcall, hnone⟩
      | false => exact .inl (List.forall_mem_cons.2 ⟨hcall, hnone⟩)
    · exact .inr ⟨call :: before, last, after, rfl, hlast⟩

lemma afterCalls_decided (c : Compiler) {before after : List Call} {call : Call}
    (hcall : call.decides name = true) (hafter : ∀ call' ∈ after, call'.decides name = false) :
    (c.afterCalls (before ++ call :: after)).defines.get? name = call.outcome name := by
  have hlast := call_get? (c.afterCalls before) call name
  rw [if_pos hcall] at hlast
  rw [afterCalls_append]
  exact (afterCalls_get? ((c.afterCalls before).call call) hafter).trans hlast

lemma decides_add {name' : String} {body : Option String} :
    (Call.add name' body).decides name = true ↔ name' = name ∧ accepts name' body = true := by
  simp [Call.decides]

lemma get?_afterCalls (config : Config) (d : Definition) :
    (Compiler.afterCalls { config } calls).defines.get? name = some d ↔
      ∃ before body after, calls = before ++ .add name body :: after ∧ accepts name body = true ∧
        (∀ call ∈ after, call.decides name = false) ∧ d = defined name body := by
  constructor
  · intro hget
    rcases last_decision calls name with hnone | ⟨before, call, after, rfl, hcall, hafter⟩
    · rw [afterCalls_get? _ hnone] at hget
      cases hget
    · rw [afterCalls_decided _ hcall hafter] at hget
      cases call with
      | remove name' => cases hget
      | add name' body =>
        obtain ⟨rfl, haccepts⟩ := decides_add.1 hcall
        exact ⟨before, body, after, rfl, haccepts, hafter, (Option.some.inj hget).symm⟩
  · rintro ⟨before, body, after, rfl, haccepts, hafter, rfl⟩
    exact afterCalls_decided _ (decides_add.2 ⟨rfl, haccepts⟩) hafter

lemma isSome_afterCalls (config : Config) :
    ((Compiler.afterCalls { config } calls).defines.get? name).isSome = true ↔
      ∃ before body after, calls = before ++ .add name body :: after ∧ accepts name body = true ∧
        .remove name ∉ after := by
  rw [Option.isSome_iff_exists]
  constructor
  · rintro ⟨d, hd⟩
    obtain ⟨before, body, after, hcalls, haccepts, hafter, -⟩ := (get?_afterCalls config d).1 hd
    refine ⟨before, body, after, hcalls, haccepts, fun hremove => ?_⟩
    have hdecides := hafter _ hremove
    simp [Call.decides] at hdecides
  · rintro ⟨before, body, after, rfl, haccepts, hremove⟩
    rcases last_decision after name with hafter | ⟨between, call, later, rfl, hcall, hlater⟩
    · exact ⟨_, afterCalls_decided _ (decides_add.2 ⟨rfl, haccepts⟩) hafter⟩
    · have hsplit : before ++ .add name body :: (between ++ call :: later) =
          (before ++ .add name body :: between) ++ call :: later := by simp
      rw [hsplit, afterCalls_decided _ hcall hlater]
      cases call with
      | add name' body' => exact ⟨_, rfl⟩
      | remove name' =>
        obtain rfl : name' = name := by simpa [Call.decides] using hcall
        exact absurd (by simp) hremove

/-- A macro is added if its name is an identifier and its text has no error, and otherwise the name
or the first error of the text is the reason and all macros stay as they were. After any calls a
name has a macro if one was added under it that was not removed later, and it is what the last such
call made of its text: all its words, in order and with their places. -/
theorem macros_after_calls (config : Config) (calls : List Call) (name : String) :
    (∀ body,
      ((∃ c', (Compiler.afterCalls { config } calls).addDefine name body = .ok c') ↔
        Identifier.isValid name = true ∧ ∀ d ∈ bodyReports body, d.isFatal = false) ∧
      ∀ e, (Compiler.afterCalls { config } calls).addDefine name body = .error e →
        ((Identifier.isValid name = false ∧ e = .invalidName name) ∨
          (Identifier.isValid name = true ∧ ∃ earlier d later cause,
            bodyReports body = earlier ++ d :: later ∧ (∀ d' ∈ earlier, d'.isFatal = false) ∧
              d.problem = .error cause ∧ e = .located d.location cause)) ∧
        Compiler.afterCalls { config } (calls ++ [.add name body]) =
          Compiler.afterCalls { config } calls) ∧
    (((Compiler.afterCalls { config } calls).defines.get? name).isSome = true ↔
      ∃ before body after, calls = before ++ .add name body :: after ∧
        (∃ c', (Compiler.afterCalls { config } before).addDefine name body = .ok c') ∧
          .remove name ∉ after) ∧
    ∀ before body after, calls = before ++ .add name body :: after →
      (∃ c', (Compiler.afterCalls { config } before).addDefine name body = .ok c') →
      .remove name ∉ after →
      (∀ between body' later, after = between ++ .add name body' :: later → ∃ e,
        (Compiler.afterCalls { config } (before ++ .add name body :: between)).addDefine name body' =
          .error e) →
      (Compiler.afterCalls { config } calls).defines.get? name = some
        { name, body := Definition.wordsOf (Text.bytes (body.getD defaultBody)) } := by
  refine ⟨fun body => ⟨?_, fun e he => ⟨(addDefine_error_iff _ name body e).1 he, ?_⟩⟩, ?_, ?_⟩
  · rw [addDefine_ok_iff, accepts_iff]
  · rw [afterCalls_append]
    simp only [afterCalls, List.foldl_cons, List.foldl_nil, call] at he ⊢
    rw [he]
  · simp only [addDefine_ok_iff]
    exact isSome_afterCalls config
  · intro before body after hcalls hadded hremove hlast
    rw [addDefine_ok_iff] at hadded
    refine (get?_afterCalls config _).2 ⟨before, body, after, hcalls, hadded, ?_, rfl⟩
    intro call hcall
    cases call with
    | remove name' =>
      have hne : name' ≠ name := fun h => hremove (h ▸ hcall)
      simp [Call.decides, hne]
    | add name' body' =>
      by_contra hdecides
      obtain ⟨rfl, haccepts⟩ := decides_add.1 (Bool.eq_true_of_not_eq_false hdecides)
      obtain ⟨between, later, hafter⟩ := List.append_of_mem hcall
      obtain ⟨e, he⟩ := hlast between body' later hafter
      rw [addDefine_of_accepts _ haccepts] at he
      cases he

/-- A macro is added, two calls fail, and another name is removed. -/
def mixedCalls : List Call :=
  [.add "A" (some "x\ny"), .add "A" (some "$"), .add "1" none, .remove "B"]

theorem macros_after_calls_mixed :
    (∃ c', (Compiler.afterCalls {} []).addDefine "A" (some "x\ny") = .ok c') ∧
    (Compiler.afterCalls {} mixedCalls).defines.get? "A" = some
      { name := "A", body := [⟨⟨0, 0⟩, .identifier "x"⟩, ⟨⟨0, 1⟩, .newline⟩,
          ⟨⟨1, 0⟩, .identifier "y"⟩] } ∧
    (Compiler.afterCalls {} mixedCalls).addDefine "A" (some "$") =
      .error (.located .start (.lexical (.unexpectedCharacter "'$'"))) ∧
    Compiler.afterCalls {} (mixedCalls ++ [.add "A" (some "$")]) =
      Compiler.afterCalls {} mixedCalls := by
  obtain ⟨hadds, -, hlast⟩ := macros_after_calls {} mixedCalls "A"
  have hadded : ∃ c', (Compiler.afterCalls {} []).addDefine "A" (some "x\ny") = .ok c' := by
    rw [addDefine_ok_iff]
    decide +kernel
  have hrefused : (Compiler.afterCalls {} mixedCalls).addDefine "A" (some "$") =
      .error (.located .start (.lexical (.unexpectedCharacter "'$'"))) := by
    decide +kernel
  refine ⟨hadded, ?_, hrefused, ((hadds (some "$")).2 _ hrefused).2⟩
  refine (hlast [] (some "x\ny") mixedCalls.tail rfl hadded (by decide) ?_).trans (by decide +kernel)
  intro between body' later hafter
  rcases between with _ | ⟨_, _ | ⟨_, _ | ⟨_, between⟩⟩⟩
  · obtain ⟨⟨-, rfl⟩, -⟩ : ("A" = "A" ∧ some "$" = body') ∧ _ := by simpa [mixedCalls] using hafter
    exact ⟨.located .start (.lexical (.unexpectedCharacter "'$'")), by decide +kernel⟩
  all_goals simp [mixedCalls] at hafter

end History

end Compiler

end Shading
