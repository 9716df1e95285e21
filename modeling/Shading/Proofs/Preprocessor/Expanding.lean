import Shading.Proofs.Condition.Expansion
import Shading.Proofs.Preprocessor.Reachable
import Shading.Proofs.Preprocessor.Run

/-!
# Macros in text and in conditions

Text is expanded by a stack of open expansions, conditions by a recursion. Both put the same
tokens in place of a line and leave out the same calls.
-/

namespace Shading

/-- The name and the limit of a report that a macro exceeds the limit. -/
def Diagnostic.tooDeep? (d : Diagnostic) : Option (String × Nat) :=
  match d.problem with
  | .error (.expansionTooDeep name limit) => some (name, limit)
  | _ => none

namespace Condition

variable {table : DefineTable} {disabled : List String} {t : Token}

lemma calledMacro?_keyed (htable : table.IsKeyed) {d : Definition}
    (h : calledMacro? table disabled t = some d) :
    t = .identifier d.name ∧ table.get? d.name = some d := by
  cases t with
  | identifier name =>
    simp only [calledMacro?, ite_eq_iff, reduceCtorEq, and_false, false_or] at h
    obtain rfl := htable name d h.2
    exact ⟨rfl, h.2⟩
  | _ => cases h

lemma leaveOut_ne_eof (htable : table.IsSound) (room : Nat) (ht : t ≠ .eof) :
    ∀ u ∈ (leaveOut table room disabled t).1, u ≠ .eof := by
  induction room generalizing disabled t with
  | zero =>
    unfold leaveOut
    cases calledMacro? table disabled t <;> simp [ht]
  | succ room ih =>
    unfold leaveOut
    cases hcall : calledMacro? table disabled t with
    | none => simp [ht]
    | some d =>
      intro u hu
      obtain ⟨w, hw, hu⟩ := List.mem_flatMap.1 hu
      obtain ⟨b, hb, rfl⟩ := List.mem_map.1 (List.mem_filter.1 hw).1
      have hbody := (htable _ d (calledMacro?_keyed htable.isKeyed hcall).2).2 b hb
      exact ih hbody.1 u hu

end Condition

namespace Preprocessor

open Condition

def expanding (p : Preprocessor) : List String :=
  p.expansions.map (·.name)

def tooDeep (p : Preprocessor) (location : Location) (name : String) : Diagnostic :=
  { source := p.currentName, location, token := .identifier name
    problem := .error (.expansionTooDeep name p.limits.expansion) }

/-- The tokens that a token stands for with room for this many nested expansions. -/
def placed (p : Preprocessor) (room : Nat) (t : LocatedToken) : List LocatedToken :=
  (leaveOut p.defines room p.expanding t.token).1.map fun u => ⟨t.location, u⟩

/-- The reports of the calls that a token leads to and that are left out. -/
def refused (p : Preprocessor) (room : Nat) (t : LocatedToken) : List Diagnostic :=
  (leaveOut p.defines room p.expanding t.token).2.map (p.tooDeep t.location)

section Placing

variable {fs : FileSystem} {p : Preprocessor}

lemma contains_expanding (p : Preprocessor) (name : String) :
    p.expanding.contains name = p.isExpanding name := by
  rw [isExpanding, expanding, List.contains_eq_any_beq, List.any_map]
  congr 1
  funext e
  exact BEq.comm

lemma calledMacro?_eq (hp : p.defines.IsKeyed) (t : Token) :
    p.calledMacro? t =
      (Condition.calledMacro? p.defines p.expanding t).map fun d => (d.name, d) := by
  cases t with
  | identifier name =>
    unfold calledMacro? Condition.calledMacro?
    simp only [← contains_expanding]
    cases p.expanding.contains name with
    | true => rfl
    | false =>
      cases hget : p.defines.get? name with
      | none => simp
      | some d => simp [hp name d hget]
  | _ => rfl

lemma body_run {room : Nat}
    (ih : ∀ (q : Preprocessor) (t : LocatedToken), q.defines.IsKeyed →
      q.expansions.length + room = q.limits.expansion →
        Follows fs (q.place t) (q.placed room t) (q.noteAll (q.refused room t)))
    (hp : p.defines.IsKeyed) (hroom : p.expansions.length + 1 + room = p.limits.expansion)
    (name : String) (location : Location) (rest : List Token) :
    Run fs { p with expansions := ⟨name, location, rest⟩ :: p.expansions }
      (((rest.filter (· != .newline)).flatMap fun t =>
        (leaveOut p.defines room (name :: p.expanding) t).1).map fun u => ⟨location, u⟩)
      (p.noteAll (((rest.filter (· != .newline)).flatMap fun t =>
        (leaveOut p.defines room (name :: p.expanding) t).2).map (p.tooDeep location))) := by
  induction rest generalizing p with
  | nil =>
    refine .proceed rfl ?_
    rw [List.filter_nil, List.flatMap_nil, List.flatMap_nil, List.map_nil, List.map_nil, noteAll_nil]
    exact .done p
  | cons t rest ihrest =>
    by_cases ht : t = .newline
    · subst ht
      exact .proceed rfl (ihrest hp hroom)
    · have hfilter : (t :: rest).filter (· != .newline) = t :: rest.filter (· != .newline) :=
        List.filter_cons_of_pos (by simpa using ht)
      have hstep : ({ p with expansions := ⟨name, location, t :: rest⟩ :: p.expansions } :
          Preprocessor).step fs =
            ({ p with expansions := ⟨name, location, rest⟩ :: p.expansions } :
              Preprocessor).place ⟨location, t⟩ :=
        if_neg ht
      have hplace := ih { p with expansions := ⟨name, location, rest⟩ :: p.expansions }
        ⟨location, t⟩ hp hroom
      rw [← hstep] at hplace
      rw [hfilter, List.flatMap_cons, List.flatMap_cons, List.map_append, List.map_append,
        ← noteAll_noteAll]
      refine hplace.run.trans ?_
      exact ihrest (p := p.noteAll _) hp hroom

/-- A token is placed by the steps that follow as conditions expand it. -/
theorem place_follows (fs : FileSystem) (room : Nat) (hp : p.defines.IsKeyed)
    (hroom : p.expansions.length + room = p.limits.expansion) (t : LocatedToken) :
    Follows fs (p.place t) (p.placed room t) (p.noteAll (p.refused room t)) := by
  induction room generalizing p t with
  | zero =>
    unfold place placed refused leaveOut
    rw [calledMacro?_eq hp]
    cases hcall : Condition.calledMacro? p.defines p.expanding t.token with
    | none =>
      refine ⟨[], rfl, ?_⟩
      rw [List.map_nil, noteAll_nil]
      exact .done p
    | some d =>
      simp only [Option.map_some]
      rw [if_pos (by omega), error, report_eq_noteAll, (calledMacro?_keyed hp hcall).1]
      exact .done _
  | succ room ih =>
    unfold place placed refused leaveOut
    rw [calledMacro?_eq hp]
    cases hcall : Condition.calledMacro? p.defines p.expanding t.token with
    | none =>
      refine ⟨[], rfl, ?_⟩
      rw [List.map_nil, noteAll_nil]
      exact .done p
    | some d =>
      simp only [Option.map_some]
      rw [if_neg (by omega)]
      exact body_run (fun q u hq hqroom => ih hq hqroom u) hp (by omega) d.name t.location _

/-! ### Lines -/

/-- The tokens that the words of a line stand for. -/
def lineTokens (p : Preprocessor) (line : List Lexeme) : List LocatedToken :=
  ((line.filter (!·.token.isSkipped)).map (·.located)).flatMap (p.placed p.limits.expansion)

/-- The faults of a line and the reports of the calls in it that are left out. -/
def lineReports (p : Preprocessor) (line : List Lexeme) : List Diagnostic :=
  line.flatMap fun x => (x.diagnostic? p.currentName).toList ++
    if x.token.isSkipped then [] else p.refused p.limits.expansion x.located

/-- The state behind a line of the current source, with `rest` behind it. -/
def afterLine (p : Preprocessor) (line rest : List Lexeme) (reports : List Diagnostic) :
    Preprocessor :=
  (p.mapTop fun f =>
    { f with lexemes := rest, atLineStart := f.atLineStart && line.all (·.token.isSkipped) }).noteAll
      reports

lemma step_eq_stepLexeme (fs : FileSystem) {f : Frame} {outer : List Frame} {x : Lexeme}
    {rest : List Lexeme} (hexpansions : p.expansions = []) (hp : p.frames = f :: outer)
    (hf : f.lexemes = x :: rest) : p.step fs = p.stepLexeme fs f outer x rest := by
  unfold step
  rw [hexpansions, hp]
  simp only
  rw [hf]

lemma lineTokens_cons (p : Preprocessor) (x : Lexeme) (line : List Lexeme) :
    p.lineTokens (x :: line) =
      (if x.token.isSkipped then [] else p.placed p.limits.expansion x.located) ++
        p.lineTokens line := by
  by_cases hskipped : x.token.isSkipped = true
  · simp [lineTokens, hskipped]
  · simp [lineTokens, hskipped]

section Lexeme

variable {f : Frame} {outer : List Frame} (hframes : p.frames = f :: outer)

include hframes

lemma afterLine_afterLexeme (x : Lexeme) (line lexemes rest : List Lexeme)
    (refusals reports : List Diagnostic) :
    ((p.afterLexeme f outer x lexemes (f.atLineStart && x.token.isSkipped)).noteAll
        refusals).afterLine line rest reports =
      p.afterLine (x :: line) rest
        ((x.diagnostic? p.currentName).toList ++ refusals ++ reports) := by
  obtain ⟨limits, mainName, defines, frames, expansions, lookahead, finished, log⟩ := p
  subst hframes
  have hfaults (name : String) :
      [x].filterMap (·.diagnostic? name) = (x.diagnostic? name).toList := by
    cases hx : x.diagnostic? name <;> simp [hx]
  simp only [afterLine, afterLexeme, mapTop, noteAll, noteFaults, hfaults, List.all_cons,
    Bool.and_assoc, ← List.append_toArray, ← Array.append_assoc]

lemma afterLexeme_line (x : Lexeme) (lexemes : List Lexeme) (atLineStart : Bool)
    (refusals : List Diagnostic) (line : List Lexeme) :
    ((p.afterLexeme f outer x lexemes atLineStart).noteAll refusals).lineTokens line =
        p.lineTokens line ∧
      ((p.afterLexeme f outer x lexemes atLineStart).noteAll refusals).lineReports line =
        p.lineReports line := by
  obtain ⟨limits, mainName, defines, frames, expansions, lookahead, finished, log⟩ := p
  subst hframes
  exact ⟨rfl, rfl⟩

lemma afterLine_nil {rest : List Lexeme} (hf : f.lexemes = [] ++ rest) :
    p.afterLine [] rest [] = p := by
  obtain ⟨limits, mainName, defines, frames, expansions, lookahead, finished, log⟩ := p
  rw [List.nil_append] at hf
  subst hframes hf
  simp [afterLine, mapTop]

lemma lexeme_follows (fs : FileSystem) (hp : p.defines.IsKeyed) (hexpansions : p.expansions = [])
    (hactive : f.isActive = true) {x : Lexeme} {rest : List Lexeme}
    (hlexemes : f.lexemes = x :: rest) (hbreak : x.token ≠ .newline)
    (hhash : ¬x.token.isSkipped = true → ¬(x.token = .punct .hash && f.atLineStart) = true) :
    Follows fs (p.step fs)
      (if x.token.isSkipped then [] else p.placed p.limits.expansion x.located)
      ((p.afterLexeme f outer x rest (f.atLineStart && x.token.isSkipped)).noteAll
        (if x.token.isSkipped then [] else p.refused p.limits.expansion x.located)) := by
  rw [step_eq_stepLexeme fs hexpansions hframes hlexemes, stepLexeme]
  by_cases hskipped : x.token.isSkipped = true
  · rw [if_pos hskipped, if_pos hskipped, if_pos hskipped, hskipped, Bool.and_true, noteAll_nil]
    exact .done _
  · rw [if_neg hskipped, if_neg hskipped, if_neg hskipped, if_neg hbreak, if_neg (hhash hskipped),
      if_pos hactive]
    have hplaced := place_follows fs (p := p.afterLexeme f outer x rest false) p.limits.expansion hp
      (by simp [afterLexeme, noteFaults, hexpansions]) x.located
    have hrefused : (p.afterLexeme f outer x rest false).refused p.limits.expansion x.located =
        p.refused p.limits.expansion x.located := by
      obtain ⟨limits, mainName, defines, frames, expansions, lookahead, finished, log⟩ := p
      subst hframes
      rfl
    rw [hrefused] at hplaced
    rw [Bool.not_eq_true] at hskipped
    rw [hskipped, Bool.and_false]
    exact hplaced

end Lexeme

/-- If the lexemes begin a line, their first word is no hash. -/
def NoHash (atLineStart : Bool) (line : List Lexeme) : Prop :=
  atLineStart = true →
    ((line.filter (!·.token.isSkipped)).map (·.token)).head? ≠ some (.punct .hash)

lemma NoHash.head {x : Lexeme} {line : List Lexeme} {atLineStart : Bool}
    (h : NoHash atLineStart (x :: line)) (hx : ¬x.token.isSkipped = true) :
    ¬(x.token = .punct .hash && atLineStart) = true := by
  intro hhash
  obtain ⟨htoken, hstart⟩ := Bool.and_eq_true_iff.1 hhash
  have hfirst : (((x :: line).filter (!·.token.isSkipped)).map (·.token)).head? =
      some x.token := by
    simp [hx]
  exact h hstart (hfirst.trans (congrArg some (of_decide_eq_true htoken)))

lemma NoHash.tail {x : Lexeme} {line : List Lexeme} {atLineStart : Bool}
    (h : NoHash atLineStart (x :: line)) : NoHash (atLineStart && x.token.isSkipped) line := by
  intro hstart
  obtain ⟨hstart, hskipped⟩ := Bool.and_eq_true_iff.1 hstart
  simpa [hskipped] using h hstart

/-- The words of a line of text are placed one after the other. -/
theorem line_run (hp : p.defines.IsKeyed) (hexpansions : p.expansions = []) {f : Frame}
    {outer : List Frame} (hframes : p.frames = f :: outer) (hactive : f.isActive = true)
    {line rest : List Lexeme} (hlexemes : f.lexemes = line ++ rest)
    (hbreaks : ∀ x ∈ line, x.token ≠ .newline) (hhash : NoHash f.atLineStart line) :
    Run fs p (p.lineTokens line) (p.afterLine line rest (p.lineReports line)) := by
  induction line generalizing p f with
  | nil =>
    rw [lineReports, List.flatMap_nil, afterLine_nil hframes hlexemes]
    exact .done p
  | cons x line ih =>
    have hfollows := lexeme_follows hframes fs hp hexpansions hactive hlexemes
      (hbreaks x List.mem_cons_self) hhash.head
    have hbreaks' : ∀ y ∈ line, y.token ≠ .newline := by
      intro y hy
      exact hbreaks y (List.mem_cons_of_mem x hy)
    have hline := ih (p := (p.afterLexeme f outer x (line ++ rest)
        (f.atLineStart && x.token.isSkipped)).noteAll
          (if x.token.isSkipped then [] else p.refused p.limits.expansion x.located))
      hp hexpansions rfl hactive rfl hbreaks' hhash.tail
    obtain ⟨htokens, hreports⟩ := afterLexeme_line hframes x (line ++ rest)
      (f.atLineStart && x.token.isSkipped)
      (if x.token.isSkipped then [] else p.refused p.limits.expansion x.located) line
    rw [htokens, hreports, afterLine_afterLexeme hframes] at hline
    rw [lineTokens_cons, lineReports, List.flatMap_cons]
    exact hfollows.run.trans hline

end Placing

/-- The state reads these tokens as a line of text that counts, with `rest` behind it. -/
structure ReadsLine (p : Preprocessor) (ts : List Token) (line rest : List Lexeme) : Prop where
  lookahead : p.lookahead = none
  expansions : p.expansions = []
  active : p.isActive = true
  lexemes : p.lexemes = line ++ rest
  words : (line.filter (!·.token.isSkipped)).map (·.token) = ts
  breaks : .newline ∉ ts
  ends : .eof ∉ ts
  directive : ts.head? ≠ some (.punct .hash)

section ReadsLine

variable {p : Preprocessor} {ts : List Token} {line rest : List Lexeme}

lemma ReadsLine.mem (h : p.ReadsLine ts line rest) {x : Lexeme} (hx : x ∈ line) :
    x.token ≠ .newline ∧ (x.token.isSkipped = false → x.token ∈ ts) := by
  have hmem (hskipped : x.token.isSkipped = false) : x.token ∈ ts := by
    rw [← h.words]
    exact List.mem_map_of_mem (List.mem_filter.2 ⟨hx, by simp [hskipped]⟩)
  refine ⟨?_, hmem⟩
  intro hnewline
  have hbreak := hmem (by rw [hnewline]; rfl)
  rw [hnewline] at hbreak
  exact h.breaks hbreak

lemma ReadsLine.run (h : p.ReadsLine ts line rest) (hp : p.defines.IsSound) (fs : FileSystem) :
    Run fs p (p.lineTokens line) (p.afterLine line rest (p.lineReports line)) := by
  have hlexemes := h.lexemes
  have hactive := h.active
  unfold Preprocessor.lexemes at hlexemes
  unfold isActive at hactive
  split at hlexemes
  next hframes =>
    obtain ⟨rfl, rfl⟩ := List.append_eq_nil_iff.1 hlexemes.symm
    have hsame : p.afterLine [] [] (p.lineReports []) = p := by
      simp [afterLine, mapTop, hframes, lineReports]
    rw [hsame]
    exact .done p
  next f outer hframes =>
    rw [hframes] at hactive
    refine line_run hp.isKeyed h.expansions hframes hactive hlexemes (fun x hx => (h.mem hx).1) ?_
    intro _
    rw [h.words]
    exact h.directive

lemma ReadsLine.lineTokens_ne_eof (h : p.ReadsLine ts line rest) (hp : p.defines.IsSound) :
    ∀ t ∈ p.lineTokens line, t.token ≠ .eof := by
  intro t ht
  obtain ⟨word, hword, ht⟩ := List.mem_flatMap.1 ht
  obtain ⟨x, hx, rfl⟩ := List.mem_map.1 hword
  obtain ⟨u, hu, rfl⟩ := List.mem_map.1 ht
  obtain ⟨hline, hskipped⟩ := List.mem_filter.1 hx
  refine leaveOut_ne_eof hp _ ?_ u hu
  intro heof
  have hmem := (h.mem hline).2 (by simpa using hskipped)
  rw [show x.token = .eof from heof] at hmem
  exact h.ends hmem

lemma ReadsLine.delivers (h : p.ReadsLine ts line rest) (hp : p.defines.IsSound)
    (fs : FileSystem) :
    Delivers fs p (p.lineTokens line) (p.afterLine line rest (p.lineReports line)) :=
  (h.run hp fs).delivers h.lookahead (h.lineTokens_ne_eof hp)

lemma ReadsLine.lineTokens (h : p.ReadsLine ts line rest) :
    (p.lineTokens line).map (·.token) =
      ts.flatMap fun t => (leaveOut p.defines p.limits.expansion [] t).1 := by
  have hexpanding : p.expanding = [] := by rw [expanding, h.expansions, List.map_nil]
  rw [Preprocessor.lineTokens, ← h.words]
  simp [placed, hexpanding, List.map_flatMap, List.flatMap_map, Function.comp_def,
    Lexeme.located]

lemma tooDeep?_fault (source : String) (x : Lexeme) :
    ∀ d ∈ x.diagnostic? source, d.tooDeep? = none := by
  intro d hd
  obtain ⟨fault, _, rfl⟩ := Option.map_eq_some_iff.1 hd
  cases fault <;> rfl

lemma ReadsLine.lineReports (h : p.ReadsLine ts line rest) :
    (p.lineReports line).filterMap (·.tooDeep?) =
      (ts.flatMap fun t => (leaveOut p.defines p.limits.expansion [] t).2).map
        fun name => (name, p.limits.expansion) := by
  have hexpanding : p.expanding = [] := by rw [expanding, h.expansions, List.map_nil]
  rw [Preprocessor.lineReports, ← h.words]
  clear h
  induction line with
  | nil => rfl
  | cons x line ih =>
    have hfault : (x.diagnostic? p.currentName).toList.filterMap (·.tooDeep?) = [] := by
      apply List.filterMap_eq_nil_iff.2
      intro d hd
      exact tooDeep?_fault p.currentName x d (Option.mem_toList.1 hd)
    rw [List.flatMap_cons, List.filterMap_append, List.filterMap_append, hfault, ih]
    cases hskipped : x.token.isSkipped with
    | true => simp [hskipped]
    | false =>
      have hrefused : (p.refused p.limits.expansion x.located).filterMap (·.tooDeep?) =
          (leaveOut p.defines p.limits.expansion [] x.token).2.map
            fun name => (name, p.limits.expansion) := by
        have hsome : (fun d => d.tooDeep?) ∘ p.tooDeep x.located.location =
            some ∘ fun name => (name, p.limits.expansion) := rfl
        rw [refused, hexpanding, List.filterMap_map, hsome, List.filterMap_eq_map]
        rfl
      simp [hskipped, hrefused]

end ReadsLine

lemma isSound_withoutBreaks {table : DefineTable} (h : table.IsSound) :
    table.withoutBreaks.IsSound := by
  intro name d hd
  rw [DefineTable.get?_withoutBreaks] at hd
  obtain ⟨e, he, rfl⟩ := Option.map_eq_some_iff.1 hd
  obtain ⟨hname, hbody⟩ := h name e he
  exact ⟨hname, fun t ht => hbody t (List.mem_filter.1 ht).1⟩

def withDefines (p : Preprocessor) (table : DefineTable) : Preprocessor :=
  { p with defines := table }

/-- A line of text is expanded as a condition would be. The same tokens are delivered, and the
first call that is left out is the one at which the condition fails. Line breaks in the macros
make no difference. -/
theorem line_expands {table : DefineTable} (htable : table.Reachable) (fs : FileSystem)
    (p : Preprocessor) {ts : List Token} {line rest : List Lexeme}
    (h : p.ReadsLine ts line rest) :
    ∃ delivered reports,
      (∀ macros, macros = table ∨ macros = table.withoutBreaks →
        Delivers fs (p.withDefines macros) delivered
          ((p.withDefines macros).afterLine line rest reports) ∧
        expand macros p.limits.expansion ts = expand table p.limits.expansion ts) ∧
      match expand table p.limits.expansion ts with
      | .ok out => delivered.map (·.token) = out ∧ ∀ d ∈ reports, d.tooDeep? = none
      | .error e => ∃ name, e = .expansionTooDeep name p.limits.expansion ∧
          (reports.filterMap (·.tooDeep?)).head? = some (name, p.limits.expansion) := by
  have hsound := htable.isSound
  have hp : (p.withDefines table).ReadsLine ts line rest := { h with }
  refine ⟨(p.withDefines table).lineTokens line, (p.withDefines table).lineReports line, ?_, ?_⟩
  · rintro macros (rfl | rfl)
    · exact ⟨hp.delivers hsound fs, rfl⟩
    · have hq : (p.withDefines table.withoutBreaks).ReadsLine ts line rest := { h with }
      have hplaced (room : Nat) : (p.withDefines table.withoutBreaks).placed room =
          (p.withDefines table).placed room := by
        funext t
        simp only [placed, withDefines, leaveOut_withoutBreaks]
        rfl
      have htokens : (p.withDefines table.withoutBreaks).lineTokens line =
          (p.withDefines table).lineTokens line := by
        rw [lineTokens, lineTokens, hplaced]
        rfl
      have hreports : (p.withDefines table.withoutBreaks).lineReports line =
          (p.withDefines table).lineReports line := by
        simp only [lineReports, refused, withDefines, leaveOut_withoutBreaks]
        rfl
      have hdelivers := hq.delivers (isSound_withoutBreaks hsound) fs
      rw [htokens, hreports] at hdelivers
      exact ⟨hdelivers, expand_withoutBreaks _ _ _⟩
  · have hagrees := expand_agrees table p.limits.expansion ts
    have htokens := hp.lineTokens
    have hreports := hp.lineReports
    cases hexpand : expand table p.limits.expansion ts with
    | ok out =>
      rw [hexpand] at hagrees
      obtain ⟨hout, hnames⟩ := Prod.mk.inj hagrees
      refine ⟨htokens.trans hout, List.filterMap_eq_nil_iff.1 (hreports.trans ?_)⟩
      exact (congrArg (List.map _) hnames).trans List.map_nil
    | error e =>
      rw [hexpand] at hagrees
      obtain ⟨name, hhead, he⟩ := hagrees
      refine ⟨name, he, ?_⟩
      rw [hreports, List.head?_map]
      exact congrArg (Option.map _) hhead

/-- A macro that stands for itself and a number. -/
def selfReferring : DefineTable :=
  { entries := [("A", { name := "A", body := [⟨.start, .identifier "A"⟩, ⟨⟨0, 2⟩, .int 1⟩] })] }

lemma selfReferring_reachable : selfReferring.Reachable := by
  have hname : Cursor.read { rest := Text.bytes "A 1" } =
      ({ location := .start, token := .identifier "A" },
        { location := ⟨0, 1⟩, rest := Text.bytes " 1" }) := by
    decide +kernel
  have hblank : Cursor.read { location := ⟨0, 1⟩, rest := Text.bytes " 1" } =
      ({ location := ⟨0, 1⟩, token := .blank }, { location := ⟨0, 2⟩, rest := Text.bytes "1" }) := by
    decide +kernel
  have hnumber : Cursor.read { location := ⟨0, 2⟩, rest := Text.bytes "1" } =
      ({ location := ⟨0, 2⟩, token := .int 1 }, { location := ⟨0, 3⟩, rest := [] }) := by
    decide +kernel
  have hend : Definition.capture { location := ⟨0, 3⟩, rest := [] } = .ok [] := by
    rw [Definition.capture, dif_pos rfl]
  have hcapture : Definition.capture { rest := Text.bytes "A 1" } =
      .ok [⟨.start, .identifier "A"⟩, ⟨⟨0, 2⟩, .int 1⟩] := by
    rw [Definition.capture_read (by decide +kernel) hname rfl,
      Definition.capture_read (by decide +kernel) hblank rfl,
      Definition.capture_read (by decide +kernel) hnumber rfl, hend]
    rfl
  have hadd : Compiler.addDefine {} "A" (some "A 1") = .ok { defines := selfReferring } := by
    unfold Compiler.addDefine
    rw [if_pos (by decide +kernel), Option.getD_some, hcapture]
    rfl
  exact ⟨.empty, _, .start (.addDefine (.new {}) hadd) (.ofBytes "" []), rfl⟩

/-- A state that reads a line with the name of a macro. -/
def readingName : Preprocessor :=
  { limits := { expansion := 1 }, mainName := "", defines := {}
    frames := [{ source := .ofBytes "" [], file := none, stop := .start
                 lexemes := [{ location := .start, token := .identifier "A" }] }] }

theorem line_expands_selfReferring :
    selfReferring.Reachable ∧
      readingName.ReadsLine [.identifier "A"] [{ location := .start, token := .identifier "A" }] [] ∧
      ∃ delivered : List LocatedToken, ∃ reports,
        Delivers .empty (readingName.withDefines selfReferring) delivered
          ((readingName.withDefines selfReferring).afterLine
            [{ location := .start, token := .identifier "A" }] [] reports) ∧
        delivered.map (·.token) = [.identifier "A", .int 1] := by
  have h : readingName.ReadsLine [.identifier "A"]
      [{ location := .start, token := .identifier "A" }] [] := by
    constructor <;> decide
  obtain ⟨delivered, reports, hdelivers, hexpand⟩ :=
    line_expands selfReferring_reachable .empty readingName h
  exact ⟨selfReferring_reachable, h, delivered, reports, (hdelivers _ (.inl rfl)).1, hexpand.1⟩

end Preprocessor

end Shading
