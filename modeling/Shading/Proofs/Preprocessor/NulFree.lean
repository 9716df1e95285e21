import Shading.Proofs.Condition.Refusals
import Shading.Proofs.Lexeme.NulFree
import Shading.Proofs.Preprocessor.Reachable

/-!
# Preprocessing without NUL

Diagnostics are made of texts of the source, its macros and names, and of texts that are always the same.
So preprocessing bytes without NUL reports nothing that holds one. Bytes include no files, whose names and
contents could.
-/

namespace Shading

open Text

/-- Neither the source of a diagnostic nor what it says holds a NUL. -/
def Diagnostic.IsNulFree (d : Diagnostic) : Prop :=
  NulFree d.source ∧ NulFree d.problem.message

lemma Lexeme.IsNulFree.diagnostic {x : Lexeme} (hx : x.IsNulFree) {source : String} (hsource : NulFree source)
    {d : Diagnostic} (h : x.diagnostic? source = some d) : d.IsNulFree := by
  obtain ⟨fault, hfault, rfl⟩ := Option.map_eq_some_iff.1 h
  refine ⟨hsource, ?_⟩
  cases fault with
  | error cause => exact hx.2 cause hfault
  | overflow type =>
    have htext : NulFree (Warning.constantOverflow type).message := by cases type <;> decide
    exact htext

/-- No word of the macro holds a NUL, nor does its name. -/
def Definition.IsNulFree (m : Definition) : Prop :=
  NulFree m.name ∧ ∀ t ∈ m.body, NulFree t.token.text

namespace DefineTable

def IsNulFree (table : DefineTable) : Prop :=
  ∀ name m, table.get? name = some m → m.IsNulFree

variable {table : DefineTable}

lemma IsNulFree.insert (h : table.IsNulFree) {m : Definition} (hm : m.IsNulFree) (name : String) :
    (table.insert name m).IsNulFree := by
  intro other m' hm'
  rw [get?_insert] at hm'
  split at hm'
  · obtain rfl := Option.some.inj hm'
    exact hm
  · exact h other m' hm'

lemma IsNulFree.erase (h : table.IsNulFree) (name : String) : (table.erase name).IsNulFree := by
  intro other m hm
  rw [get?_erase] at hm
  split at hm
  · cases hm
  · exact h other m hm

end DefineTable

lemma nulFree_expansionTooDeep {name : String} (h : NulFree name) (limit : Nat) :
    NulFree (CompileError.expansionTooDeep name limit).message := by
  suffices htext : NulFree
      ("Macro " ++ quoted name ++ " exceeds the expansion limit of " ++ toString limit) from htext
  simp +decide [nulFree_quoted, h]

lemma Condition.value_nulFree {table : DefineTable} (htable : table.IsNulFree) {limit : Nat} {ts : List Token}
    (hts : ∀ t ∈ ts, NulFree t.text) {e : CompileError} (h : value table limit ts = .error e) :
    NulFree e.message := by
  have hword {t : Token} (h : IsMacroWord table t) : NulFree t.text := by
    obtain ⟨name, m, hm, ht⟩ := h
    obtain ⟨u, hu, rfl⟩ := List.mem_map.1 (List.mem_of_mem_filter ht)
    exact (htable name m hm).2 u hu
  rcases value_refused h with ⟨key, m, hm, rfl⟩ | ⟨cause, rfl, hcause⟩
  · exact nulFree_expansionTooDeep (htable key m hm).1 limit
  show NulFree cause.message
  cases cause with
  | unexpectedToken text =>
    suffices hquoted : NulFree ("Unexpected " ++ quoted text ++ " in #if expression") from hquoted
    have htext : NulFree text := by
      obtain ⟨t, rfl, ht | ⟨isDefined, rfl⟩ | ht⟩ := hcause text rfl
      · exact hts t ht
      · cases isDefined <;> decide
      · exact hword ht
    simp +decide [nulFree_quoted, htext]
  | unsupportedOperator op =>
    suffices hquoted : NulFree ("Unsupported operator " ++ quoted op.spelling) from hquoted
    simp +decide [nulFree_quoted, op.nulFree_spelling]
  | _ => decide

/-- The outcome is as it should be, or a rejection that is said without NUL. -/
def Admits {α : Type} (P : α → Prop) : Except Rejection α → Prop
  | .ok a => P a
  | .error r => NulFree r.cause.message

section Admits

variable {α β : Type} {P : α → Prop} {Q : β → Prop} {outcome : Except Rejection α}

lemma Admits.bind (h : Admits P outcome) {f : α → Except Rejection β} (hf : ∀ a, P a → Admits Q (f a)) :
    Admits Q (outcome >>= f) := by
  cases outcome with
  | ok a => exact hf a h
  | error r => exact h

lemma Admits.of_ok (h : Admits P outcome) {a : α} (ha : outcome = .ok a) : P a := by
  rwa [ha] at h

lemma Admits.of_error (h : Admits P outcome) {r : Rejection} (hr : outcome = .error r) :
    NulFree r.cause.message := by
  rwa [hr] at h

end Admits

namespace Directive

/-- Neither the name of a directive nor what follows it holds a NUL. -/
structure IsNulFree (d : Directive) : Prop where
  name : NulFree d.name
  args : ∀ t ∈ d.args, NulFree t.token.text

variable {d : Directive} {table : DefineTable}

lemma IsNulFree.macroName (h : d.IsNulFree) : Admits NulFree d.macroName := by
  have hexpected : NulFree "Expected identifier after #" := by decide
  have hrefused : NulFree ("Expected identifier after #" ++ d.name) := nulFree_append.2 ⟨hexpected, h.name⟩
  unfold Directive.macroName
  split
  next hargs => exact h.args _ (by rw [hargs]; exact List.mem_cons_self)
  · exact hrefused
  · exact hrefused

lemma IsNulFree.includedName (h : d.IsNulFree) :
    Admits (fun included => NulFree included.2) d.includedName := by
  have hmalformed : NulFree "Expected \"file\" or <file> after #include" := by decide
  unfold Directive.includedName
  split
  next location name hargs =>
    have hquoted : NulFree (quoted name) := h.args ⟨location, .string name⟩ (by simp [hargs])
    exact nulFree_quoted.1 hquoted
  next first second rest hargs =>
    dsimp only
    split
    · refine nulFree_join fun text htext => ?_
      obtain ⟨t, ht, rfl⟩ := List.mem_map.1 htext
      apply h.args
      rw [hargs]
      exact List.mem_cons_of_mem _ (List.dropLast_subset _ ht)
    · exact hmalformed
  · exact hmalformed

lemma IsNulFree.definition (h : d.IsNulFree) : Admits Definition.IsNulFree d.definition := by
  have hargs : ∀ t ∈ d.args.drop 1, NulFree t.token.text := fun t ht => h.args t (List.mem_of_mem_drop ht)
  have hparenthesis {name : String} (hname : NulFree name) {location nameEnd : Location}
      {body : List LocatedToken} (hbody : ∀ t ∈ body, NulFree t.token.text) :
      Admits Definition.IsNulFree (if location = nameEnd then
        throw (Rejection.directive location (.punct .leftParen) (.functionLike name))
      else pure { name, body }) := by
    split
    · suffices htext : NulFree ("Function-like macro " ++ quoted name ++ " is not supported") from htext
      simp +decide [nulFree_quoted, hname]
    · exact ⟨hname, hbody⟩
  unfold Directive.definition
  refine h.macroName.bind fun name hname => ?_
  dsimp only
  split
  next location rest hrest =>
    rw [hrest] at hargs
    exact hparenthesis hname hargs
  · exact ⟨hname, hargs⟩

lemma IsNulFree.asksForMacro (h : d.IsNulFree) (table : DefineTable) (wanted : Bool) :
    Admits (fun _ => True) (d.asksForMacro table wanted) :=
  h.macroName.bind fun _ _ => trivial

lemma IsNulFree.asksForTruth (h : d.IsNulFree) (htable : table.IsNulFree) (limit : Nat) :
    Admits (fun _ => True) (d.asksForTruth table limit) := by
  unfold Directive.asksForTruth
  split
  · trivial
  next cause hvalue =>
    refine Condition.value_nulFree htable ?_ hvalue
    intro t ht
    obtain ⟨u, hu, rfl⟩ := List.mem_map.1 ht
    exact h.args u hu

end Directive

lemma nulFree_spaced {ts : List LocatedToken} (h : ∀ t ∈ ts, NulFree t.token.text) : NulFree (spaced ts) := by
  refine nulFree_intercalate (by decide) fun text htext => ?_
  obtain ⟨t, ht, rfl⟩ := List.mem_map.1 htext
  exact h t ht

/-- The source is not a file, and neither its name nor any of its lexemes holds a NUL. -/
structure Frame.IsNulFree (f : Frame) : Prop where
  pathless : f.source.path? = none
  name : NulFree f.source.name
  lexemes : ∀ x ∈ f.lexemes, x.IsNulFree

namespace Preprocessor

/-- Nothing that is read, expanded or reported holds a NUL. -/
structure IsNulFree (p : Preprocessor) : Prop where
  mainName : NulFree p.mainName
  defines : p.defines.IsNulFree
  frames : ∀ f ∈ p.frames, f.IsNulFree
  expansions : ∀ e ∈ p.expansions, ∀ t ∈ e.rest, NulFree t.text
  log : ∀ d ∈ p.log, d.IsNulFree

section Steps

variable {fs : FileSystem} {p : Preprocessor}

lemma IsNulFree.currentName (h : p.IsNulFree) : NulFree p.currentName := by
  unfold Preprocessor.currentName
  split
  · exact h.mainName
  next f outer hf => exact (h.frames f (by simp [hf])).name

lemma IsNulFree.report (h : p.IsNulFree) (t : LocatedToken) {problem : Problem}
    (hproblem : NulFree problem.message) : (p.report t problem).IsNulFree := by
  refine { h with log := ?_ }
  intro d hd
  rcases Array.mem_push.1 hd with hd | rfl
  · exact h.log d hd
  · exact ⟨h.currentName, hproblem⟩

lemma IsNulFree.noteFaults (h : p.IsNulFree) {xs : List Lexeme} (hxs : ∀ x ∈ xs, x.IsNulFree) :
    (p.noteFaults xs).IsNulFree := by
  refine { h with log := ?_ }
  intro d hd
  rcases Array.mem_append.1 hd with hd | hd
  · exact h.log d hd
  · obtain ⟨x, hx, hd⟩ := List.mem_filterMap.1 (List.mem_toArray.1 hd)
    exact (hxs x hx).diagnostic h.currentName hd

lemma IsNulFree.setGroups (h : p.IsNulFree) (groups : List Group) : (p.setGroups groups).IsNulFree := by
  unfold Preprocessor.setGroups mapTop
  split
  · exact h
  next f outer hf =>
    have hframes := h.frames
    rw [hf, List.forall_mem_cons] at hframes
    obtain ⟨⟨hpathless, hname, hlexemes⟩, houter⟩ := hframes
    exact { h with frames := List.forall_mem_cons.2 ⟨⟨hpathless, hname, hlexemes⟩, houter⟩ }

lemma IsNulFree.ask (h : p.IsNulFree) {question : Except Rejection Bool}
    (hquestion : Admits (fun _ => True) question) : (p.ask question).1.IsNulFree := by
  cases question with
  | ok answer => exact h
  | error r => exact h.report r.token hquestion

lemma IsNulFree.openGroup (h : p.IsNulFree) {question : Except Rejection Bool}
    (hquestion : Admits (fun _ => True) question) : (p.openGroup question).IsNulFree := by
  apply setGroups
  split
  · exact h.ask hquestion
  · exact h

lemma IsNulFree.openBranch (h : p.IsNulFree) {d : Directive} (hd : d.IsNulFree) :
    Admits IsNulFree (p.openBranch d) := by
  unfold Preprocessor.openBranch
  split
  · exact show NulFree "#elif without #if" by decide
  split
  · exact show NulFree "#elif after #else" by decide
  apply setGroups
  split
  · exact h.ask (hd.asksForTruth h.defines _)
  · exact h

lemma IsNulFree.openLastBranch (h : p.IsNulFree) (d : Directive) :
    Admits IsNulFree (p.openLastBranch d) := by
  unfold Preprocessor.openLastBranch
  split
  · exact show NulFree "#else without #if" by decide
  split
  · exact show NulFree "#else after #else" by decide
  · exact h.setGroups _

lemma IsNulFree.closeGroup (h : p.IsNulFree) (d : Directive) : Admits IsNulFree (p.closeGroup d) := by
  unfold Preprocessor.closeGroup
  split
  · exact show NulFree "#endif without #if" by decide
  · exact h.setGroups _

lemma IsNulFree.enter (h : p.IsNulFree) (fs : FileSystem) (location : Location) (isLocal : Bool)
    {name : String} (hname : NulFree name) : Admits IsNulFree (p.enter fs location isLocal name) := by
  have hdepth : NulFree (CompileError.includeTooDeep name p.limits.includeDepth).message := by
    suffices htext : NulFree ("Include depth limit of " ++ toString p.limits.includeDepth ++
        " exceeded while including " ++ quoted name) from htext
    simp +decide [nulFree_quoted, hname]
  have hlocal : NulFree (CompileError.noParentDirectory name).message := by
    suffices htext : NulFree ("Cannot resolve local include " ++ quoted name ++
        ": including source is not a file") from htext
    simp +decide [nulFree_quoted, hname]
  have hsearch : NulFree (CompileError.searchPathUnsupported name).message := by
    suffices htext : NulFree ("Could not resolve " ++ quoted name ++ " in search path.") from htext
    simp +decide [nulFree_quoted, hname]
  unfold Preprocessor.enter
  dsimp only
  split
  · exact h
  next f outer hf =>
    split
    · exact hdepth
    have hpathless := (h.frames f (by simp [hf])).pathless
    cases isLocal with
    | false =>
      have hrefused : includedFrame fs f.source false name = .error (.searchPathUnsupported name) := rfl
      rw [hrefused]
      exact hsearch
    | true =>
      have hrefused : includedFrame fs f.source true name = .error (.noParentDirectory name) := by
        simp [includedFrame, Source.resolveInclude, Source.relativePath?, hpathless, bind, Except.bind]
      rw [hrefused]
      exact hlocal

lemma IsNulFree.obey (h : p.IsNulFree) (fs : FileSystem) {d : Directive} (hd : d.IsNulFree) :
    Admits IsNulFree (p.obey fs d) := by
  apply obey_cases (motive := Admits IsNulFree)
  case ifDefined | ifNotDefined => exact fun _ => h.openGroup (hd.asksForMacro _ _)
  case ifHolds => exact fun _ => h.openGroup (hd.asksForTruth h.defines _)
  case elseIf => exact fun _ => h.openBranch hd
  case otherwise => exact fun _ => h.openLastBranch d
  case endIf => exact fun _ => h.closeGroup d
  case inactive | ignored => exact fun _ => h
  case define =>
    exact fun _ _ m hm => { h with defines := h.defines.insert (hd.definition.of_ok hm) m.name }
  case undefine => exact fun _ _ name _ => { h with defines := h.defines.erase name }
  case includeFile =>
    exact fun _ _ isLocal name hfile => h.enter fs d.location isLocal (hd.includedName.of_ok hfile)
  case noDefinition => exact fun _ _ _ => hd.definition.of_error
  case noMacro => exact fun _ _ _ => hd.macroName.of_error
  case noFile => exact fun _ _ _ => hd.includedName.of_error
  case raise => exact fun _ _ => nulFree_append.2 ⟨by decide, nulFree_spaced hd.args⟩
  case warn => exact fun _ _ => h.report _ (nulFree_append.2 ⟨by decide, nulFree_spaced hd.args⟩)
  case unknown => exact fun _ _ => nulFree_append.2 ⟨by decide, hd.name⟩

lemma IsNulFree.obeyLine (h : p.IsNulFree) (fs : FileSystem) (hash : Location) {line : List LocatedToken}
    (hline : ∀ t ∈ line, NulFree t.token.text) : (p.obeyLine fs hash line).IsNulFree := by
  have hobey {location : Location} {name : String} {args : List LocatedToken}
      (hargs : line = ⟨location, .identifier name⟩ :: args) :
      Admits IsNulFree (p.obey fs { hash, name, location, args }) := by
    rw [hargs, List.forall_mem_cons] at hline
    exact h.obey fs ⟨hline.1, hline.2⟩
  have hdirective : NulFree "Invalid preprocessor directive" := by decide
  apply obeyLine_cases (motive := IsNulFree)
  case same => exact h
  case noName => exact fun _ _ _ => h.report _ hdirective
  case obeyed => exact fun _ _ _ _ hargs => (hobey hargs).of_ok
  case rejected => exact fun _ _ _ r hargs hr => h.report r.token ((hobey hargs).of_error hr)

lemma token_of_calledMacro? {t : Token} {name : String} {m : Definition}
    (h : p.calledMacro? t = some (name, m)) : t = .identifier name := by
  unfold calledMacro? at h
  split at h
  · split at h
    · cases h
    · obtain ⟨m', -, hm'⟩ := Option.map_eq_some_iff.1 h
      rw [(Prod.mk.inj hm').1]
  · cases h

lemma IsNulFree.place (h : p.IsNulFree) {t : LocatedToken} (ht : NulFree t.token.text) :
    (p.place t).next.IsNulFree := by
  unfold Preprocessor.place
  cases hcalled : p.calledMacro? t.token with
  | none => exact h
  | some called =>
    obtain ⟨name, m⟩ := called
    dsimp only
    split
    · refine h.report t (nulFree_expansionTooDeep ?_ _)
      rw [token_of_calledMacro? hcalled] at ht
      exact ht
    · have hm := h.defines name m (calledMacro?_eq_some_iff.1 hcalled).2.2
      refine { h with expansions := List.forall_mem_cons.2 ⟨?_, h.expansions⟩ }
      intro u hu
      obtain ⟨v, hv, rfl⟩ := List.mem_map.1 hu
      exact hm.2 v hv

lemma IsNulFree.stepExpansion (h : p.IsNulFree) {e : Expansion} {outer : List Expansion}
    (hp : p.expansions = e :: outer) : (p.stepExpansion e outer).next.IsNulFree := by
  have hexpansions := h.expansions
  rw [hp, List.forall_mem_cons] at hexpansions
  obtain ⟨hinner, houter⟩ := hexpansions
  unfold Preprocessor.stepExpansion
  split
  · exact { h with expansions := houter }
  next t rest he =>
    rw [he, List.forall_mem_cons] at hinner
    have hrest : ∀ e' ∈ { e with rest } :: outer, ∀ t ∈ e'.rest, NulFree t.text :=
      List.forall_mem_cons.2 ⟨hinner.2, houter⟩
    have hadvanced : IsNulFree { p with expansions := { e with rest } :: outer } :=
      { h with expansions := hrest }
    dsimp only
    split
    · exact hadvanced
    · exact hadvanced.place hinner.1

lemma IsNulFree.stepEnd (h : p.IsNulFree) {f : Frame} {outer : List Frame} (hp : p.frames = f :: outer) :
    (p.stepEnd f outer).next.IsNulFree := by
  have hframes := h.frames
  rw [hp, List.forall_mem_cons] at hframes
  have hunterminated : NulFree "Unterminated #if at end of file" := by decide
  have hreported : (if f.groups.isEmpty then p
      else p.error ⟨f.stop, .eof⟩ (.directive .unterminatedIf)).IsNulFree := by
    split
    · exact h
    · exact h.report _ hunterminated
  unfold Preprocessor.stepEnd
  dsimp only
  split
  · exact h
  split
  · exact { hreported with }
  · exact { hreported with frames := hframes.2 }

lemma IsNulFree.stepLexeme (h : p.IsNulFree) (fs : FileSystem) {f : Frame} {outer : List Frame} {x : Lexeme}
    {rest : List Lexeme} (hp : p.frames = f :: outer) (hf : f.lexemes = x :: rest) :
    (p.stepLexeme fs f outer x rest).next.IsNulFree := by
  have hframes := h.frames
  rw [hp, List.forall_mem_cons] at hframes
  obtain ⟨⟨hpathless, hname, hlexemes⟩, houter⟩ := hframes
  rw [hf, List.forall_mem_cons] at hlexemes
  obtain ⟨hx, hrest⟩ := hlexemes
  have hmove {lexemes : List Lexeme} (hsub : lexemes ⊆ rest) (atLineStart : Bool) :
      (p.afterLexeme f outer x lexemes atLineStart).IsNulFree := by
    have hnoted := h.noteFaults (List.forall_mem_singleton.2 hx)
    have hmoved : Frame.IsNulFree { f with lexemes, atLineStart } :=
      ⟨hpathless, hname, fun y hy => hrest y (hsub hy)⟩
    exact { hnoted with frames := List.forall_mem_cons.2 ⟨hmoved, houter⟩ }
  apply stepLexeme_cases (motive := fun s => s.next.IsNulFree)
  case passed => exact fun _ => hmove (List.Subset.refl _) _
  case directive =>
    intro _ _
    have hline : ∀ y ∈ rest.takeWhile (·.token != .newline), y.IsNulFree :=
      fun y hy => hrest y (List.takeWhile_subset _ hy)
    have hfollowing : (rest.dropWhile (·.token != .newline)).drop 1 ⊆ rest :=
      fun y hy => List.dropWhile_subset _ (List.mem_of_mem_drop hy)
    refine ((hmove hfollowing true).noteFaults hline).obeyLine fs x.location ?_
    intro t ht
    obtain ⟨y, hy, rfl⟩ := List.mem_map.1 ht
    exact (hline y (List.mem_of_mem_filter hy)).1
  case placed => exact fun _ _ _ _ => (hmove (List.Subset.refl _) false).place hx.1

theorem IsNulFree.step (h : p.IsNulFree) (fs : FileSystem) : (p.step fs).next.IsNulFree := by
  unfold Preprocessor.step
  split
  next hp => exact h.stepExpansion hp
  · split
    · exact { h with }
    next hp =>
      split
      · exact h.stepEnd hp
      next hf => exact h.stepLexeme fs hp hf

lemma IsNulFree.next (h : p.IsNulFree) (fs : FileSystem) : (p.next fs).2.IsNulFree := by
  unfold Preprocessor.next
  split
  · exact { h with }
  · exact produce_induction (fun _ hp => hp.step fs) h

lemma isNulFree_start (fs : FileSystem) (limits : Limits) {defines : DefineTable}
    (hdefines : defines.IsNulFree) {name : String} (hname : NulFree name) {content : List UInt8}
    (hcontent : 0 ∉ content) : (start fs limits defines (.ofBytes name content)).IsNulFree := by
  refine ⟨hname, hdefines, ?_, by simp [start, Source.load, Source.ofBytes, Source.content],
    by simp [start, Source.load, Source.ofBytes, Source.content]⟩
  intro f hf
  obtain rfl := List.mem_singleton.1 hf
  exact ⟨rfl, hname, Lexemes.isNulFree_ofCursor hcontent⟩

end Steps

end Preprocessor

end Shading
