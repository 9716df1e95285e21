import Shading.Proofs.Declaration.Recovery
import Shading.Proofs.Program.Parsing
import Shading.Proofs.Program.Provenance

/-!
# Programs with faults in them

Whatever tokens are delivered, a program is read from all of them. It is given the declarations among
the parts of the tokens, and a syntax error is reported for each declaration that is given up.
-/

namespace Shading

open Preprocessor Recovery Splitter

namespace Preprocessor

variable {fs : FileSystem} {p : Preprocessor}

lemma step_again_log {t : LocatedToken} (h : p.step fs = .deliver t p) (log : Array Diagnostic) :
    ({ p with log } : Preprocessor).step fs = .deliver t { p with log } := by
  have hsame := step_precededBy p.log { p with log := #[] } fs
  have hother := step_precededBy log { p with log := #[] } fs
  rw [← precededBy_log, h] at hsame
  rw [precededBy_log { p with log }, hother]
  cases hstep : ({ p with log := #[] } : Preprocessor).step fs with
  | proceed q =>
    rw [hstep] at hsame
    cases hsame
  | deliver u q =>
    rw [hstep] at hsame
    obtain ⟨rfl, hq⟩ := Step.deliver.inj hsame
    have hlog : p.log = p.log ++ q.log := congrArg Preprocessor.log hq
    have hnone : q.log = #[] := by simpa using hlog
    have hempty : q = { p with log := #[] } := by
      rw [hq, precededBy]
      cases q
      simpa using hnone
    rw [hempty]
    rfl

lemma drain_again (fs : FileSystem) (hp : p.Significant) (hlookahead : p.lookahead = none) :
    (p.drain fs).2.lookahead = none ∧ ∀ t ∈ (p.drain fs).1.getLast?,
      (p.drain fs).2.step fs = .deliver t (p.drain fs).2 := by
  fun_induction drain fs p with
  | case1 p taken heof =>
    obtain ⟨n, hdeliver, hstate⟩ := next_steps fs hlookahead
    have hlast := steps_induction fs p (fun _ hq => significant_step fs hq) hp n
    refine ⟨?_, ?_⟩
    · rw [hstate]
      exact lookahead_steps fs hlookahead (n + 1)
    · rintro t ht
      obtain rfl := Option.some.inj ht
      exact ((step_deliver hlast hdeliver).2.2 heof).1
  | case2 p taken hne following ih =>
    obtain ⟨n, -, hstate⟩ := next_steps fs hlookahead
    obtain ⟨hnone, hlast⟩ := ih
      (by rw [hstate]; exact steps_induction fs p (fun _ hq => significant_step fs hq) hp (n + 1))
      (by rw [hstate]; exact lookahead_steps fs hlookahead (n + 1))
    refine ⟨hnone, fun t ht => hlast t ?_⟩
    have hrest := (drain_delivered fs taken.2).1
    rw [List.getLast?_cons, hrest] at ht
    rw [hrest]
    simpa using ht

end Preprocessor

namespace Program

/-- Reading takes all tokens, and but for what it reports it leaves nothing behind. -/
theorem readFrom_state (fs : FileSystem) (s : Splitter) (program : Program) (p : Preprocessor) :
    ∃ log, (readFrom fs s program p).2 = { (p.drain fs).2 with log } := by
  fun_induction readFrom fs s program p with
  | case1 s program p taken fed recorded h =>
    have hdrain : p.drain fs = ([taken.1], taken.2) := drain_of_eof rfl h
    rw [hdrain]
    exact record_log program taken.2 fed.2
  | case2 s program p taken fed recorded h ih =>
    have hdrain : p.drain fs = (taken.1 :: (taken.2.drain fs).1, (taken.2.drain fs).2) :=
      drain_of_ne_eof rfl h
    obtain ⟨log, hlog⟩ := ih
    obtain ⟨log', hrecorded⟩ := record_log program taken.2 fed.2
    obtain ⟨log'', hbehind⟩ := exists_log_drain fs taken.2 log'
    refine ⟨log, ?_⟩
    have hstate : recorded.2 = { taken.2 with log := log' } := hrecorded
    rw [hlog, hdrain, hstate, hbehind]

lemma filterMap_parts (parts : List Part) :
    (parts.filterMap outcome?).filterMap Outcome.declared? = parts.filterMap Part.declaration? ∧
      (parts.filterMap outcome?).filterMap Outcome.failed? = parts.filterMap Part.fault? := by
  rw [List.filterMap_filterMap, List.filterMap_filterMap]
  constructor
  · congr 1
    funext part
    cases part with
    | item i => cases hd : i.declaration? <;> simp [outcome?, Part.declaration?, Outcome.declared?, hd]
    | failure ts fault => rfl
  · congr 1
    funext part
    cases part with
    | item i => cases hd : i.declaration? <;> simp [outcome?, Part.fault?, Outcome.failed?, hd]
    | failure ts fault => rfl

/-- A program is read from all tokens up to the end, however many faults are in them. In one way only the
tokens are made of parts: declarations and lone semicolons, and declarations that were given up with
what is passed over behind them. The declarations are added, in order, to those that the program had,
and for each one that was given up there is one syntax error. -/
theorem read_parts (fs : FileSystem) (program : Program) (p : Preprocessor) :
    (p.drain fs).1 = p.delivered fs ++ [⟨p.stop fs, .eof⟩] ∧
    (∀ t ∈ p.delivered fs, t.token ≠ .eof) ∧
    (∃ log, (program.read fs p).2 = { (p.drain fs).2 with log }) ∧
    (p.Significant → p.lookahead = none →
      (program.read fs p).2.next fs = (⟨p.stop fs, .eof⟩, (program.read fs p).2)) ∧
    ∃ parts, Parted (p.stop fs) (p.delivered fs) parts ∧
      (∀ others, Parted (p.stop fs) (p.delivered fs) others → others = parts) ∧
      parts.flatMap Part.tokens = p.delivered fs ∧
      (program.read fs p).1.declarations =
        program.declarations ++ parts.filterMap Part.declaration? ∧
      (program.read fs p).2.syntaxErrors = p.syntaxErrors ++ parts.filterMap Part.fault? := by
  obtain ⟨hdrain, heof⟩ := drain_delivered fs p
  obtain ⟨log, hlog⟩ : ∃ log, (program.read fs p).2 = { (p.drain fs).2 with log } :=
    readFrom_state fs .between program p
  refine ⟨hdrain, heof, ⟨log, hlog⟩, ?_, ?_⟩
  · intro hp hlookahead
    obtain ⟨hnone, hagain⟩ := drain_again fs hp hlookahead
    rw [hlog]
    refine next_deliver hnone (step_again_log (hagain _ ?_) log)
    rw [hdrain]
    exact List.getLast?_concat
  · obtain ⟨parts, hparts⟩ := exists_parted (p.stop fs) (p.delivered fs)
    have houtcomes : outcomes .between (p.drain fs).1 = parts.filterMap outcome? := by
      rw [hdrain]
      exact outcomes_parted hparts heof
    obtain ⟨hdeclarations, herrors⟩ := readFrom_outcomes fs .between program p
    rw [houtcomes, (filterMap_parts parts).1] at hdeclarations
    rw [houtcomes, (filterMap_parts parts).2] at herrors
    exact ⟨parts, hparts, fun others hothers => parted_unique hothers hparts, hparts.covers, hdeclarations,
      herrors⟩

/-- A bracket of another kind in the middle of a declaration, behind which a block is passed over. -/
theorem read_parts_unexpected :
    let p := ({} : Compiler).preprocessor .empty (.ofBytes "main" (Text.bytes "f(]\x7ba;\x7dy;"))
    let result := Program.read .empty {} p
    p.Significant ∧ p.lookahead = none ∧ result.2.next .empty = (⟨p.stop .empty, .eof⟩, result.2) ∧
      ∃ parts, Parted (p.stop .empty) (p.delivered .empty) parts ∧
        parts.filterMap Part.declaration? = [⟨⟨0, 7⟩, [.identifier "y", .punct .semicolon]⟩] ∧
        parts.filterMap Part.fault? =
          [(⟨⟨0, 2⟩, .punct .rightBracket⟩, .unexpected .rightBracket)] := by
  intro p result
  have hsignificant : p.Significant := significant_start (.new {}) .empty _
  obtain ⟨-, -, -, hagain, parts, hparts, -, -, hdeclarations, herrors⟩ := read_parts .empty {} p
  have hbefore : ∀ m < 9, (Progress.advance .empty { preprocessor := p } m).meetsEnd .empty = false := by
    decide +kernel
  have hresult : result = _ :=
    Progress.readFrom_advance (g := { preprocessor := p }) rfl hbefore (by decide +kernel)
  refine ⟨hsignificant, rfl, hagain hsignificant rfl, parts, hparts, ?_, ?_⟩
  · refine (List.nil_append _).symm.trans (hdeclarations.symm.trans ?_)
    refine (congrArg (·.1.declarations) hresult).trans ?_
    decide +kernel
  · refine (List.nil_append _).symm.trans (herrors.symm.trans ?_)
    refine (congrArg (·.2.syntaxErrors) hresult).trans ?_
    decide +kernel

end Program

end Shading
