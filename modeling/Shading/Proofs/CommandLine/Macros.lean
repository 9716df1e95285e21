import Shading.CommandLine
import Shading.Proofs.Compiler.History

/-!
# Macros of the command line

Options define and remove macros in any order. A run makes all definitions before it removes any, so
a macro is lost if its name is removed in front of it.
-/

namespace Shading

namespace Compiler

/-- Whether a call defines a macro. -/
def Call.isAdd : Call → Bool
  | .add _ _ => true
  | .remove _ => false

/-- All definitions, and then all removals. -/
def definitionsFirst (calls : List Call) : List Call :=
  calls.filter (·.isAdd) ++ calls.filter (!·.isAdd)

lemma config_call (c : Compiler) (call : Call) : (c.call call).config = c.config := by
  cases call with
  | remove name => rfl
  | add name body =>
    cases haccepts : accepts name body with
    | true => rw [Compiler.call, c.addDefine_of_accepts haccepts]
    | false =>
      have hfails : ¬∃ c', c.addDefine name body = .ok c' := by simp [addDefine_ok_iff, haccepts]
      cases hadd : c.addDefine name body with
      | ok c' => exact absurd ⟨c', hadd⟩ hfails
      | error e => rw [Compiler.call, hadd]

lemma config_afterCalls (c : Compiler) (calls : List Call) : (c.afterCalls calls).config = c.config := by
  induction calls generalizing c with
  | nil => rfl
  | cons call calls ih => exact (ih (c.call call)).trans (c.config_call call)

section DefinitionsFirst

variable {calls : List Call} {name : String}

lemma decides_eq_false {call : Call} (hcall : call.isAdd = false) (hne : call ≠ .remove name) :
    call.decides name = false := by
  cases call with
  | add name' body => cases hcall
  | remove name' => simpa [Call.decides] using hne

/-- Only the calls that decide about a name matter for it. -/
theorem afterCalls_filter (c : Compiler) (calls : List Call) (name : String) :
    (c.afterCalls (calls.filter (·.decides name))).defines.get? name =
      (c.afterCalls calls).defines.get? name := by
  induction calls using List.reverseRecOn with
  | nil => rfl
  | append_singleton calls call ih =>
    have hlast (c : Compiler) : c.afterCalls [call] = c.call call := rfl
    rw [List.filter_append, afterCalls_append, afterCalls_append, hlast, call_get?]
    by_cases hdecides : call.decides name = true
    · rw [List.filter_cons_of_pos hdecides, List.filter_nil, hlast, call_get?, if_pos hdecides,
        if_pos hdecides]
    · rw [List.filter_cons_of_neg hdecides, if_neg hdecides]
      exact ih

lemma get?_removed (c : Compiler) (h : .remove name ∈ calls) :
    (c.afterCalls (definitionsFirst calls)).defines.get? name = none := by
  have hmem : .remove name ∈ calls.filter (!·.isAdd) := List.mem_filter.2 ⟨h, rfl⟩
  rw [definitionsFirst, afterCalls_append]
  rcases last_decision (calls.filter (!·.isAdd)) name with hnone | ⟨before, call, after, hsplit, hcall, hafter⟩
  · have hdecides := hnone _ hmem
    simp [Call.decides] at hdecides
  · have hremoves : call ∈ calls.filter (!·.isAdd) := by simp [hsplit]
    rw [hsplit, afterCalls_decided _ hcall hafter]
    cases call with
    | add name' body => simp [Call.isAdd] at hremoves
    | remove name' => rfl

lemma get?_not_removed (c : Compiler) (h : .remove name ∉ calls) :
    (c.afterCalls (definitionsFirst calls)).defines.get? name =
      (c.afterCalls calls).defines.get? name := by
  have hremoves : ∀ call ∈ calls.filter (!·.isAdd), call.decides name = false := by
    intro call hcall
    obtain ⟨hmem, hremove⟩ := List.mem_filter.1 hcall
    exact decides_eq_false (by simpa using hremove) fun heq => h (heq ▸ hmem)
  have hadds : (calls.filter (·.isAdd)).filter (·.decides name) = calls.filter (·.decides name) := by
    rw [List.filter_filter]
    refine List.filter_congr fun call hcall => ?_
    cases hadd : call.isAdd with
    | true => rw [Bool.and_true]
    | false => rw [decides_eq_false hadd fun heq => h (heq ▸ hcall), Bool.and_false]
  rw [definitionsFirst, afterCalls_append, afterCalls_get? _ hremoves, ← afterCalls_filter, hadds,
    afterCalls_filter]

/-- With all definitions first the same is left under a name, unless a definition of it stands behind
a removal of it, and no removal behind that. -/
theorem get?_definitionsFirst_iff (config : Config)
    (haccepts : ∀ name body, .add name body ∈ calls → accepts name body = true) :
    (afterCalls { config } (definitionsFirst calls)).defines.get? name =
        (afterCalls { config } calls).defines.get? name ↔
      ∀ before body after, calls = before ++ .add name body :: after → .remove name ∈ before →
        .remove name ∈ after := by
  by_cases hremove : .remove name ∈ calls
  · rw [get?_removed _ hremove, eq_comm, ← Option.not_isSome_iff_eq_none, isSome_afterCalls]
    constructor
    · intro hnone before body after hcalls _
      by_contra hafter
      exact hnone ⟨before, body, after, hcalls, haccepts name body (by simp [hcalls]), hafter⟩
    · rintro hall ⟨before, body, after, hcalls, -, hafter⟩
      have hbefore : .remove name ∈ before := by
        have hmem := hremove
        rw [hcalls] at hmem
        simpa [hafter] using hmem
      exact hafter (hall before body after hcalls hbefore)
  · refine iff_of_true (get?_not_removed _ hremove) ?_
    intro before body after hcalls hbefore
    exact absurd (by simp [hcalls, hbefore]) hremove

end DefinitionsFirst

end Compiler

namespace CommandLine

open Compiler (Call definitionsFirst)

/-- The definition that an option asks for. -/
def definition (define : String) : Call :=
  .add (splitDefine define).1 (splitDefine define).2

/-- What the options ask for that were given since. -/
def Arguments.callsSince (a earlier : Arguments) : List Call :=
  (a.defines.drop earlier.defines.length).map definition ++
    (a.undefines.drop earlier.undefines.length).map .remove

/-- What the options in these arguments ask for, from left to right. -/
def Parsing.calls (p : Parsing) : List String → List Call
  | [] => []
  | arg :: args =>
    match p.read arg with
    | .ok q => q.given.callsSince p.given ++ q.calls args
    | .error _ => []

namespace Arguments

/-- At most one definition or one removal more. -/
inductive Extends (a : Arguments) : Arguments → List Call → Prop
  | same {b : Arguments} (hdefines : b.defines = a.defines) (hundefines : b.undefines = a.undefines) :
      Extends a b []
  | define {b : Arguments} (value : String) (hdefines : b.defines = a.defines ++ [value])
      (hundefines : b.undefines = a.undefines) : Extends a b [definition value]
  | undefine {b : Arguments} (value : String) (hdefines : b.defines = a.defines)
      (hundefines : b.undefines = a.undefines ++ [value]) : Extends a b [.remove value]

variable {a b : Arguments} {calls : List Call}

lemma Extends.callsSince (h : Extends a b calls) : b.callsSince a = calls := by
  unfold Arguments.callsSince
  cases h with
  | same hdefines hundefines =>
    rw [hdefines, hundefines, List.drop_length, List.drop_length]
    rfl
  | define value hdefines hundefines =>
    rw [hdefines, hundefines, List.drop_left, List.drop_length]
    rfl
  | undefine value hdefines hundefines =>
    rw [hdefines, hundefines, List.drop_left, List.drop_length]
    rfl

lemma Extends.defines (h : Extends a b calls) :
    b.defines.map definition = a.defines.map definition ++ calls.filter (·.isAdd) := by
  cases h <;> simp [*, definition, Call.isAdd]

lemma Extends.undefines (h : Extends a b calls) :
    b.undefines.map .remove = a.undefines.map .remove ++ calls.filter (!·.isAdd) := by
  cases h <;> simp [*, definition, Call.isAdd]

lemma Extends.of_same {a' : Arguments} (hdefines : a'.defines = a.defines)
    (hundefines : a'.undefines = a.undefines) (h : ∃ calls, Extends a' b calls) :
    ∃ calls, Extends a b calls := by
  obtain ⟨calls, h⟩ := h
  refine ⟨calls, ?_⟩
  cases h with
  | same hd hu => exact .same (hd.trans hdefines) (hu.trans hundefines)
  | define value hd hu => exact .define value (by rw [hd, hdefines]) (hu.trans hundefines)
  | undefine value hd hu => exact .undefine value (hd.trans hdefines) (by rw [hu, hundefines])

lemma setFlag_keeps {f : Flag} (h : a.setFlag f = .ok b) :
    b.defines = a.defines ∧ b.undefines = a.undefines := by
  unfold setFlag at h
  split at h
  · cases h
  · obtain rfl := Except.ok.inj h
    exact ⟨rfl, rfl⟩

lemma setInput_keeps {value : String} (h : a.setInput value = .ok b) :
    b.defines = a.defines ∧ b.undefines = a.undefines := by
  unfold setInput at h
  split at h
  · cases h
  · obtain rfl := Except.ok.inj h
    exact ⟨rfl, rfl⟩

lemma set_extends {s : Setting} {value : String} (h : a.set s value = .ok b) :
    ∃ calls, Extends a b calls := by
  unfold set at h
  split at h
  · obtain rfl := Except.ok.inj h
    exact ⟨_, .define value rfl rfl⟩
  · obtain rfl := Except.ok.inj h
    exact ⟨_, .undefine value rfl rfl⟩
  · cases hlimit : limit a.expansionLimit value with
    | error stop => simp [hlimit, Except.map] at h
    | ok n =>
      rw [hlimit] at h
      obtain rfl := Except.ok.inj h
      exact ⟨_, .same rfl rfl⟩
  · cases hlimit : limit a.includeDepth value with
    | error stop => simp [hlimit, Except.map] at h
    | ok n =>
      rw [hlimit] at h
      obtain rfl := Except.ok.inj h
      exact ⟨_, .same rfl rfl⟩

end Arguments

namespace Parsing

open Arguments

variable {p q : Parsing}

lemma given_of_map {x : Except Stop Arguments} {next : Arguments → Parsing}
    (hnext : ∀ a, (next a).given = a) (h : x.map next = .ok q) : x = .ok q.given := by
  cases x with
  | error stop => cases h
  | ok a =>
    obtain rfl := Except.ok.inj h
    rw [hnext]

lemma readLetters_extends {cs : List Char} (h : p.readLetters cs = .ok q) :
    ∃ calls, Extends p.given q.given calls := by
  induction cs generalizing p with
  | nil =>
    obtain rfl := Except.ok.inj h
    exact ⟨_, .same rfl rfl⟩
  | cons c rest ih =>
    rw [readLetters] at h
    split at h
    · cases h
    · cases h
    · cases h
    · split at h
      · cases h
      next given hflag =>
        obtain ⟨hdefines, hundefines⟩ := setFlag_keeps hflag
        exact Extends.of_same hdefines hundefines (ih h)
    · split at h
      · obtain rfl := Except.ok.inj h
        exact ⟨_, .same rfl rfl⟩
      · exact set_extends (given_of_map (fun _ => rfl) h)
      · exact set_extends (given_of_map (fun _ => rfl) h)

lemma readLong_extends {name : String} {value : Option String} (h : p.readLong name value = .ok q) :
    ∃ calls, Extends p.given q.given calls := by
  unfold readLong at h
  split at h
  · exact set_extends (given_of_map (fun _ => rfl) h)
  · obtain rfl := Except.ok.inj h
    exact ⟨_, .same rfl rfl⟩
  · obtain ⟨hdefines, hundefines⟩ := setFlag_keeps (given_of_map (fun _ => rfl) h)
    exact ⟨_, .same hdefines hundefines⟩
  · cases h
  · cases h
  · cases h

/-- No argument asks for more than one definition or removal. -/
theorem read_extends {arg : String} (h : p.read arg = .ok q) :
    ∃ calls, Extends p.given q.given calls := by
  have noneWaits {next : Except Stop Parsing}
      (h : (if p.waiting.isSome then .error .usage else next) = Except.ok q) : next = .ok q := by
    split at h
    · cases h
    · exact h
  have plain (h : (if p.waiting.isSome then .error .usage
      else (p.given.setInput arg).map fun given => { p with given }) = Except.ok q) :
      ∃ calls, Extends p.given q.given calls := by
    obtain ⟨hdefines, hundefines⟩ := setInput_keeps (given_of_map (fun _ => rfl) (noneWaits h))
    exact ⟨_, .same hdefines hundefines⟩
  unfold read at h
  dsimp only at h
  split at h
  · exact plain h
  · split at h
    · obtain rfl := Except.ok.inj (noneWaits h)
      exact ⟨_, .same rfl rfl⟩
    · exact readLong_extends (noneWaits h)
    · exact readLetters_extends (noneWaits h)
    · split at h
      · exact set_extends (given_of_map (fun _ => rfl) h)
      · exact plain h

lemma read_calls {arg : String} (h : p.read arg = .ok q) (args : List String) :
    Extends p.given q.given (q.given.callsSince p.given) ∧
      p.calls (arg :: args) = q.given.callsSince p.given ++ q.calls args := by
  obtain ⟨calls, hextends⟩ := read_extends h
  rw [hextends.callsSince]
  refine ⟨hextends, ?_⟩
  rw [Parsing.calls, h]
  simp only
  rw [hextends.callsSince]

/-- The definitions and the removals are those of the options, each in their order. -/
theorem foldlM_read {args : List String} (h : args.foldlM read p = .ok q) :
    q.given.defines.map definition =
        p.given.defines.map definition ++ (p.calls args).filter (·.isAdd) ∧
      q.given.undefines.map .remove =
        p.given.undefines.map .remove ++ (p.calls args).filter (!·.isAdd) := by
  induction args generalizing p with
  | nil =>
    obtain rfl := Except.ok.inj h
    simp [Parsing.calls]
  | cons arg args ih =>
    rw [List.foldlM_cons] at h
    cases hread : p.read arg with
    | error stop =>
      rw [hread] at h
      cases h
    | ok next =>
      rw [hread] at h
      obtain ⟨hextends, hcalls⟩ := read_calls hread args
      obtain ⟨hdefines, hundefines⟩ := ih h
      rw [hcalls, List.filter_append, List.filter_append, hdefines, hundefines, hextends.defines,
        hextends.undefines, List.append_assoc, List.append_assoc]
      exact ⟨rfl, rfl⟩

end Parsing

namespace Arguments

variable {a : Arguments}

lemma foldlM_definition {defines : List String} (c : Compiler)
    (haccepts : ∀ d ∈ defines, Compiler.accepts (splitDefine d).1 (splitDefine d).2 = true) :
    defines.foldlM (fun (c : Compiler) d =>
      (c.addDefine (splitDefine d).1 (splitDefine d).2).mapError (Failure.definition (splitDefine d).1)) c =
      .ok (c.afterCalls (defines.map definition)) := by
  induction defines generalizing c with
  | nil => rfl
  | cons d defines ih =>
    obtain ⟨hd, hdefines⟩ := List.forall_mem_cons.1 haccepts
    obtain ⟨c', hadd⟩ := (c.addDefine_ok_iff _ _).2 hd
    have hcall : c.call (definition d) = c' := by rw [definition, Compiler.call, hadd]
    have hcalls : c.afterCalls ((d :: defines).map definition) =
        c'.afterCalls (defines.map definition) := by
      rw [List.map_cons, Compiler.afterCalls, List.foldl_cons, hcall]
      rfl
    rw [List.foldlM_cons, hadd, hcalls]
    exact ih c' hdefines

lemma foldl_removeDefine (undefines : List String) (c : Compiler) :
    undefines.foldl Compiler.removeDefine c = c.afterCalls (undefines.map .remove) := by
  rw [Compiler.afterCalls, List.foldl_map]
  rfl

lemma given_ofList {args : List String} {input : Path} (h : Arguments.ofList args = .ok (input, a)) :
    a.defines.map definition = (Parsing.calls {} args).filter (·.isAdd) ∧
      a.undefines.map .remove = (Parsing.calls {} args).filter (!·.isAdd) := by
  unfold ofList at h
  cases hread : args.foldlM Parsing.read {} with
  | error stop =>
    rw [hread] at h
    cases h
  | ok p =>
    rw [hread] at h
    simp only [bind, Except.bind] at h
    split at h
    · obtain ⟨-, rfl⟩ := Prod.mk.inj (Except.ok.inj h)
      exact Parsing.foldlM_read hread
    · cases h

/-- A run makes all definitions first. -/
theorem compiler_definitionsFirst {args : List String} {input : Path}
    (hargs : Arguments.ofList args = .ok (input, a))
    (haccepts : ∀ d ∈ a.defines, Compiler.accepts (splitDefine d).1 (splitDefine d).2 = true) :
    a.compiler = .ok (Compiler.afterCalls { config := { limits := a.limits, listening := true } }
      (definitionsFirst (Parsing.calls {} args))) := by
  obtain ⟨hdefines, hundefines⟩ := given_ofList hargs
  unfold compiler
  simp only [foldlM_definition _ haccepts, foldl_removeDefine, hdefines, hundefines]
  rw [definitionsFirst, Compiler.afterCalls_append]
  rfl

/-- A run compiles with the macros of its definitions, less all that are removed anywhere. This is
what its options lead to from left to right exactly for those names that are not defined behind a
removal, or are removed again behind that. -/
theorem removals_behind_definitions {args : List String} {input : Path} {a : Arguments}
    (hargs : Arguments.ofList args = .ok (input, a))
    (haccepts : ∀ d ∈ a.defines, Compiler.accepts (splitDefine d).1 (splitDefine d).2 = true) :
    let calls := Parsing.calls {} args
    let leftToRight := Compiler.afterCalls { config := { limits := a.limits, listening := true } } calls
    ∃ c, a.compiler = .ok c ∧ c.config = leftToRight.config ∧ ∀ name,
      c.defines.get? name =
        (if .remove name ∈ calls then none else leftToRight.defines.get? name) ∧
      (c.defines.get? name = leftToRight.defines.get? name ↔
        ∀ before body after, calls = before ++ .add name body :: after → .remove name ∈ before →
          .remove name ∈ after) := by
  intro calls leftToRight
  have hadds : ∀ name body, .add name body ∈ calls → Compiler.accepts name body = true := by
    intro name body hmem
    have hadd : .add name body ∈ calls.filter (·.isAdd) := List.mem_filter.2 ⟨hmem, rfl⟩
    rw [← (given_ofList hargs).1] at hadd
    obtain ⟨d, hd, hcall⟩ := List.mem_map.1 hadd
    obtain ⟨rfl, rfl⟩ := Call.add.inj hcall
    exact haccepts d hd
  refine ⟨_, compiler_definitionsFirst hargs haccepts, ?_, fun name => ⟨?_, ?_⟩⟩
  · rw [Compiler.config_afterCalls, Compiler.config_afterCalls]
  · split
    next hremove => exact Compiler.get?_removed _ hremove
    next hremove => exact Compiler.get?_not_removed _ hremove
  · exact Compiler.get?_definitionsFirst_iff _ hadds

/-- A macro is defined and removed, and then another one is defined. -/
def removedBehind : List String :=
  ["-DA", "-U", "A", "--define=B=2", "-"]

theorem removals_behind_definitions_removed :
    Arguments.ofList removedBehind =
      .ok (⟨"-"⟩, { input := some ⟨"-"⟩, defines := ["A", "B=2"], undefines := ["A"] }) ∧
    Parsing.calls {} removedBehind = [.add "A" none, .remove "A", .add "B" (some "2")] ∧
    ∃ c, compiler { input := some ⟨"-"⟩, defines := ["A", "B=2"], undefines := ["A"] } = .ok c ∧
      c.defines.get? "A" = none ∧
      c.defines.get? "B" = some { name := "B", body := [⟨.start, .int 2⟩] } := by
  have hargs : Arguments.ofList removedBehind =
      .ok (⟨"-"⟩, { input := some ⟨"-"⟩, defines := ["A", "B=2"], undefines := ["A"] }) := by
    decide +kernel
  have hcalls : Parsing.calls {} removedBehind = [.add "A" none, .remove "A", .add "B" (some "2")] := by
    decide +kernel
  obtain ⟨c, hc, -, hnames⟩ := removals_behind_definitions hargs (by decide +kernel)
  refine ⟨hargs, hcalls, c, hc, (hnames "A").1.trans ?_, (hnames "B").1.trans ?_⟩
  · rw [hcalls]
    rfl
  · rw [hcalls]
    decide +kernel

/-- A macro is removed before it is defined. -/
def removedInFront : List String :=
  ["-U", "A", "-D", "A", "-"]

/-- The macro is lost, although no removal stands behind its definition. -/
theorem definition_behind_removal_lost :
    Arguments.ofList removedInFront =
      .ok (⟨"-"⟩, { input := some ⟨"-"⟩, defines := ["A"], undefines := ["A"] }) ∧
    Parsing.calls {} removedInFront = [.remove "A", .add "A" none] ∧
    Compiler.accepts "A" none = true ∧
    ∃ c, compiler { input := some ⟨"-"⟩, defines := ["A"], undefines := ["A"] } = .ok c ∧
      c.defines.get? "A" = none ∧
      (Compiler.afterCalls { config := c.config } (Parsing.calls {} removedInFront)).defines.get? "A" =
        some (Compiler.defined "A" none) := by
  refine ⟨by decide +kernel, by decide +kernel, by decide +kernel,
    { config := { listening := true } }, by decide +kernel, rfl, by decide +kernel⟩

end Arguments

end CommandLine

end Shading
