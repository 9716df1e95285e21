import Shading.Proofs.Preprocessor.Expanding

/-!
# Chains of calls

A macro that names another one in its body calls it, and the calls in text follow each chain of distinct
macros. So the limit is exceeded exactly if there is a chain that is longer than the limit, and the macro
that is reported is the last one of such a chain.
-/

namespace Shading

/-- The body of the first macro holds the name of the second one. -/
def DefineTable.Names (table : DefineTable) (name called : String) : Prop :=
  ∃ d, table.get? name = some d ∧ ∃ t ∈ d.body, t.token = .identifier called

/-- Distinct macros from the first to the last, each of which is named in the body of the one before it. -/
structure DefineTable.IsChain (table : DefineTable) (names : List String) (first last : String) :
    Prop where
  distinct : names.Nodup
  defined : ∀ name ∈ names, table.contains name = true
  linked : names.IsChain table.Names
  head : names.head? = some first
  getLast : names.getLast? = some last

namespace DefineTable

variable {table : DefineTable} {names : List String} {first last : String}

lemma names_iff {d : Definition} (hd : table.get? first = some d) (name : String) :
    table.Names first name ↔ .identifier name ∈ d.words := by
  simp [Names, Definition.words, hd]

lemma isChain_singleton (h : table.contains first = true) : table.IsChain [first] first first :=
  ⟨List.nodup_singleton first, by simpa using h, .singleton first, rfl, rfl⟩

lemma IsChain.cons {name : String} (h : table.IsChain names first last) (hname : table.Names name first)
    (hdefined : table.contains name = true) (hfresh : name ∉ names) :
    table.IsChain (name :: names) name last := by
  obtain ⟨rest, rfl⟩ := List.head?_eq_some_iff.1 h.head
  refine ⟨List.nodup_cons.2 ⟨hfresh, h.distinct⟩, ?_, .cons_cons hname h.linked, rfl, h.getLast⟩
  intro other hother
  rcases List.mem_cons.1 hother with rfl | hother
  · exact hdefined
  · exact h.defined other hother

lemma IsChain.cases (h : table.IsChain names first last) :
    table.contains first = true ∧ (names = [first] ∧ last = first ∨
      ∃ rest second, names = first :: rest ∧ first ∉ rest ∧ table.Names first second ∧
        table.IsChain rest second last) := by
  obtain ⟨rest, rfl⟩ := List.head?_eq_some_iff.1 h.head
  refine ⟨h.defined first List.mem_cons_self, ?_⟩
  cases rest with
  | nil => exact .inl ⟨rfl, (Option.some.inj h.getLast).symm⟩
  | cons second rest =>
    obtain ⟨hfresh, hdistinct⟩ := List.nodup_cons.1 h.distinct
    obtain ⟨hname, hlinked⟩ := List.isChain_cons_cons.1 h.linked
    refine .inr ⟨second :: rest, second, rfl, hfresh, hname, hdistinct, ?_, hlinked, rfl, h.getLast⟩
    intro name hmem
    exact h.defined name (List.mem_cons_of_mem first hmem)

end DefineTable

namespace Condition

variable {table : DefineTable} {disabled : List String}

lemma calledMacro?_eq_some_iff {name : String} {d : Definition} :
    calledMacro? table disabled (.identifier name) = some d ↔
      name ∉ disabled ∧ table.get? name = some d := by
  simp [calledMacro?]

lemma leaveOut_uncalled {t : Token} (h : calledMacro? table disabled t = none) (room : Nat) :
    (leaveOut table room disabled t).2 = [] := by
  unfold leaveOut
  rw [h]

lemma leaveOut_noRoom {t : Token} {d : Definition} (h : calledMacro? table disabled t = some d) :
    (leaveOut table 0 disabled t).2 = [d.name] := by
  unfold leaveOut
  rw [h]

lemma leaveOut_called {t : Token} {d : Definition} (h : calledMacro? table disabled t = some d)
    (room : Nat) : (leaveOut table (room + 1) disabled t).2 =
      d.words.flatMap fun u => (leaveOut table room (d.name :: disabled) u).2 := by
  rw [leaveOut, h]

lemma isChain_called {names : List String} {first last : String} (h : table.IsChain names first last)
    (hdisjoint : names.Disjoint disabled) : calledMacro? table disabled (.identifier first) ≠ none := by
  intro hnone
  obtain ⟨d, hd⟩ := Option.isSome_iff_exists.1 (h.cases).1
  have hfresh : first ∉ disabled := hdisjoint (List.mem_of_mem_head? h.head)
  rw [calledMacro?_eq_some_iff.2 ⟨hfresh, hd⟩] at hnone
  cases hnone

/-- The calls that are left out are the ends of the chains that are one macro longer than there is room for
nested expansions. -/
theorem mem_leaveOut_iff (htable : table.IsKeyed) (room : Nat) (first last : String) :
    last ∈ (leaveOut table room disabled (.identifier first)).2 ↔
      ∃ names, table.IsChain names first last ∧ names.length = room + 1 ∧ names.Disjoint disabled := by
  induction room generalizing disabled first with
  | zero =>
    cases hcall : calledMacro? table disabled (.identifier first) with
    | none =>
      rw [leaveOut_uncalled hcall]
      refine ⟨by simp, ?_⟩
      rintro ⟨names, hchain, -, hdisjoint⟩
      exact absurd hcall (isChain_called hchain hdisjoint)
    | some d =>
      obtain ⟨hfresh, hget⟩ := calledMacro?_eq_some_iff.1 hcall
      rw [leaveOut_noRoom hcall, htable first d hget, List.mem_singleton]
      constructor
      · rintro rfl
        have hdefined : table.contains last = true := Option.isSome_iff_exists.2 ⟨d, hget⟩
        exact ⟨[last], DefineTable.isChain_singleton hdefined, rfl, by simpa using hfresh⟩
      · rintro ⟨names, hchain, hlength, -⟩
        rcases hchain.cases.2 with ⟨-, hlast⟩ | ⟨rest, second, rfl, -, -, hrest⟩
        · exact hlast
        · obtain ⟨behind, rfl⟩ := List.head?_eq_some_iff.1 hrest.head
          simp at hlength
  | succ room ih =>
    cases hcall : calledMacro? table disabled (.identifier first) with
    | none =>
      rw [leaveOut_uncalled hcall]
      refine ⟨by simp, ?_⟩
      rintro ⟨names, hchain, -, hdisjoint⟩
      exact absurd hcall (isChain_called hchain hdisjoint)
    | some d =>
      obtain ⟨hfresh, hget⟩ := calledMacro?_eq_some_iff.1 hcall
      have hdefined : table.contains first = true := Option.isSome_iff_exists.2 ⟨d, hget⟩
      rw [leaveOut_called hcall, htable first d hget, List.mem_flatMap]
      constructor
      · rintro ⟨t, ht, hlast⟩
        cases t with
        | identifier second =>
          obtain ⟨names, hchain, hlength, hdisjoint⟩ := ih second |>.1 hlast
          obtain ⟨hfirst, hdisjoint⟩ := List.disjoint_cons_right.1 hdisjoint
          have hnames := (DefineTable.names_iff hget second).2 ht
          exact ⟨first :: names, hchain.cons hnames hdefined hfirst, by rw [List.length_cons, hlength],
            List.disjoint_cons_left.2 ⟨hfresh, hdisjoint⟩⟩
        | _ =>
          rw [leaveOut_uncalled rfl] at hlast
          cases hlast
      · rintro ⟨names, hchain, hlength, hdisjoint⟩
        rcases hchain.cases.2 with ⟨rfl, -⟩ | ⟨rest, second, rfl, hfirst, hnames, hrest⟩
        · simp at hlength
        · refine ⟨.identifier second, (DefineTable.names_iff hget second).1 hnames, ?_⟩
          refine ih second |>.2 ⟨rest, hrest, by simpa using hlength, ?_⟩
          exact List.disjoint_cons_right.2 ⟨hfirst, (List.disjoint_cons_left.1 hdisjoint).2⟩

/-- A condition of one name cannot be expanded exactly if a call is left out. -/
theorem expand_tooDeep_iff (table : DefineTable) (limit : Nat) (t : Token) :
    (∃ last, expand table limit [t] = .error (.expansionTooDeep last limit)) ↔
      ∃ last, last ∈ (leaveOut table limit [] t).2 := by
  have hagrees := expand_agrees table limit [t]
  rw [List.flatMap_singleton, List.flatMap_singleton] at hagrees
  cases hexpand : expand table limit [t] with
  | ok out =>
    rw [hexpand] at hagrees
    have hnone : (leaveOut table limit [] t).2 = [] := (Prod.mk.inj hagrees).2
    simp [hnone]
  | error e =>
    rw [hexpand] at hagrees
    obtain ⟨name, hhead, rfl⟩ := hagrees
    exact ⟨fun _ => ⟨name, List.mem_of_mem_head? hhead⟩, fun _ => ⟨name, rfl⟩⟩

end Condition

namespace Preprocessor

open Condition

/-- A macro that a text calls is nested too deep exactly if there is a chain from it that is longer than
the limit. The reports name the ends of such chains and stand where the macro was called, and the same
chains decide whether a condition can be expanded. -/
theorem exceeds_iff_chain (fs : FileSystem) {p : Preprocessor} (hp : p.defines.IsKeyed)
    (hexpansions : p.expansions = []) {f : Frame} {outer : List Frame} (hframes : p.frames = f :: outer)
    (hactive : f.isActive = true) {x : Lexeme} {rest : List Lexeme} (hlexemes : f.lexemes = x :: rest)
    {name : String} (hx : x.token = .identifier name) :
    ∃ delivered reports,
      Run fs p delivered ((p.afterLexeme f outer x rest false).noteAll reports) ∧
      (reports ≠ [] ↔ ∃ names last, p.defines.IsChain names name last ∧
        names.length = p.limits.expansion + 1) ∧
      (∀ d, d ∈ reports ↔ ∃ names last, p.defines.IsChain names name last ∧
        names.length = p.limits.expansion + 1 ∧ d = p.tooDeep x.location last) ∧
      ((∃ last, expand p.defines p.limits.expansion [.identifier name] =
          .error (.expansionTooDeep last p.limits.expansion)) ↔
        ∃ names last, p.defines.IsChain names name last ∧ names.length = p.limits.expansion + 1) := by
  have hskipped : x.token.isSkipped = false := by rw [hx]; rfl
  have hfollows := lexeme_follows hframes fs hp hexpansions hactive hlexemes (by simp [hx]) (by simp [hx])
  rw [hskipped, Bool.and_false, if_neg Bool.false_ne_true, if_neg Bool.false_ne_true] at hfollows
  have hleft (last : String) : last ∈ (leaveOut p.defines p.limits.expansion [] x.token).2 ↔
      ∃ names, p.defines.IsChain names name last ∧ names.length = p.limits.expansion + 1 := by
    rw [hx, mem_leaveOut_iff hp]
    simp
  have hreports (d : Diagnostic) : d ∈ p.refused p.limits.expansion x.located ↔
      ∃ names last, p.defines.IsChain names name last ∧ names.length = p.limits.expansion + 1 ∧
        d = p.tooDeep x.location last := by
    have hexpanding : p.expanding = [] := by rw [expanding, hexpansions, List.map_nil]
    rw [refused, hexpanding, List.mem_map]
    constructor
    · rintro ⟨last, hlast, rfl⟩
      obtain ⟨names, hchain, hlength⟩ := (hleft last).1 hlast
      exact ⟨names, last, hchain, hlength, rfl⟩
    · rintro ⟨names, last, hchain, hlength, rfl⟩
      exact ⟨last, (hleft last).2 ⟨names, hchain, hlength⟩, rfl⟩
  refine ⟨_, _, hfollows.run, ?_, hreports, ?_⟩
  · constructor
    · intro hne
      obtain ⟨d, hd⟩ := List.exists_mem_of_ne_nil _ hne
      obtain ⟨names, last, hchain, hlength, -⟩ := (hreports d).1 hd
      exact ⟨names, last, hchain, hlength⟩
    · rintro ⟨names, last, hchain, hlength⟩
      exact List.ne_nil_of_mem ((hreports _).2 ⟨names, last, hchain, hlength, rfl⟩)
  · rw [expand_tooDeep_iff, ← hx]
    simp only [hleft]
    exact exists_comm

/-- Two macros that call each other. -/
def callingEachOther : DefineTable :=
  { entries := [("A", { name := "A", body := [⟨.start, .identifier "B"⟩] }),
      ("B", { name := "B", body := [⟨.start, .identifier "A"⟩] })] }

lemma callingEachOther_isKeyed : callingEachOther.IsKeyed := by
  intro name d h
  simp only [callingEachOther, DefineTable.get?, List.lookup_cons, List.lookup_nil] at h
  split at h
  next hname =>
    obtain rfl := Option.some.inj h
    exact (eq_of_beq hname).symm
  · split at h
    next hname =>
      obtain rfl := Option.some.inj h
      exact (eq_of_beq hname).symm
    · cases h

lemma callingEachOther_isChain : callingEachOther.IsChain ["A", "B"] "A" "B" := by
  refine ⟨by decide, by decide, .cons_cons ?_ (.singleton "B"), rfl, rfl⟩
  exact ⟨{ name := "A", body := [⟨.start, .identifier "B"⟩] }, rfl, by simp⟩

theorem exceeds_iff_chain_callingEachOther :
    callingEachOther.IsKeyed ∧ callingEachOther.IsChain ["A", "B"] "A" "B" ∧
      (∃ delivered q, Run .empty (readingName.withDefines callingEachOther) delivered q ∧
        q.lexemes = [] ∧ q.expansions = [] ∧
        (readingName.withDefines callingEachOther).tooDeep .start "B" ∈ q.diagnostics) ∧
      ∃ last, expand callingEachOther 1 [.identifier "A"] = .error (.expansionTooDeep last 1) := by
  obtain ⟨delivered, reports, hrun, -, hreports, hexpand⟩ :=
    exceeds_iff_chain .empty (p := readingName.withDefines callingEachOther) callingEachOther_isKeyed
      rfl rfl rfl rfl rfl
  have hreport : (readingName.withDefines callingEachOther).tooDeep .start "B" ∈ reports :=
    (hreports _).2 ⟨["A", "B"], "B", callingEachOther_isChain, rfl, rfl⟩
  refine ⟨callingEachOther_isKeyed, callingEachOther_isChain, ⟨delivered, _, hrun, rfl, rfl, ?_⟩, ?_⟩
  · simp [noteAll, diagnostics, hreport]
  · exact hexpand.2 ⟨["A", "B"], "B", callingEachOther_isChain, rfl⟩

end Preprocessor

end Shading
