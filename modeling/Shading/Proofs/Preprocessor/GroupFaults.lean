import Shading.Proofs.Preprocessor.Causes
import Shading.Proofs.Preprocessor.Nesting

/-!
# Faults in the nesting of groups

Whether a directive is in its place among the open groups does not depend on which branches are selected:
what is to be reported about groups can be read off the directives of a source. There is nothing to report
exactly if the source is a section with well nested groups.
-/

namespace Shading

/-- Whether the diagnostic is about a directive or an end that is out of place among the open groups. -/
def Diagnostic.isGroupFault (d : Diagnostic) : Bool :=
  match d.problem with
  | .error cause => cause.isOfGroup
  | .warning _ => false

/-! ### The reports about directives -/

/-- Why a further branch cannot begin. Of each open group, the innermost first, is given whether its last
branch has begun. -/
def branchError? (name : String) : List Bool → Option DirectiveError
  | [] => some (.withoutIf name)
  | true :: _ => some (.afterElse name)
  | false :: _ => none

namespace Keyword

/-- Why a directive is out of place among the open groups. -/
def groupError? (opened : List Bool) : Keyword → Option DirectiveError
  | elseIf => branchError? "elif" opened
  | otherwise => branchError? "else" opened
  | endIf => if opened.isEmpty then some (.withoutIf "endif") else none
  | _ => none

/-- The open groups behind a directive. One that is out of place changes nothing. -/
def openedBehind (opened : List Bool) : Keyword → List Bool
  | ifDefined | ifNotDefined | ifHolds => false :: opened
  | otherwise =>
    match opened with
    | [] => []
    | _ :: outer => true :: outer
  | endIf => opened.tail
  | _ => opened

lemma spelling {name : String} {k : Keyword} (h : ofName name = k) :
    (k = .elseIf → name = "elif") ∧ (k = .otherwise → name = "else") ∧ (k = .endIf → name = "endif") := by
  subst h
  unfold ofName
  split <;> simp

end Keyword

/-- What is reported about the groups of a source with these directives. -/
def groupFaults (source : String) (stop : Location) : List Bool → List Directive → List Diagnostic
  | opened, [] =>
    if opened.isEmpty then []
    else [{ source, location := stop, token := .eof, problem := .error (.directive .unterminatedIf) }]
  | opened, d :: ds =>
    let keyword := Keyword.ofName d.name
    let fault? := (keyword.groupError? opened).map fun cause =>
      (Rejection.directive d.location (.identifier d.name) cause).diagnostic source
    fault?.toList ++ groupFaults source stop (keyword.openedBehind opened) ds

namespace Line

/-- The directives on the lines. -/
def directives (ls : List Line) : List Directive :=
  (ls.filterMap directive?).filterMap (·.toOption)

/-- What the line asks for. Text asks for nothing. -/
def asks (l : Line) : Keyword :=
  l.keyword?.getD .ignored

variable {l : Line} {ls : List Line} {opened : List Bool} {source : String} {stop : Location}

lemma groupFaults_cons_eq_nil : groupFaults source stop opened (directives (l :: ls)) = [] ↔
    l.asks.groupError? opened = none ∧
      groupFaults source stop (l.asks.openedBehind opened) (directives ls) = [] := by
  unfold directives asks keyword?
  rcases hl : l.directive? with _ | _ | d
  · rw [List.filterMap_cons_none hl]
    cases opened <;> simp [Keyword.groupError?, Keyword.openedBehind]
  · rw [List.filterMap_cons_some hl, List.filterMap_cons_none rfl]
    cases opened <;> simp [Keyword.groupError?, Keyword.openedBehind]
  · have hd : (Except.ok d : Except Rejection Directive).toOption = some d := rfl
    rw [List.filterMap_cons_some hl, List.filterMap_cons_some hd, groupFaults]
    simp

lemma asks_of_keyword {k : Keyword} (h : l.keyword? = some k) : l.asks = k := by
  rw [asks, h, Option.getD_some]

lemma groupFaults_plain (h : l.isPlain = true) : groupFaults source stop opened (directives (l :: ls)) = [] ↔
    groupFaults source stop opened (directives ls) = [] := by
  have hkeep : l.asks.groupError? opened = none ∧ l.asks.openedBehind opened = opened := by
    unfold isPlain opens at h
    unfold asks
    rcases hk : l.keyword? with _ | k
    · cases opened <;> exact ⟨rfl, rfl⟩
    · cases k <;> simp [hk] at h <;> cases opened <;> exact ⟨rfl, rfl⟩
  rw [groupFaults_cons_eq_nil, hkeep.1, hkeep.2]
  simp

lemma groupFaults_opener (h : l.opens = true) : groupFaults source stop opened (directives (l :: ls)) = [] ↔
    groupFaults source stop (false :: opened) (directives ls) = [] := by
  have hopens : l.asks.groupError? opened = none ∧ l.asks.openedBehind opened = false :: opened := by
    unfold opens at h
    unfold asks
    rcases hk : l.keyword? with _ | k
    · simp [hk] at h
    · cases k <;> simp [hk] at h <;> cases opened <;> exact ⟨rfl, rfl⟩
  rw [groupFaults_cons_eq_nil, hopens.1, hopens.2]
  simp

lemma groupFaults_elseIf (h : l.keyword? = some .elseIf) :
    groupFaults source stop opened (directives (l :: ls)) = [] ↔
      opened.head? = some false ∧ groupFaults source stop opened (directives ls) = [] := by
  rw [groupFaults_cons_eq_nil, asks_of_keyword h]
  rcases opened with _ | ⟨_ | _, outer⟩ <;> simp [Keyword.groupError?, branchError?, Keyword.openedBehind]

lemma groupFaults_otherwise (h : l.keyword? = some .otherwise) :
    groupFaults source stop opened (directives (l :: ls)) = [] ↔
      opened.head? = some false ∧ groupFaults source stop (true :: opened.tail) (directives ls) = [] := by
  rw [groupFaults_cons_eq_nil, asks_of_keyword h]
  rcases opened with _ | ⟨_ | _, outer⟩ <;> simp [Keyword.groupError?, branchError?, Keyword.openedBehind]

lemma groupFaults_endIf (h : l.keyword? = some .endIf) :
    groupFaults source stop opened (directives (l :: ls)) = [] ↔
      opened ≠ [] ∧ groupFaults source stop opened.tail (directives ls) = [] := by
  rw [groupFaults_cons_eq_nil, asks_of_keyword h]
  cases opened <;> simp [Keyword.groupError?, Keyword.openedBehind]

end Line

/-! ### Sections -/

section Sections

variable {source : String} {stop : Location}

mutual

/-- A section leaves the open groups as they are. -/
theorem Section.groupFaults_eq_nil (s : Section) (opened : List Bool) (rest : List Line) :
    groupFaults source stop opened (Line.directives (s.lines ++ rest)) = [] ↔
      groupFaults source stop opened (Line.directives rest) = [] := by
  match s with
  | .nil => rfl
  | .line l h following =>
    rw [Section.lines, List.cons_append, Line.groupFaults_plain h]
    exact following.groupFaults_eq_nil opened rest
  | .group opener h body branches following =>
    rw [Section.lines, List.cons_append, Line.groupFaults_opener h, List.append_assoc, List.append_assoc,
      body.groupFaults_eq_nil, branches.groupFaults_eq_nil]
    exact following.groupFaults_eq_nil opened rest

/-- The branches of a group end the innermost one. -/
theorem Branches.groupFaults_eq_nil (b : Branches) (opened : List Bool) (rest : List Line) :
    groupFaults source stop (false :: opened) (Line.directives (b.lines ++ rest)) = [] ↔
      groupFaults source stop opened (Line.directives rest) = [] := by
  match b with
  | .endIf l h =>
    rw [Branches.lines, List.singleton_append, Line.groupFaults_endIf h]
    simp
  | .otherwise l h body last hlast =>
    rw [Branches.lines, List.cons_append, Line.groupFaults_otherwise h, List.append_assoc,
      body.groupFaults_eq_nil, List.singleton_append, Line.groupFaults_endIf hlast]
    simp
  | .elseIf l h body branches =>
    rw [Branches.lines, List.cons_append, Line.groupFaults_elseIf h, List.append_assoc,
      body.groupFaults_eq_nil, branches.groupFaults_eq_nil]
    simp

end

/-- The lines complete the open groups, of which is given whether their last branches have begun. -/
inductive Completes : List Bool → List Line → Prop
  | done (s : Section) : Completes [] s.lines
  | branches (s : Section) (b : Branches) {outer : List Bool} {rest : List Line} (h : Completes outer rest) :
      Completes (false :: outer) (s.lines ++ (b.lines ++ rest))
  | last (s : Section) (l : Line) (hl : l.keyword? = some .endIf) {outer : List Bool} {rest : List Line}
      (h : Completes outer rest) : Completes (true :: outer) (s.lines ++ l :: rest)

variable {opened : List Bool} {ls : List Line}

lemma Completes.behind (h : Completes opened ls) {front : List Line}
    (hfront : ∀ s : Section, ∃ s' : Section, s'.lines = front ++ s.lines) : Completes opened (front ++ ls) := by
  cases h with
  | done s =>
    obtain ⟨s', hs'⟩ := hfront s
    rw [← hs']
    exact .done s'
  | branches s b h =>
    obtain ⟨s', hs'⟩ := hfront s
    rw [← List.append_assoc, ← hs']
    exact .branches s' b h
  | last s l hl h =>
    obtain ⟨s', hs'⟩ := hfront s
    rw [← List.append_assoc, ← hs']
    exact .last s' l hl h

/-- A line that no include stands on is plain or a part of a group. -/
lemma Line.isPlain_or_part {l : Line} (h : l.keyword? ≠ some .includeFile) : l.isPlain = true ∨
    l.opens = true ∨ l.keyword? = some .elseIf ∨ l.keyword? = some .otherwise ∨ l.keyword? = some .endIf := by
  unfold isPlain
  by_cases hopens : l.opens = true
  · simp [hopens]
  · by_cases helse : l.keyword? = some .elseIf ∨ l.keyword? = some .otherwise ∨ l.keyword? = some .endIf
    · exact .inr (.inr helse)
    · simp_all

lemma completes_of_groupFaults (hls : ∀ l ∈ ls, l.keyword? ≠ some .includeFile)
    (h : groupFaults source stop opened (Line.directives ls) = []) : Completes opened ls := by
  induction ls generalizing opened with
  | nil =>
    cases opened with
    | nil => exact .done .nil
    | cons elseSeen outer => simp [Line.directives, groupFaults] at h
  | cons l ls ih =>
    obtain ⟨hl, hls⟩ := List.forall_mem_cons.1 hls
    rcases Line.isPlain_or_part hl with hplain | hopens | hkeyword | hkeyword | hkeyword
    · have hrest := ih hls ((Line.groupFaults_plain hplain).1 h)
      have hcompletes : Completes opened ([l] ++ ls) := hrest.behind fun s => ⟨.line l hplain s, rfl⟩
      exact hcompletes
    · have hrest := ih hls ((Line.groupFaults_opener hopens).1 h)
      cases hrest with
      | @branches body b outer rest houter =>
        have hcompletes : Completes opened ((l :: (body.lines ++ b.lines)) ++ rest) :=
          houter.behind fun s => ⟨.group l hopens body b s, by simp [Section.lines]⟩
        simpa using hcompletes
    · obtain ⟨hopen, hrest⟩ := (Line.groupFaults_elseIf hkeyword).1 h
      obtain ⟨outer, rfl⟩ := List.head?_eq_some_iff.1 hopen
      cases ih hls hrest with
      | branches body b houter =>
        have hcompletes := Completes.branches .nil (.elseIf l hkeyword body b) houter
        simpa [Section.lines, Branches.lines] using hcompletes
    · obtain ⟨hopen, hrest⟩ := (Line.groupFaults_otherwise hkeyword).1 h
      obtain ⟨outer, rfl⟩ := List.head?_eq_some_iff.1 hopen
      cases ih hls hrest with
      | last body last hlast houter =>
        have hcompletes := Completes.branches .nil (.otherwise l hkeyword body last hlast) houter
        simpa [Section.lines, Branches.lines] using hcompletes
    · obtain ⟨hopen, hrest⟩ := (Line.groupFaults_endIf hkeyword).1 h
      obtain ⟨elseSeen, outer, rfl⟩ := List.exists_cons_of_ne_nil hopen
      have hcompletes := ih hls hrest
      cases elseSeen with
      | false => exact .branches .nil (.endIf l hkeyword) hcompletes
      | true => exact .last .nil l hkeyword hcompletes

/-- Nothing is reported about the groups of a source exactly if it is a section. -/
theorem groupFaults_eq_nil_iff (hls : ∀ l ∈ ls, l.keyword? ≠ some .includeFile) :
    groupFaults source stop [] (Line.directives ls) = [] ↔ ∃ s : Section, s.lines = ls := by
  constructor
  · intro h
    cases completes_of_groupFaults hls h with
    | done s => exact ⟨s, rfl⟩
  · rintro ⟨s, rfl⟩
    have hsection : groupFaults source stop [] (Line.directives (s.lines ++ [])) = [] :=
      (s.groupFaults_eq_nil [] []).2 rfl
    rwa [List.append_nil] at hsection

end Sections

end Shading
