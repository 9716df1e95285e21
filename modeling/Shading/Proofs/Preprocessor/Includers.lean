import Shading.Proofs.Preprocessor.Inclusion
import Shading.Proofs.Preprocessor.Queue

/-!
# Included and including sources

Only the innermost source is read, and directives change only its groups. So all sources behind it stay as
they were when the next one was entered: they are active, and they go on where they stopped. Sources are
entered within a limit and never within themselves, and in each of them the innermost group knows whether
all groups around it count.
-/

namespace Shading

namespace Group

/-- Whether text within these groups counts, of which the innermost comes first. -/
def countsIn : List Group → Bool
  | [] => true
  | g :: _ => g.active

/-- Each of the groups knows whether the text around it counts, and counts only if that does. -/
def IsNested : List Group → Prop
  | [] => True
  | g :: outer => g.enclosing = countsIn outer ∧ (g.active = true → g.enclosing = true) ∧ IsNested outer

/-- How a directive changes the open groups. -/
inductive Regroups : List Group → List Group → Prop
  | keep (groups : List Group) : Regroups groups groups
  | opened (groups : List Group) (condition : Bool) :
      Regroups groups (Group.opened (countsIn groups) condition :: groups)
  | branch (g : Group) (outer : List Group) {selected : Bool} (h : selected = true → g.isOpenToBranch = true) :
      Regroups (g :: outer) (g.branch selected :: outer)
  | lastBranch (g : Group) (outer : List Group) : Regroups (g :: outer) (g.lastBranch :: outer)
  | close (g : Group) (outer : List Group) : Regroups (g :: outer) outer

variable {groups groups' : List Group}

lemma IsNested.enclosing (h : IsNested groups) {g : Group} {outer : List Group} (hg : g :: outer <:+ groups) :
    g.enclosing = countsIn outer := by
  induction groups with
  | nil => simp at hg
  | cons g' groups ih =>
    rcases List.suffix_cons_iff.1 hg with heq | hg
    · obtain ⟨rfl, rfl⟩ := List.cons.inj heq
      exact h.1
    · exact ih h.2.2 hg

lemma IsNested.countsIn_iff (h : IsNested groups) :
    countsIn groups = true ↔ ∀ g ∈ groups, g.active = true := by
  induction groups with
  | nil => simp [countsIn]
  | cons g outer ih =>
    obtain ⟨henclosing, hcounts, houter⟩ := h
    rw [List.forall_mem_cons, ← ih houter, ← henclosing]
    exact ⟨fun hg => ⟨hg, hcounts hg⟩, fun hg => hg.1⟩

lemma IsNested.regroups (h : IsNested groups) (hr : Regroups groups groups') : IsNested groups' := by
  cases hr with
  | keep => exact h
  | opened condition =>
    refine ⟨rfl, ?_, h⟩
    intro hactive
    exact (Bool.and_eq_true_iff.1 hactive).1
  | branch g outer hselected =>
    refine ⟨h.1, ?_, h.2.2⟩
    intro hactive
    exact (Bool.and_eq_true_iff.1 (hselected hactive)).1
  | lastBranch g outer =>
    refine ⟨h.1, ?_, h.2.2⟩
    intro hactive
    exact (Bool.and_eq_true_iff.1 hactive).1
  | close => exact h.2.2

end Group

lemma Frame.isActive_eq (f : Frame) : f.isActive = Group.countsIn f.groups := by
  unfold isActive Group.countsIn
  cases f.groups <;> rfl

namespace Preprocessor

open Shading.Group

/-! ### What directives do to the sources -/

/-- The groups of the current source change, or another source is entered, from text that counts, within the
limit and from no source in the same file. -/
inductive Turns (fs : FileSystem) (p q : Preprocessor) : Prop
  | regroup {groups : List Group} (h : Regroups p.groups groups) (hq : q.frames = (p.setGroups groups).frames)
  | enter {frame : Frame} (hactive : p.isActive = true) (hroom : p.frames.length ≤ p.limits.includeDepth)
      (hfile : frame.file = frame.source.path?.map fs.canonical) (hgroups : frame.groups = [])
      (hfresh : ∀ file, frame.file = some file → ∀ f ∈ p.frames, f.file ≠ some file)
      (hq : q.frames = frame :: p.frames)

/-- What a directive that is obeyed does to the sources. -/
def TurnsTo (fs : FileSystem) (p : Preprocessor) : Except Rejection Preprocessor → Prop
  | .ok q => Turns fs p q
  | .error _ => True

section Turns

variable {fs : FileSystem} {p q : Preprocessor}

lemma isActive_eq (p : Preprocessor) : p.isActive = countsIn p.groups := by
  unfold isActive groups
  cases p.frames with
  | nil => rfl
  | cons f outer => exact f.isActive_eq

lemma turns_same (h : q.frames = p.frames) : Turns fs p q :=
  .regroup (.keep p.groups) (h.trans (frames_setGroups_groups p).symm)

lemma turns_openGroup (fs : FileSystem) (p : Preprocessor) (question : Except Rejection Bool) :
    Turns fs p (p.openGroup question) := by
  unfold openGroup
  rw [isActive_eq]
  refine .regroup (.opened p.groups _) (frames_setGroups ?_ _)
  split
  · exact frames_ask p question
  · rfl

lemma turns_openBranch (fs : FileSystem) (p : Preprocessor) (d : Directive) :
    TurnsTo fs p (p.openBranch d) := by
  unfold openBranch
  split
  · trivial
  next g outer hgroups =>
    split
    · trivial
    · have hbranch {asked : Preprocessor × Bool} (hframes : asked.1.frames = p.frames)
          (hselected : asked.2 = true → g.isOpenToBranch = true) :
          Turns fs p (asked.1.setGroups (g.branch asked.2 :: outer)) := by
        refine .regroup ?_ (frames_setGroups hframes _)
        rw [hgroups]
        exact .branch g outer hselected
      cases hopen : g.isOpenToBranch with
      | true => exact hbranch (frames_ask p _) fun _ => hopen
      | false => exact hbranch rfl fun hselected => absurd hselected Bool.false_ne_true

lemma turns_openLastBranch (fs : FileSystem) (p : Preprocessor) (d : Directive) :
    TurnsTo fs p (p.openLastBranch d) := by
  unfold openLastBranch
  split
  · trivial
  next g outer hgroups =>
    split
    · trivial
    · exact .regroup (by rw [hgroups]; exact .lastBranch g outer) rfl

lemma turns_closeGroup (fs : FileSystem) (p : Preprocessor) (d : Directive) :
    TurnsTo fs p (p.closeGroup d) := by
  unfold closeGroup
  split
  · trivial
  next g outer hgroups => exact .regroup (by rw [hgroups]; exact .close g outer) rfl

lemma turns_enter (fs : FileSystem) (hactive : p.isActive = true) (location : Location) (isLocal : Bool)
    (name : String) : TurnsTo fs p (p.enter fs location isLocal name) := by
  apply enter_cases (motive := TurnsTo fs p)
  case nothing => exact fun _ => turns_same rfl
  case tooDeep => exact fun _ _ _ _ => trivial
  case unresolved => exact fun _ _ _ _ _ _ => trivial
  case cyclic => exact fun _ _ _ _ _ _ _ _ _ => trivial
  case entered =>
    intro f _ _ hroom frame hframe hfresh
    obtain ⟨source, content, rfl⟩ := includedFrame_ofContent fs hframe
    exact .enter hactive hroom rfl rfl hfresh rfl

lemma turns_obey (fs : FileSystem) (p : Preprocessor) (d : Directive) : TurnsTo fs p (p.obey fs d) := by
  apply obey_cases (motive := TurnsTo fs p)
  case ifDefined | ifNotDefined | ifHolds => exact fun _ => turns_openGroup fs p _
  case elseIf => exact fun _ => turns_openBranch fs p d
  case otherwise => exact fun _ => turns_openLastBranch fs p d
  case endIf => exact fun _ => turns_closeGroup fs p d
  case inactive | ignored => exact fun _ => turns_same rfl
  case define | undefine => exact fun _ _ _ _ => turns_same rfl
  case includeFile => exact fun _ hactive _ _ _ => turns_enter fs hactive _ _ _
  case warn => exact fun _ _ => turns_same rfl
  case noDefinition | noMacro | noFile => exact fun _ _ _ _ => trivial
  case raise | unknown => exact fun _ _ => trivial

lemma turns_obeyLine (fs : FileSystem) (p : Preprocessor) (hash : Location) (line : List LocatedToken) :
    Turns fs p (p.obeyLine fs hash line) := by
  apply obeyLine_cases (motive := Turns fs p)
  case same => exact turns_same rfl
  case noName => exact fun _ _ _ => turns_same rfl
  case obeyed =>
    intro location name args q _ hq
    have hobey := turns_obey fs p { hash, name, location, args }
    rwa [hq] at hobey
  case rejected => exact fun _ _ _ _ _ _ => turns_same rfl

end Turns

/-! ### What steps do to the sources -/

/-- The sources behind a step: the same ones, or the innermost one has been read from, has entered another
one behind a line, or has ended. -/
inductive FramesBehind (fs : FileSystem) (p q : Preprocessor) : Prop
  | same (hq : q.frames = p.frames)
  | read {f : Frame} {outer : List Frame} {lexemes : List Lexeme} {atLineStart : Bool} {groups : List Group}
      (hp : p.frames = f :: outer) (hgroups : Regroups f.groups groups)
      (hq : q.frames = { f with lexemes, atLineStart, groups } :: outer)
  | enter {f frame : Frame} {outer : List Frame} (hp : p.frames = f :: outer) (hactive : f.isActive = true)
      (hroom : p.frames.length ≤ p.limits.includeDepth)
      (hfile : frame.file = frame.source.path?.map fs.canonical) (hgroups : frame.groups = [])
      (hfresh : ∀ file, frame.file = some file → ∀ g ∈ p.frames, g.file ≠ some file)
      (hq : q.frames = frame ::
        { f with lexemes := (f.lexemes.dropWhile (·.token != .newline)).drop 1, atLineStart := true } :: outer)
  | leave {f : Frame} {outer : List Frame} (hp : p.frames = f :: outer) (houter : outer ≠ [])
      (hq : q.frames = outer)

section Frames

variable {fs : FileSystem} {p q : Preprocessor} {f : Frame} {outer : List Frame}

lemma stepEnd_frames (hp : p.frames = f :: outer) : FramesBehind fs p (p.stepEnd f outer).next := by
  unfold stepEnd
  dsimp only
  split
  · exact .same rfl
  · split
    next => exact .same (by split <;> rfl)
    next houter => exact .leave hp (by simpa using houter) rfl

lemma framesBehind_directive {r : Preprocessor} (h : Turns fs r q) (hp : p.frames = f :: outer)
    (hr : r.frames =
      { f with lexemes := (f.lexemes.dropWhile (·.token != .newline)).drop 1, atLineStart := true } :: outer)
    (hlimits : r.limits = p.limits) : FramesBehind fs p q := by
  cases h with
  | @regroup groups hgroups hq =>
    rw [Preprocessor.groups, hr] at hgroups
    rw [setGroups, mapTop, hr] at hq
    exact .read hp hgroups hq
  | enter hactive hroom hfile hgroups hfresh hq =>
    rw [isActive, hr] at hactive
    rw [hr, hlimits] at hroom
    rw [hr] at hq
    refine .enter hp hactive ?_ hfile hgroups ?_ hq
    · rw [hp]
      exact hroom
    · intro file hsame
      have hnone := hfresh file hsame
      rw [hr, List.forall_mem_cons] at hnone
      rw [hp]
      exact List.forall_mem_cons.2 hnone

lemma stepLexeme_frames (fs : FileSystem) (hp : p.frames = f :: outer) {x : Lexeme} {rest : List Lexeme}
    (hf : f.lexemes = x :: rest) : FramesBehind fs p (p.stepLexeme fs f outer x rest).next := by
  have hread {lexemes : List Lexeme} {atLineStart : Bool} {q : Preprocessor}
      (hq : q.frames = { f with lexemes, atLineStart } :: outer) : FramesBehind fs p q :=
    .read hp (.keep f.groups) hq
  apply stepLexeme_cases (motive := fun s => FramesBehind fs p s.next)
  case passed => exact fun _ => hread rfl
  case directive =>
    intro hhash _
    have hbehind : (rest.dropWhile (·.token != .newline)).drop 1 =
        (f.lexemes.dropWhile (·.token != .newline)).drop 1 := by
      rw [hf, List.dropWhile_cons, if_pos (by simp [hhash])]
    rw [hbehind]
    exact framesBehind_directive (turns_obeyLine fs _ x.location _) hp rfl rfl
  case placed => exact fun _ _ _ _ => hread (place_isPlaced _ _).frames

lemma framesBehind_step (fs : FileSystem) (p : Preprocessor) : FramesBehind fs p (p.step fs).next := by
  cases hexpansions : p.expansions with
  | cons e outer =>
    cases (step_isStep fs p).sources with
    | same h => exact .same h
    | read hnone => simp [hnone] at hexpansions
    | enter hnone => simp [hnone] at hexpansions
    | leave hnone => simp [hnone] at hexpansions
  | nil =>
    unfold step
    rw [hexpansions]
    dsimp only
    split
    · exact .same rfl
    next hp =>
      split
      · exact stepEnd_frames hp
      next hf => exact stepLexeme_frames fs hp hf

lemma suffix_step {includers : List Frame} (h : includers <:+ p.frames)
    (hlength : includers.length < p.frames.length) : includers <:+ (p.step fs).next.frames := by
  have hbehind {f : Frame} {outer : List Frame} (hp : p.frames = f :: outer) : includers <:+ outer := by
    rw [hp] at h hlength
    rcases List.suffix_cons_iff.1 h with rfl | h
    · exact absurd hlength (lt_irrefl _)
    · exact h
  cases framesBehind_step fs p with
  | same hq => rwa [hq]
  | read hp hgroups hq =>
    rw [hq]
    exact (hbehind hp).trans (List.suffix_cons _ _)
  | enter hp hactive hroom hfile hgroups hfresh hq =>
    rw [hq]
    exact (hbehind hp).trans ((List.suffix_cons _ _).trans (List.suffix_cons _ _))
  | leave hp houter hq =>
    rw [hq]
    exact hbehind hp

end Frames

/-! ### The sources that include each other -/

/-- The sources are not nested deeper than the limit, no two are in the same file, all of them but the
innermost one are active, and their groups are nested. -/
structure IsStacked (fs : FileSystem) (limit : Nat) (frames : List Frame) : Prop where
  depth : frames.length ≤ limit + 1
  files : ∀ f ∈ frames, f.file = f.source.path?.map fs.canonical
  distinct : (frames.filterMap (·.file)).Nodup
  active : ∀ f ∈ frames.tail, f.isActive = true
  nested : ∀ f ∈ frames, IsNested f.groups

section Stacked

variable {fs : FileSystem} {limit : Nat} {f frame : Frame} {outer : List Frame} {p : Preprocessor}

lemma IsStacked.read (h : IsStacked fs limit (f :: outer)) {groups : List Group}
    (hgroups : Regroups f.groups groups) (lexemes : List Lexeme) (atLineStart : Bool) :
    IsStacked fs limit ({ f with lexemes, atLineStart, groups } :: outer) := by
  obtain ⟨hfile, hfiles⟩ := List.forall_mem_cons.1 h.files
  obtain ⟨hnested, houter⟩ := List.forall_mem_cons.1 h.nested
  refine ⟨h.depth, List.forall_mem_cons.2 ⟨hfile, hfiles⟩, ?_, h.active,
    List.forall_mem_cons.2 ⟨hnested.regroups hgroups, houter⟩⟩
  have hdistinct := h.distinct
  rw [List.filterMap_cons] at hdistinct ⊢
  exact hdistinct

lemma IsStacked.enter (h : IsStacked fs limit (f :: outer)) (hactive : f.isActive = true)
    (hroom : (f :: outer).length ≤ limit) (hfile : frame.file = frame.source.path?.map fs.canonical)
    (hgroups : frame.groups = [])
    (hfresh : ∀ file, frame.file = some file → ∀ g ∈ f :: outer, g.file ≠ some file) :
    IsStacked fs limit (frame :: f :: outer) := by
  refine ⟨Nat.succ_le_succ hroom, List.forall_mem_cons.2 ⟨hfile, h.files⟩, ?_,
    List.forall_mem_cons.2 ⟨hactive, h.active⟩, List.forall_mem_cons.2 ⟨?_, h.nested⟩⟩
  · cases hframe : frame.file with
    | none =>
      rw [List.filterMap_cons_none hframe]
      exact h.distinct
    | some file =>
      rw [List.filterMap_cons_some hframe]
      refine List.nodup_cons.2 ⟨?_, h.distinct⟩
      intro hmem
      obtain ⟨g, hg, hsame⟩ := List.mem_filterMap.1 hmem
      exact hfresh file hframe g hg hsame
  · rw [hgroups]
    trivial

lemma IsStacked.leave (h : IsStacked fs limit (f :: outer)) : IsStacked fs limit outer := by
  refine ⟨(Nat.le_succ _).trans h.depth, (List.forall_mem_cons.1 h.files).2, ?_, ?_,
    (List.forall_mem_cons.1 h.nested).2⟩
  · exact h.distinct.sublist ((List.sublist_cons_self f outer).filterMap _)
  · intro g hg
    exact h.active g (List.mem_of_mem_tail hg)

lemma isStacked_start (c : Compiler) (fs : FileSystem) (source : Source) :
    IsStacked fs (c.preprocessor fs source).limits.includeDepth (c.preprocessor fs source).frames := by
  unfold Compiler.preprocessor start
  dsimp only
  split
  next content loaded _ =>
    refine ⟨by simp, List.forall_mem_singleton.2 rfl, ?_, by simp, List.forall_mem_singleton.2 trivial⟩
    cases hfile : (Frame.ofContent fs loaded content).file <;> simp [hfile]
  · constructor <;> simp [error, report, note]

theorem isStacked_step (fs : FileSystem) (h : IsStacked fs p.limits.includeDepth p.frames) :
    IsStacked fs (p.step fs).next.limits.includeDepth (p.step fs).next.frames := by
  rw [(changes_keep (changes_step fs p)).1]
  cases framesBehind_step fs p with
  | same hq => rwa [hq]
  | read hp hgroups hq =>
    rw [hp] at h
    rw [hq]
    exact h.read hgroups _ _
  | enter hp hactive hroom hfile hgroups hfresh hq =>
    rw [hp] at h hroom hfresh
    rw [hq]
    refine (h.read (.keep _) _ true).enter hactive hroom hfile hgroups fun file hsame => ?_
    exact List.forall_mem_cons.2 (List.forall_mem_cons.1 (hfresh file hsame))
  | leave hp houter hq =>
    rw [hp] at h
    rw [hq]
    exact h.leave

lemma Visited.isStacked (h : p.Visited fs) : IsStacked fs p.limits.includeDepth p.frames :=
  h.induction (I := fun p => IsStacked fs p.limits.includeDepth p.frames)
    (fun c _ source => isStacked_start c fs source) (fun _ hp => isStacked_step fs hp)
    (fun _ _ _ hp => hp)

end Stacked

/-! ### All of it -/

/-- The sources of a state belong together. Where one is entered its includer has been read up to the next
line, and whatever sources are innermost at any time, those behind them stay as they are until the last one
in front of them has ended. Text counts, and something other than the end is delivered, only where all
groups of all sources count. -/
structure KeepsIncluders (fs : FileSystem) (p : Preprocessor) : Prop where
  depth : p.frames.length ≤ p.limits.includeDepth + 1
  distinct : ((p.frames.filterMap (·.source.path?)).map fs.canonical).Nodup
  active : ∀ f ∈ p.frames.tail, f.isActive = true
  entered : p.frames.length < (p.step fs).next.frames.length → ∃ frame f outer,
    p.frames = f :: outer ∧ (p.step fs).next.frames = frame ::
      { f with lexemes := (f.lexemes.dropWhile (·.token != .newline)).drop 1, atLineStart := true } :: outer
  kept : ∀ inner includers, p.frames = inner ++ includers → ∀ q,
    Relation.ReflTransGen (fun a b => Moves fs a b ∧ includers.length < a.frames.length) p q →
      includers <:+ q.frames ∧ (q.frames.length ≤ includers.length → q.frames = includers)
  enclosing : ∀ f ∈ p.frames, ∀ g outer, g :: outer <:+ f.groups → g.enclosing = countsIn outer
  counts : p.isActive = true ↔ ∀ f ∈ p.frames, ∀ g ∈ f.groups, g.active = true
  delivered : ∀ t q, p.step fs = .deliver t q → t.token ≠ .eof → p.isActive = true

section KeepsIncluders

variable {fs : FileSystem} {p q : Preprocessor} {includers : List Frame}

lemma suffix_move (h : includers <:+ p.frames) (hlength : includers.length < p.frames.length)
    (hmove : Moves fs p q) : includers <:+ q.frames := by
  obtain ⟨lookahead, log, rfl | rfl⟩ := hmove.eq
  · exact h
  · exact suffix_step h hlength

lemma suffix_moves (h : includers <:+ p.frames)
    (hmoves : Relation.ReflTransGen (fun a b => Moves fs a b ∧ includers.length < a.frames.length) p q) :
    includers <:+ q.frames := by
  induction hmoves with
  | refl => exact h
  | tail _ hlast ih => exact suffix_move ih hlast.2 hlast.1

lemma IsStacked.counts {limit : Nat} (h : IsStacked fs limit p.frames) :
    p.isActive = true ↔ ∀ f ∈ p.frames, ∀ g ∈ f.groups, g.active = true := by
  unfold isActive
  cases hframes : p.frames with
  | nil => simp
  | cons f outer =>
    rw [hframes] at h
    dsimp only
    rw [f.isActive_eq, (h.nested f List.mem_cons_self).countsIn_iff, List.forall_mem_cons]
    refine ⟨fun hf => ⟨hf, fun f' hf' => ?_⟩, fun hall => hall.1⟩
    have hactive := h.active f' hf'
    rw [f'.isActive_eq] at hactive
    exact (h.nested f' (List.mem_cons_of_mem f hf')).countsIn_iff.1 hactive

/-- A macro was called in text that counts, and no group has changed since. -/
theorem Visited.isActive_expanding (h : p.Visited fs) (hp : p.expansions ≠ []) : p.isActive = true := by
  obtain ⟨p₀, x, hcalled⟩ := h.calledFrom hp
  have hactive := hcalled.active
  have hframes := hcalled.frames
  unfold isActive mapTop at *
  cases hp₀ : p₀.frames with
  | nil => simp [hframes, hp₀]
  | cons f outer =>
    rw [hp₀] at hactive hframes
    rw [hframes]
    exact hactive

/-- In every state that preprocessing comes to, for all files and limits, the sources belong together. -/
theorem visited_keepsIncluders (h : p.Visited fs) : KeepsIncluders fs p := by
  have hstacked := h.isStacked
  constructor
  case depth => exact hstacked.depth
  case distinct =>
    have hfiles : (p.frames.filterMap (·.source.path?)).map fs.canonical = p.frames.filterMap (·.file) := by
      rw [List.map_filterMap]
      exact (List.filterMap_congr hstacked.files).symm
    rw [hfiles]
    exact hstacked.distinct
  case active => exact hstacked.active
  case entered =>
    intro hlonger
    cases framesBehind_step fs p with
    | same hq => exact absurd hlonger (by simp [hq])
    | read hp hgroups hq => exact absurd hlonger (by simp [hp, hq])
    | enter hp hactive hroom hfile hgroups hfresh hq => exact ⟨_, _, _, hp, hq⟩
    | leave hp houter hq => exact absurd hlonger (by simp [hp, hq])
  case kept =>
    intro inner includers hframes q hmoves
    have hsuffix := suffix_moves ⟨inner, hframes.symm⟩ hmoves
    exact ⟨hsuffix, fun hlength => (hsuffix.eq_of_length_le hlength).symm⟩
  case enclosing => exact fun f hf g outer hg => (hstacked.nested f hf).enclosing hg
  case counts => exact hstacked.counts
  case delivered =>
    intro t q hdeliver ht
    rcases deliver_cases hdeliver with heof | ⟨r, u, -, hactive⟩
    · exact absurd heof ht
    · by_cases hp : p.expansions = []
      · exact hactive hp
      · exact h.isActive_expanding hp

/-- A program that includes a part within a group, and the part, whose groups are unbalanced. -/
def unbalancedPart : FileSystem :=
  twoFiles (Text.bytes "#if 1\n#include \"part\"\n#endif\n") (Text.bytes "#endif\n#else\n#ifdef A\n")

/-- The state in which the part has just been entered. -/
def enteredPart : Preprocessor :=
  (({} : Compiler).preprocessor unbalancedPart (.ofFile ⟨"main"⟩)).steps unbalancedPart 2

theorem visited_keepsIncluders_unbalancedPart :
    enteredPart.Visited unbalancedPart ∧ KeepsIncluders unbalancedPart enteredPart ∧
      enteredPart.frames.length = 2 ∧
      (enteredPart.steps unbalancedPart 4).frames = enteredPart.frames.tail := by
  have hvisited : enteredPart.Visited unbalancedPart :=
    (Visited.start (.new {}) (.ofFile ⟨"main"⟩)).steps (preprocessor_start _ _ _).1 2
  exact ⟨hvisited, visited_keepsIncluders hvisited, by decide +kernel, by decide +kernel⟩

end KeepsIncluders

end Preprocessor

end Shading
