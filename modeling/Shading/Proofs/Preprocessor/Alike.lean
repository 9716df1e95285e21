import Shading.Proofs.Preprocessor.Depth
import Shading.Proofs.Preprocessor.Lowered
import Shading.Proofs.Preprocessor.Run

/-!
# Alike states

Two states are alike if they have the same macros up to places, and if what they have reported and
what they expand agrees as far as a likeness of names and places says. A step that reads the same
token does the same in alike states, also where the text of one of them begins further down or in an
open group.
-/

namespace Shading

/-- Which names of sources and which places count as the same. -/
structure Likeness where
  names : String → String → Prop
  places : Location → Location → Prop

variable {R : Likeness}

structure LocatedToken.Alike (R : Likeness) (t t' : LocatedToken) : Prop where
  location : R.places t.location t'.location
  token : t'.token = t.token

structure Diagnostic.Alike (R : Likeness) (d d' : Diagnostic) : Prop where
  source : R.names d.source d'.source
  location : R.places d.location d'.location
  token : d'.token = d.token
  problem : d'.problem = d.problem

structure Expansion.Alike (R : Likeness) (e e' : Expansion) : Prop where
  name : e'.name = e.name
  location : R.places e.location e'.location
  rest : e'.rest = e.rest

namespace Preprocessor

/-- The states have the same macros up to places, the same open expansions and the same reports,
whatever they read, and have not delivered their ends. -/
structure Agrees (R : Likeness) (p p' : Preprocessor) : Prop where
  limits : p'.limits = p.limits
  defines : p'.defines.unplaced = p.defines.unplaced
  expansions : List.Forall₂ (Expansion.Alike R) p.expansions p'.expansions
  finished : p.finished = false ∧ p'.finished = false
  log : List.Forall₂ (Diagnostic.Alike R) p.diagnostics p'.diagnostics

/-- Two steps deliver the same token, or none, and lead to states that are related. -/
def Step.Alike (R : Likeness) (Q : Preprocessor → Preprocessor → Prop) : Step → Step → Prop
  | .deliver t q, .deliver t' q' => t.Alike R t' ∧ Q q q'
  | .proceed q, .proceed q' => Q q q'
  | _, _ => False

lemma Step.Alike.mono {Q Q' : Preprocessor → Preprocessor → Prop} (hQ : ∀ q q', Q q q' → Q' q q')
    {s s' : Step} (h : s.Alike R Q s') : s.Alike R Q' s' := by
  cases s <;> cases s' <;> first | exact hQ _ _ h | exact ⟨h.1, hQ _ _ h.2⟩ | exact h

section Agrees

variable {p p' : Preprocessor}

lemma Agrees.setFrames (h : Agrees R p p') (frames frames' : List Frame) :
    Agrees R { p with frames } { p' with frames := frames' } :=
  ⟨h.limits, h.defines, h.expansions, h.finished, h.log⟩

lemma Agrees.setExpansions (h : Agrees R p p') {expansions expansions' : List Expansion}
    (hexpansions : List.Forall₂ (Expansion.Alike R) expansions expansions') :
    Agrees R { p with expansions } { p' with expansions := expansions' } :=
  ⟨h.limits, h.defines, hexpansions, h.finished, h.log⟩

lemma Agrees.noteAll (h : Agrees R p p') {ds ds' : List Diagnostic}
    (hds : List.Forall₂ (Diagnostic.Alike R) ds ds') : Agrees R (p.noteAll ds) (p'.noteAll ds') := by
  refine ⟨h.limits, h.defines, h.expansions, h.finished, ?_⟩
  simpa [diagnostics, Preprocessor.noteAll] using List.rel_append h.log hds

lemma Agrees.report (h : Agrees R p p') (hname : R.names p.currentName p'.currentName)
    {t t' : LocatedToken} (ht : t.Alike R t') (problem : Problem) :
    Agrees R (p.report t problem) (p'.report t' problem) := by
  rw [report_eq_noteAll, report_eq_noteAll]
  exact h.noteAll (.cons ⟨hname, ht.location, ht.token, rfl⟩ .nil)

lemma Agrees.isExpanding (h : Agrees R p p') (name : String) :
    p'.isExpanding name = p.isExpanding name := by
  have hany {es es' : List Expansion} (h : List.Forall₂ (Expansion.Alike R) es es') :
      es'.any (·.name == name) = es.any (·.name == name) := by
    induction h with
    | nil => rfl
    | cons he _ ih => rw [List.any_cons, List.any_cons, he.name, ih]
  exact hany h.expansions

lemma Agrees.calledMacro? (h : Agrees R p p') (t : Token) :
    (p'.calledMacro? t).map (Prod.map id Definition.unplaced) =
      (p.calledMacro? t).map (Prod.map id Definition.unplaced) := by
  unfold Preprocessor.calledMacro?
  split
  next name =>
    have hget := p'.defines.get?_unplaced name
    rw [h.defines, DefineTable.get?_unplaced] at hget
    rw [h.isExpanding]
    split
    · rfl
    · have hpair (d? : Option Definition) :
          (d?.map fun d => (name, d)).map (Prod.map id Definition.unplaced) =
            (d?.map Definition.unplaced).map fun d => (name, d) := by
        cases d? <;> rfl
      rw [hpair, hpair, hget]
  · rfl

lemma place_alike (h : Agrees R p p') (hname : R.names p.currentName p'.currentName)
    {t t' : LocatedToken} (ht : t.Alike R t') :
    Step.Alike R (fun q q' => Agrees R q q' ∧ q.frames = p.frames ∧ q'.frames = p'.frames)
      (p.place t) (p'.place t') := by
  have hcalled := h.calledMacro? t.token
  unfold place
  rw [ht.token]
  cases hp : p.calledMacro? t.token with
  | none =>
    rw [hp, Option.map_none, Option.map_eq_none_iff] at hcalled
    rw [hcalled]
    exact ⟨ht, h, rfl, rfl⟩
  | some called =>
    obtain ⟨name, d⟩ := called
    rw [hp, Option.map_some, Option.map_eq_some_iff] at hcalled
    obtain ⟨⟨name', d'⟩, hp', heq⟩ := hcalled
    obtain ⟨rfl, hbody⟩ : name' = name ∧ d'.unplaced = d.unplaced := Prod.mk.inj heq
    rw [hp']
    dsimp only
    have hroom : p'.limits.expansion ≤ p'.expansions.length ↔
        p.limits.expansion ≤ p.expansions.length := by
      rw [h.limits, h.expansions.length_eq]
    by_cases hdeep : p.limits.expansion ≤ p.expansions.length
    · rw [if_pos hdeep, if_pos (hroom.2 hdeep), h.limits]
      exact ⟨h.report hname ht _, rfl, rfl⟩
    · rw [if_neg hdeep, if_neg (mt hroom.1 hdeep), Definition.tokens_of_unplaced hbody]
      exact ⟨h.setExpansions (.cons ⟨rfl, ht.location, rfl⟩ h.expansions), rfl, rfl⟩

lemma stepExpansion_alike (h : Agrees R p p') (hname : R.names p.currentName p'.currentName)
    {e e' : Expansion} (he : e.Alike R e') {outer outer' : List Expansion}
    (houter : List.Forall₂ (Expansion.Alike R) outer outer') :
    Step.Alike R (fun q q' => Agrees R q q' ∧ q.frames = p.frames ∧ q'.frames = p'.frames)
      (p.stepExpansion e outer) (p'.stepExpansion e' outer') := by
  unfold stepExpansion
  rw [he.rest]
  split
  · exact ⟨h.setExpansions houter, rfl, rfl⟩
  next t rest _ =>
    have hadvanced := h.setExpansions (.cons ⟨he.name, he.location, rfl⟩ houter :
      List.Forall₂ (Expansion.Alike R) ({ e with rest } :: outer) ({ e' with rest } :: outer'))
    dsimp only
    split
    · exact ⟨hadvanced, rfl, rfl⟩
    · exact place_alike hadvanced hname ⟨he.location, rfl⟩

end Agrees

/-! ### Directives -/

/-- The states agree, and their current sources have the same name and the same open groups, but for
the groups `hs` around the second one, which count. -/
structure Tops (R : Likeness) (hs : List Group) (f f' : Frame) (outer outer' : List Frame)
    (p p' : Preprocessor) : Prop extends Agrees R p p' where
  frames : p.frames = f :: outer
  frames' : p'.frames = f' :: outer'
  name : R.names f.source.name f'.source.name
  groups : f'.groups = f.groups ++ hs
  active : ∀ g ∈ hs.head?, g.active = true

/-- What a directive does to two states: the groups of the current sources change in the same way, or
the same source is entered. -/
inductive Directed (R : Likeness) (hs : List Group) (f f' : Frame) (outer outer' : List Frame)
    (depth? : Option Nat) (q q' : Preprocessor) : Prop
  | regrouped (groups : List Group) (hdepth : ∀ n ∈ depth?, groups.length = n)
      (h : Tops R hs { f with groups } { f' with groups := groups ++ hs } outer outer' q q')
  | entered (frame : Frame) (hdepth : depth? = none) (h : Agrees R q q')
      (hpath : f.source.path?.isSome = true) (hq : q.frames = frame :: f :: outer)
      (hq' : q'.frames = frame :: f' :: outer')

/-- The state after a directive that is obeyed or rejected in the state `p`. -/
def settle (p : Preprocessor) : Except Rejection Preprocessor → Preprocessor
  | .ok q => q
  | .error r => p.reject r

lemma parseDirective_lower (k : Nat) (hash : Location) (line : List LocatedToken) :
    parseDirective (hash.lower k) (line.map (·.lower k)) =
      (parseDirective hash line).map fun parsed =>
        (parsed.map (·.lower k)).mapError (·.lower k) := by
  rcases line with _ | ⟨⟨place, token⟩, args⟩
  · rfl
  · cases token <;> rfl

/-- The two current sources lead to the same files, and the same files are open. -/
def SameFiles (f f' : Frame) (outer outer' : List Frame) : Prop :=
  f'.source.path? = f.source.path? ∧ (f' :: outer').map (·.file) = (f :: outer).map (·.file)

lemma includedFrame_congr (fs : FileSystem) {base base' : Source} (h : base'.path? = base.path?)
    (isLocal : Bool) (name : String) :
    includedFrame fs base' isLocal name = includedFrame fs base isLocal name := by
  unfold includedFrame Source.resolveInclude Source.relativePath?
  rw [h]

lemma path?_of_includedFrame {fs : FileSystem} {base : Source} {isLocal : Bool} {name : String}
    {frame : Frame} (h : includedFrame fs base isLocal name = .ok frame) :
    base.path?.isSome = true := by
  unfold includedFrame Source.resolveInclude Source.relativePath? at h
  cases hpath : base.path? with
  | some path => rfl
  | none => cases isLocal <;> simp [hpath, bind, Except.bind] at h

section Tops

variable {hs : List Group} {f f' : Frame} {outer outer' : List Frame} {p p' : Preprocessor} {k : Nat}

lemma Tops.names (h : Tops R hs f f' outer outer' p p') :
    R.names p.currentName p'.currentName := by
  unfold currentName
  rw [h.frames, h.frames']
  exact h.name

lemma Tops.isActive (h : Tops R hs f f' outer outer' p p') : p'.isActive = p.isActive := by
  unfold Preprocessor.isActive Frame.isActive
  rw [h.frames, h.frames']
  dsimp only
  rw [h.groups]
  cases f.groups with
  | nil =>
    cases hhs : hs with
    | nil => rfl
    | cons g outer => exact h.active g (by rw [hhs]; rfl)
  | cons g outer => rfl

lemma Tops.groups_eq (h : Tops R hs f f' outer outer' p p') :
    p.groups = f.groups ∧ p'.groups = f.groups ++ hs := by
  unfold Preprocessor.groups
  rw [h.frames, h.frames']
  exact ⟨rfl, h.groups⟩

lemma Tops.setGroups (h : Tops R hs f f' outer outer' p p') (groups : List Group) :
    Tops R hs { f with groups } { f' with groups := groups ++ hs } outer outer'
      (p.setGroups groups) (p'.setGroups (groups ++ hs)) := by
  unfold Preprocessor.setGroups mapTop
  rw [h.frames, h.frames']
  exact ⟨h.toAgrees.setFrames _ _, rfl, rfl, h.name, rfl, h.active⟩

lemma Tops.report (h : Tops R hs f f' outer outer' p p') {t t' : LocatedToken}
    (ht : t.Alike R t') (problem : Problem) :
    Tops R hs f f' outer outer' (p.report t problem) (p'.report t' problem) :=
  ⟨h.toAgrees.report h.names ht problem, h.frames, h.frames', h.name, h.groups, h.active⟩

lemma Tops.setDefines (h : Tops R hs f f' outer outer' p p') {defines defines' : DefineTable}
    (hdefines : defines'.unplaced = defines.unplaced) :
    Tops R hs f f' outer outer' { p with defines } { p' with defines := defines' } :=
  ⟨⟨h.limits, hdefines, h.expansions, h.finished, h.log⟩, h.frames, h.frames', h.name, h.groups,
    h.active⟩

lemma Tops.directed {q q' : Preprocessor} (h : Tops R hs f f' outer outer' q q')
    {depth? : Option Nat} (hdepth : ∀ n ∈ depth?, f.groups.length = n) :
    Directed R hs f f' outer outer' depth? q q' := by
  refine .regrouped f.groups hdepth ?_
  have hf' : { f' with groups := f.groups ++ hs } = f' := by rw [← h.groups]
  rw [hf']
  exact h

lemma Tops.asksForTruth (h : Tops R hs f f' outer outer' p p') (d : Directive) :
    (d.lower k).asksForTruth p'.defines p'.limits.expansion =
      (d.asksForTruth p.defines p.limits.expansion).mapError (·.lower k) := by
  rw [h.limits, Directive.asksForTruth_congr _ h.defines, Directive.asksForTruth_lower]

lemma Tops.asksForMacro (h : Tops R hs f f' outer outer' p p') (d : Directive) (wanted : Bool) :
    (d.lower k).asksForMacro p'.defines wanted =
      (d.asksForMacro p.defines wanted).mapError (·.lower k) := by
  rw [Directive.asksForMacro_congr _ h.defines, Directive.asksForMacro_lower]

variable (hk : ∀ l, R.places l (l.lower k))
include hk

lemma LocatedToken.alike_lower (t : LocatedToken) : t.Alike R (t.lower k) :=
  ⟨hk _, rfl⟩

lemma Tops.reject (h : Tops R hs f f' outer outer' p p') (r : Rejection) :
    Tops R hs f f' outer outer' (p.reject r) (p'.reject (r.lower k)) :=
  h.report (LocatedToken.alike_lower hk r.token) _

lemma Tops.ask (h : Tops R hs f f' outer outer' p p') (question : Except Rejection Bool) :
    Tops R hs f f' outer outer' (p.ask question).1
        (p'.ask (question.mapError (·.lower k))).1 ∧
      (p'.ask (question.mapError (·.lower k))).2 = (p.ask question).2 := by
  cases question with
  | ok answer => exact ⟨h, rfl⟩
  | error r => exact ⟨h.reject hk r, rfl⟩

lemma openGroup_alike (h : Tops R hs f f' outer outer' p p') (question : Except Rejection Bool) :
    Directed R hs f f' outer outer' (some (f.groups.length + 1)) (p.openGroup question)
      (p'.openGroup (question.mapError (·.lower k))) := by
  unfold openGroup
  rw [h.isActive, h.groups_eq.1, h.groups_eq.2]
  cases p.isActive with
  | true =>
    obtain ⟨hasked, hanswer⟩ := h.ask hk question
    dsimp only
    rw [if_pos rfl, if_pos rfl, hanswer]
    refine .regrouped (Group.opened true (p.ask question).2 :: f.groups) (by simp) ?_
    exact hasked.setGroups _
  | false =>
    exact .regrouped (Group.opened false false :: f.groups) (by simp) (h.setGroups _)

lemma openBranch_alike (h : Tops R hs f f' outer outer' p p') (hallowed : f.groups = [] → hs = [])
    (d : Directive) :
    Directed R hs f f' outer outer' (if f.groups.length = 0 then none else some f.groups.length)
      (p.settle (p.openBranch d)) (p'.settle (p'.openBranch (d.lower k))) := by
  unfold openBranch
  rw [h.groups_eq.1, h.groups_eq.2, h.asksForTruth]
  cases hgroups : f.groups with
  | nil =>
    obtain rfl := hallowed hgroups
    refine (h.reject hk (.directive d.location (.identifier "elif") (.withoutIf "elif"))).directed ?_
    simp
  | cons g inner =>
    dsimp only [List.cons_append]
    cases g.elseSeen with
    | true =>
      refine
        (h.reject hk (.directive d.location (.identifier "elif") (.afterElse "elif"))).directed ?_
      simp [hgroups]
    | false =>
      cases g.isOpenToBranch with
      | true =>
        obtain ⟨hasked, hanswer⟩ := h.ask hk (d.asksForTruth p.defines p.limits.expansion)
        have hregrouped := hasked.setGroups (g.branch
          (p.ask (d.asksForTruth p.defines p.limits.expansion)).2 :: inner)
        refine .regrouped (g.branch (p.ask (d.asksForTruth p.defines p.limits.expansion)).2 :: inner)
          (by simp) ?_
        simp only [settle, if_true, Bool.false_eq_true, if_false]
        rw [hanswer]
        exact hregrouped
      | false => exact .regrouped (g.branch false :: inner) (by simp) (h.setGroups _)

lemma openLastBranch_alike (h : Tops R hs f f' outer outer' p p')
    (hallowed : f.groups = [] → hs = []) (d : Directive) :
    Directed R hs f f' outer outer' (if f.groups.length = 0 then none else some f.groups.length)
      (p.settle (p.openLastBranch d)) (p'.settle (p'.openLastBranch (d.lower k))) := by
  unfold openLastBranch
  rw [h.groups_eq.1, h.groups_eq.2]
  cases hgroups : f.groups with
  | nil =>
    obtain rfl := hallowed hgroups
    refine (h.reject hk (.directive d.location (.identifier "else") (.withoutIf "else"))).directed ?_
    simp
  | cons g inner =>
    dsimp only [List.cons_append]
    cases g.elseSeen with
    | true =>
      refine
        (h.reject hk (.directive d.location (.identifier "else") (.afterElse "else"))).directed ?_
      simp [hgroups]
    | false => exact .regrouped (g.lastBranch :: inner) (by simp) (h.setGroups _)

lemma closeGroup_alike (h : Tops R hs f f' outer outer' p p') (hallowed : f.groups = [] → hs = [])
    (d : Directive) :
    Directed R hs f f' outer outer'
      (if f.groups.length = 0 then none else some (f.groups.length - 1))
      (p.settle (p.closeGroup d)) (p'.settle (p'.closeGroup (d.lower k))) := by
  unfold closeGroup
  rw [h.groups_eq.1, h.groups_eq.2]
  cases hgroups : f.groups with
  | nil =>
    obtain rfl := hallowed hgroups
    refine
      (h.reject hk (.directive d.location (.identifier "endif") (.withoutIf "endif"))).directed ?_
    simp
  | cons g inner => exact .regrouped inner (by simp) (h.setGroups _)

lemma enter_alike (h : Tops R hs f f' outer outer' p p') (hfiles : SameFiles f f' outer outer')
    (fs : FileSystem) (location : Location) (isLocal : Bool) (name : String) :
    Directed R hs f f' outer outer' none (p.settle (p.enter fs location isLocal name))
      (p'.settle (p'.enter fs (location.lower k) isLocal name)) := by
  obtain ⟨hpath, hfile⟩ := hfiles
  have hlength : (f' :: outer').length = (f :: outer).length := by
    simpa using congrArg List.length hfile
  have hlimit : p'.limits.includeDepth = p.limits.includeDepth := congrArg _ h.limits
  have hany (file : Path) : (f' :: outer').any (·.file == some file) =
      (f :: outer).any (·.file == some file) := by
    have hmap (fs : List Frame) : fs.any (·.file == some file) =
        (fs.map (·.file)).any (· == some file) := by
      simp [List.any_map, Function.comp_def]
    rw [hmap, hmap, hfile]
  have hrefused (cause : CompileError) :
      Directed R hs f f' outer outer' none (p.reject ⟨⟨location, .string name⟩, cause⟩)
        (p'.reject ⟨⟨location.lower k, .string name⟩, cause⟩) :=
    (h.reject hk ⟨⟨location, .string name⟩, cause⟩).directed (by simp)
  have hentered (frame : Frame) (hpath : f.source.path?.isSome = true) :
      Directed R hs f f' outer outer' none
        { p with frames := frame :: f :: outer } { p' with frames := frame :: f' :: outer' } :=
    .entered frame rfl (h.toAgrees.setFrames _ _) hpath rfl rfl
  unfold enter
  rw [h.frames, h.frames', hlimit, hlength]
  dsimp only
  rw [includedFrame_congr fs hpath]
  split
  · exact hrefused _
  · cases hframe : includedFrame fs f.source isLocal name with
    | error cause => exact hrefused cause
    | ok frame =>
      dsimp only
      have hentered := hentered frame (path?_of_includedFrame hframe)
      cases frame.file with
      | none => exact hentered
      | some file =>
        dsimp only
        rw [hany]
        split
        · exact hrefused _
        · exact hentered

lemma settle_alike {α : Type} (h : Tops R hs f f' outer outer' p p') {depth? : Option Nat}
    (hdepth : ∀ n ∈ depth?, f.groups.length = n) {read read' : Except Rejection α} {move : α → α}
    (hread : read' = (read.map move).mapError (·.lower k)) {use use' : α → Except Rejection Preprocessor}
    (huse : ∀ a, Directed R hs f f' outer outer' depth? (p.settle (use a)) (p'.settle (use' (move a)))) :
    Directed R hs f f' outer outer' depth? (p.settle (read.bind use)) (p'.settle (read'.bind use')) := by
  rw [hread]
  cases read with
  | error r => exact (h.reject hk r).directed hdepth
  | ok a => exact huse a

/-- A directive does the same in both states, if it belongs to the groups that are open in the first
one and includes nothing, or if there are no more groups in the second one and the same files. -/
theorem obey_alike (h : Tops R hs f f' outer outer' p p') (fs : FileSystem) (d : Directive)
    (hallowed : (hs = [] ∧ SameFiles f f' outer outer') ∨
      ((Keyword.ofName d.name).depthBehind? f.groups.length).isSome = true) :
    Directed R hs f f' outer outer' ((Keyword.ofName d.name).depthBehind? f.groups.length)
      (p.settle (p.obey fs d)) (p'.settle (p'.obey fs (d.lower k))) := by
  have hname : (d.lower k).name = d.name := rfl
  have hspaced : spaced (d.lower k).args = spaced d.args := spaced_lower k d.args
  have hgroups (hneeds : (Keyword.ofName d.name).depthBehind? 0 = none) : f.groups = [] → hs = [] := by
    intro hnil
    rcases hallowed with ⟨hhs, -⟩ | hsome
    · exact hhs
    · rw [hnil, List.length_nil, hneeds] at hsome
      cases hsome
  have hlength : ∀ n ∈ some f.groups.length, f.groups.length = n := by simp
  have hkept : Directed R hs f f' outer outer' (some f.groups.length) p p' := h.directed hlength
  unfold obey
  rw [hname, hspaced, h.asksForMacro, h.asksForMacro, h.asksForTruth, h.isActive]
  cases hkeyword : Keyword.ofName d.name with
  | ifDefined => exact openGroup_alike hk h _
  | ifNotDefined => exact openGroup_alike hk h _
  | ifHolds => exact openGroup_alike hk h _
  | elseIf => exact openBranch_alike hk h (hgroups (by rw [hkeyword]; rfl)) d
  | otherwise => exact openLastBranch_alike hk h (hgroups (by rw [hkeyword]; rfl)) d
  | endIf => exact closeGroup_alike hk h (hgroups (by rw [hkeyword]; rfl)) d
  | define =>
    cases p.isActive with
    | false => exact hkept
    | true =>
      refine settle_alike hk h hlength (d.definition_lower k) fun m => ?_
      have htables : (p'.defines.insert m.name (m.lower k)).unplaced =
          (p.defines.insert m.name m).unplaced := by
        rw [DefineTable.insert_unplaced, DefineTable.insert_unplaced, h.defines,
          Definition.unplaced_lower]
      exact (h.setDefines htables).directed hlength
  | undefine =>
    cases p.isActive with
    | false => exact hkept
    | true =>
      have hread : (d.lower k).macroName = (d.macroName.map id).mapError (·.lower k) := by
        rw [d.macroName_lower]
        cases d.macroName <;> rfl
      refine settle_alike hk h hlength hread fun name => ?_
      have htables : (p'.defines.erase name).unplaced = (p.defines.erase name).unplaced := by
        rw [DefineTable.erase_unplaced, DefineTable.erase_unplaced, h.defines]
      exact (h.setDefines htables).directed hlength
  | includeFile =>
    cases p.isActive with
    | false => exact h.directed (by simp [Keyword.depthBehind?])
    | true =>
      have hfiles : SameFiles f f' outer outer' := by
        rcases hallowed with ⟨-, hfiles⟩ | hsome
        · exact hfiles
        · rw [hkeyword] at hsome
          cases hsome
      have hread : (d.lower k).includedName = (d.includedName.map id).mapError (·.lower k) := by
        rw [d.includedName_lower]
        cases d.includedName <;> rfl
      exact settle_alike hk h (by simp [Keyword.depthBehind?]) hread fun included =>
        enter_alike hk h hfiles fs d.location included.1 included.2
  | raise =>
    cases p.isActive with
    | false => exact hkept
    | true =>
      exact (h.reject hk
        (.directive d.hash (.identifier d.name) (.raised (spaced d.args)))).directed hlength
  | warn =>
    cases p.isActive with
    | false => exact hkept
    | true =>
      exact (h.report (LocatedToken.alike_lower hk ⟨d.hash, .identifier d.name⟩) _).directed hlength
  | ignored =>
    cases p.isActive <;> exact hkept
  | unknown =>
    cases p.isActive with
    | false => exact hkept
    | true =>
      exact (h.reject hk
        (.directive d.location (.identifier d.name) (.unknown d.name))).directed hlength

lemma obeyLine_alike (h : Tops R hs f f' outer outer' p p') (fs : FileSystem) {l : Line}
    {hash : Location} {args : List LocatedToken} (hl : l.words = ⟨hash, .punct .hash⟩ :: args)
    (hallowed : (hs = [] ∧ SameFiles f f' outer outer') ∨
      (l.depthBehind? f.groups.length).isSome = true) :
    Directed R hs f f' outer outer' (l.depthBehind? f.groups.length) (p.obeyLine fs hash args)
      (p'.obeyLine fs (hash.lower k) (args.map (·.lower k))) := by
  have hdirective : l.directive? = parseDirective hash args := by
    unfold Line.directive?
    rw [hl]
  unfold obeyLine
  rw [parseDirective_lower, h.isActive]
  unfold Line.depthBehind? Line.keyword? at hallowed ⊢
  rw [hdirective] at hallowed ⊢
  cases hparse : parseDirective hash args with
  | none => exact h.directed (by simp)
  | some parsed =>
    cases parsed with
    | error r =>
      cases p.isActive with
      | false => exact h.directed (by simp)
      | true => exact (h.reject hk r).directed (by simp)
    | ok d =>
      rw [hparse] at hallowed
      have hobeyed := obey_alike hk h fs d hallowed
      dsimp only [Option.map_some, Except.map, Except.mapError]
      cases hq : p.obey fs d <;> cases hq' : p'.obey fs (d.lower k) <;>
        (rw [hq, hq'] at hobeyed; exact hobeyed)

end Tops

/-! ### Steps over lexemes -/

/-- The states after a step over the lexeme `x`: the sources go on with `xs` and `xs'`, or the directive
on the line has been obeyed. -/
inductive Stepped (R : Likeness) (hs : List Group) (f f' : Frame) (outer outer' : List Frame)
    (x : Lexeme) (xs xs' : List Lexeme) (q q' : Preprocessor) : Prop
  | passed (hhash : ¬(x.token = .punct .hash && f.atLineStart) = true)
      (h : Agrees R q q')
      (hq : q.frames =
        { f with lexemes := xs, atLineStart := x.startsLineBehind f.atLineStart } :: outer)
      (hq' : q'.frames =
        { f' with lexemes := xs', atLineStart := x.startsLineBehind f.atLineStart } :: outer')
  | obeyed (hhash : x.token = .punct .hash) (hstart : f.atLineStart = true)
      (h : Directed R hs
        { f with lexemes := (xs.dropWhile (·.token != .newline)).drop 1, atLineStart := true }
        { f' with lexemes := (xs'.dropWhile (·.token != .newline)).drop 1, atLineStart := true }
        outer outer' ((Line.first (x :: xs)).depthBehind? f.groups.length) q q')

section Stepped

variable {hs : List Group} {f f' : Frame} {outer outer' : List Frame} {p p' : Preprocessor} {k : Nat}

lemma diagnostic?_lower (hk : ∀ l, R.places l (l.lower k)) {source source' : String}
    (hname : R.names source source') (xs : List Lexeme) :
    List.Forall₂ (Diagnostic.Alike R) (xs.filterMap (·.diagnostic? source))
      ((xs.map (·.lower k)).filterMap (·.diagnostic? source')) := by
  induction xs with
  | nil => exact .nil
  | cons x xs ih =>
    rw [List.map_cons, List.filterMap_cons, List.filterMap_cons]
    unfold Lexeme.diagnostic? at ih ⊢
    rw [show (x.lower k).fault = x.fault from rfl]
    cases x.fault with
    | none => exact ih
    | some fault => exact .cons ⟨hname, hk _, rfl, rfl⟩ ih

lemma Tops.noteFaults (h : Tops R hs f f' outer outer' p p') (hk : ∀ l, R.places l (l.lower k))
    (xs : List Lexeme) :
    Tops R hs f f' outer outer' (p.noteFaults xs) (p'.noteFaults (xs.map (·.lower k))) :=
  ⟨h.toAgrees.noteAll (diagnostic?_lower hk h.names xs), h.frames, h.frames', h.name, h.groups,
    h.active⟩

lemma Tops.move (h : Tops R hs f f' outer outer' p p') (lexemes lexemes' : List Lexeme)
    (atLineStart : Bool) :
    Tops R hs { f with lexemes, atLineStart } { f' with lexemes := lexemes', atLineStart } outer
      outer' { p with frames := { f with lexemes, atLineStart } :: outer }
      { p' with frames := { f' with lexemes := lexemes', atLineStart } :: outer' } :=
  ⟨h.toAgrees.setFrames _ _, rfl, rfl, h.name, h.groups, h.active⟩

lemma Tops.isActive_frames (h : Tops R hs f f' outer outer' p p') : f'.isActive = f.isActive := by
  have hactive := h.isActive
  unfold Preprocessor.isActive at hactive
  rwa [h.frames, h.frames'] at hactive

/-- A step over the same lexeme, `k` lines further down in the second state. -/
theorem stepLexeme_alike (h : Tops R hs f f' outer outer' p p') (hk : ∀ l, R.places l (l.lower k))
    (fs : FileSystem) (x : Lexeme) {xs xs' : List Lexeme} (hstart : f'.atLineStart = f.atLineStart)
    (hline : x.token ≠ .newline → xs'.takeWhile (·.token != .newline) =
      (xs.takeWhile (·.token != .newline)).map (·.lower k))
    (hallowed : (hs = [] ∧ SameFiles f f' outer outer') ∨
      (f.atLineStart = true → x.token = .punct .hash →
        ((Line.first (x :: xs)).depthBehind? f.groups.length).isSome = true)) :
    Step.Alike R (Stepped R hs f f' outer outer' x xs xs') (p.stepLexeme fs f outer x xs)
      (p'.stepLexeme fs f' outer' (x.lower k) xs') := by
  have hnoted := h.noteFaults hk [x]
  have hpassed (hhash : ¬(x.token = .punct .hash && f.atLineStart) = true) {q q' : Preprocessor}
      {b : Bool} (hb : x.startsLineBehind f.atLineStart = b)
      (hq : Agrees R q q' ∧ q.frames = { f with lexemes := xs, atLineStart := b } :: outer ∧
        q'.frames = { f' with lexemes := xs', atLineStart := b } :: outer') :
      Stepped R hs f f' outer outer' x xs xs' q q' := by
    subst hb
    exact .passed hhash hq.1 hq.2.1 hq.2.2
  unfold stepLexeme
  dsimp only
  rw [show (x.lower k).token = x.token from rfl, hstart, h.isActive_frames]
  split
  next hskipped =>
    have hhash : ¬(x.token = .punct .hash && f.atLineStart) = true := by
      intro hhash
      obtain ⟨hhash, -⟩ : x.token = .punct .hash ∧ _ := by simpa using hhash
      rw [hhash] at hskipped
      cases hskipped
    exact hpassed hhash (if_pos hskipped) ⟨(hnoted.move xs xs' f.atLineStart).toAgrees, rfl, rfl⟩
  next hskipped =>
    split
    next hnewline =>
      have hbehind : x.startsLineBehind f.atLineStart = true := by
        simp [Lexeme.startsLineBehind, hnewline, Token.isSkipped]
      exact hpassed (by simp [hnewline]) hbehind ⟨(hnoted.move xs xs' true).toAgrees, rfl, rfl⟩
    next hnewline =>
      have hbehind : x.startsLineBehind f.atLineStart = false := by
        simp [Lexeme.startsLineBehind, hskipped, hnewline]
      split
      next hhash =>
        obtain ⟨htoken, hatStart⟩ : x.token = .punct .hash ∧ f.atLineStart = true := by
          simpa using hhash
        have hmoved := (hnoted.move ((xs.dropWhile (·.token != .newline)).drop 1)
          ((xs'.dropWhile (·.token != .newline)).drop 1) true).noteFaults hk
            (xs.takeWhile (·.token != .newline))
        have hobeyed := obeyLine_alike hk hmoved fs (Line.words_first_hash htoken xs)
          (hallowed.imp id fun hdepth => hdepth hatStart htoken)
        have hargs : ((xs'.takeWhile (·.token != .newline)).filter (!·.token.isSkipped)).map
              (·.located) =
            (((xs.takeWhile (·.token != .newline)).filter (!·.token.isSkipped)).map
              (·.located)).map (·.lower k) := by
          rw [hline hnewline, List.filter_map, List.map_map, List.map_map]
          rfl
        rw [hargs, hline hnewline]
        exact .obeyed htoken hatStart hobeyed
      next hhash =>
        cases f.isActive with
        | true =>
          have hmoved := hnoted.move xs xs' false
          have hplaced := place_alike hmoved.toAgrees hmoved.names (LocatedToken.alike_lower hk x.located)
          exact hplaced.mono fun q q' hq => hpassed hhash hbehind hq
        | false => exact hpassed hhash hbehind ⟨(hnoted.move xs xs' false).toAgrees, rfl, rfl⟩

end Stepped

end Preprocessor

end Shading
