import Shading.Proofs.Preprocessor.Changes
import Shading.Proofs.Source.Loading

/-!
# What a step is about

A step reads a lexeme, a line or the end of the innermost source, or takes one token more from the
innermost expansion, which stands where its macro was called. What it reports and what it delivers is
about the places of what it reads.
-/

namespace Shading

/-- The diagnostic says that a group is open at the end of its source. -/
def Diagnostic.isUnterminated (d : Diagnostic) : Bool :=
  d.problem = .error (.directive .unterminatedIf)

/-- The diagnostic is about one of the places in the source of this name, and about no open group. -/
structure Diagnostic.IsAbout (source : String) (places : List Location) (d : Diagnostic) : Prop where
  source : d.source = source
  location : d.location ∈ places
  isUnterminated : d.isUnterminated = false

/-- The rejection is about one of the places, and about no open group. -/
structure Rejection.IsAbout (places : List Location) (r : Rejection) : Prop where
  location : r.token.location ∈ places
  cause : r.cause ≠ .directive .unterminatedIf

lemma Lexeme.diagnostic?_isAbout {source : String} {places : List Location} {x : Lexeme} {d : Diagnostic}
    (hx : x.location ∈ places) (h : x.diagnostic? source = some d) : d.IsAbout source places := by
  obtain ⟨fault, _, rfl⟩ := Option.map_eq_some_iff.1 h
  exact ⟨rfl, hx, by cases fault <;> rfl⟩

namespace Directive

/-- The places of a directive and its hash. -/
def places (d : Directive) : List Location :=
  d.hash :: d.location :: d.args.map (·.location)

variable {d : Directive} {r : Rejection}

lemma location_mem_places (d : Directive) : d.location ∈ d.places := by
  simp [places]

lemma macroName_isAbout (h : d.macroName = .error r) : r.IsAbout d.places := by
  unfold macroName at h
  split at h
  · cases h
  next t args _ hargs =>
    obtain rfl := Except.error.inj h
    exact ⟨by simp [places, hargs, Rejection.directive], by simp [Rejection.directive]⟩
  · obtain rfl := Except.error.inj h
    exact ⟨d.location_mem_places, by simp [Rejection.directive]⟩

lemma includedName_isAbout (h : d.includedName = .error r) : r.IsAbout d.places := by
  have malformed : (Rejection.directive d.location (.identifier "include") .malformedInclude).IsAbout
      d.places :=
    ⟨d.location_mem_places, by simp [Rejection.directive]⟩
  unfold includedName at h
  split at h
  · cases h
  · dsimp only at h
    split at h
    · cases h
    · obtain rfl := Except.error.inj h
      exact malformed
  · obtain rfl := Except.error.inj h
    exact malformed

lemma definition_isAbout (h : d.definition = .error r) : r.IsAbout d.places := by
  unfold definition at h
  cases hname : d.macroName with
  | error r' =>
    rw [hname] at h
    obtain rfl : r' = r := Except.error.inj h
    exact macroName_isAbout hname
  | ok name =>
    rw [hname] at h
    simp only [bind, Except.bind] at h
    split at h
    next location rest hargs =>
      have hlocation : location ∈ d.places := by
        have hmem : ⟨location, .punct .leftParen⟩ ∈ d.args :=
          List.mem_of_mem_drop (i := 1) (by rw [hargs]; exact List.mem_cons_self)
        exact List.mem_cons_of_mem _ (List.mem_cons_of_mem _ (List.mem_map_of_mem hmem))
      have refused {nameEnd : Location} {m : Definition}
          (h : (if location = nameEnd then
            throw (Rejection.directive location (.punct .leftParen) (.functionLike name))
          else pure m : Except Rejection Definition) = .error r) : r.IsAbout d.places := by
        split at h
        · obtain rfl := Except.error.inj h
          exact ⟨hlocation, by simp [Rejection.directive]⟩
        · cases h
      exact refused h
    · cases h

lemma asksForMacro_isAbout {table : DefineTable} {wanted : Bool}
    (h : d.asksForMacro table wanted = .error r) : r.IsAbout d.places := by
  unfold asksForMacro at h
  cases hname : d.macroName with
  | error r' =>
    rw [hname] at h
    obtain rfl : r' = r := Except.error.inj h
    exact macroName_isAbout hname
  | ok name =>
    rw [hname] at h
    cases h

lemma asksForTruth_isAbout {table : DefineTable} {limit : Nat}
    (h : d.asksForTruth table limit = .error r) : r.IsAbout d.places := by
  unfold asksForTruth at h
  split at h
  · cases h
  next hvalue =>
    obtain rfl := Except.error.inj h
    refine ⟨d.location_mem_places, ?_⟩
    rcases value_error hvalue with ⟨cause, rfl⟩ | ⟨name, rfl⟩ <;> simp

end Directive

/-- What is left of a source is the end of what its content is made of. -/
def Frame.IsLoaded (f : Frame) : Prop :=
  ∃ content, f.source.loaded = some content ∧ f.lexemes <:+ (Lexemes.ofBytes content).list ∧
    f.stop = (Lexemes.ofBytes content).stop

lemma Frame.isLoaded_ofContent (fs : FileSystem) {source : Source} {content : List UInt8}
    (h : source.loaded = some content) : (Frame.ofContent fs source content).IsLoaded :=
  ⟨content, h, List.suffix_refl _, rfl⟩

namespace Preprocessor

lemma includedFrame_isLoaded {fs : FileSystem} {base : Source} {isLocal : Bool} {name : String}
    {frame : Frame} (h : includedFrame fs base isLocal name = .ok frame) : frame.IsLoaded := by
  unfold includedFrame at h
  cases hsource : base.resolveInclude fs isLocal name with
  | error e =>
    rw [hsource] at h
    cases h
  | ok source =>
    rw [hsource] at h
    simp only [bind, Except.bind] at h
    split at h
    next content loaded hload =>
      obtain rfl := Except.ok.inj h
      exact Frame.isLoaded_ofContent fs (Source.load_loaded hload)
    · cases h

/-! ### Directives -/

/-- The state `q` has reported more than `p`, and all of it about the places. -/
def ReportsAt (places : List Location) (p q : Preprocessor) : Prop :=
  ∃ ds, q.diagnostics = p.diagnostics ++ ds ∧ ∀ d ∈ ds, d.IsAbout p.currentName places

/-- What a directive does in the state `p`: in the current source groups change, or a source is
entered, and the reports are about the places. -/
structure Obeys (places : List Location) (p q : Preprocessor) : Prop where
  expansions : q.expansions = p.expansions
  finished : q.finished = p.finished
  frames : (∃ groups, q.frames = (p.setGroups groups).frames) ∨
    ∃ frame, q.frames = frame :: p.frames ∧ frame.IsLoaded
  reports : ReportsAt places p q

/-- What a directive leads to: a state, or a rejection that is about the places. -/
def ObeysTo (places : List Location) (p : Preprocessor) : Except Rejection Preprocessor → Prop
  | .ok q => Obeys places p q
  | .error r => r.IsAbout places

section Directives

variable {places : List Location} {p q : Preprocessor}

lemma frames_setGroups_groups (p : Preprocessor) : (p.setGroups p.groups).frames = p.frames := by
  unfold setGroups mapTop groups
  cases hframes : p.frames <;> simp [hframes]

lemma frames_setGroups (h : q.frames = p.frames) (groups : List Group) :
    (q.setGroups groups).frames = (p.setGroups groups).frames := by
  unfold setGroups mapTop
  rw [h]
  cases hp : p.frames with
  | nil => rw [h, hp]
  | cons f outer => rfl

lemma frames_ask (p : Preprocessor) (question : Except Rejection Bool) :
    (p.ask question).1.frames = p.frames := by
  cases question <;> rfl

lemma diagnostics_setGroups (p : Preprocessor) (groups : List Group) :
    (p.setGroups groups).diagnostics = p.diagnostics := by
  unfold setGroups mapTop
  split <;> rfl

lemma setGroups_keeps (p : Preprocessor) (groups : List Group) :
    (p.setGroups groups).expansions = p.expansions ∧ (p.setGroups groups).finished = p.finished := by
  unfold setGroups mapTop
  split <;> exact ⟨rfl, rfl⟩

lemma ReportsAt.refl (places : List Location) (p : Preprocessor) : ReportsAt places p p :=
  ⟨[], (List.append_nil _).symm, by simp⟩

lemma ReportsAt.trans {r : Preprocessor} (h : ReportsAt places p q) (hname : q.currentName = p.currentName)
    (h' : ReportsAt places q r) : ReportsAt places p r := by
  obtain ⟨ds, hds, habout⟩ := h
  obtain ⟨ds', hds', habout'⟩ := h'
  refine ⟨ds ++ ds', by rw [hds', hds, List.append_assoc], ?_⟩
  intro d hd
  rcases List.mem_append.1 hd with hd | hd
  · exact habout d hd
  · rw [← hname]
    exact habout' d hd

lemma ReportsAt.mono {places' : List Location} (h : ReportsAt places p q) (hsub : places ⊆ places') :
    ReportsAt places' p q := by
  obtain ⟨ds, hds, habout⟩ := h
  refine ⟨ds, hds, fun d hd => ?_⟩
  obtain ⟨hsource, hlocation, hunterminated⟩ := habout d hd
  exact ⟨hsource, hsub hlocation, hunterminated⟩

lemma reportsAt_noteFaults (p : Preprocessor) (xs : List Lexeme) :
    ReportsAt (xs.map (·.location)) p (p.noteFaults xs) := by
  refine ⟨xs.filterMap (·.diagnostic? p.currentName), by simp [diagnostics, noteFaults], ?_⟩
  intro d hd
  obtain ⟨x, hx, hd⟩ := List.mem_filterMap.1 hd
  exact Lexeme.diagnostic?_isAbout (List.mem_map_of_mem hx) hd

lemma reportsAt_report {t : LocatedToken} (ht : t.location ∈ places) {problem : Problem}
    (hproblem : problem ≠ .error (.directive .unterminatedIf)) :
    ReportsAt places p (p.report t problem) := by
  refine ⟨_, Array.toList_push, ?_⟩
  intro d hd
  obtain rfl := List.mem_singleton.1 hd
  exact ⟨rfl, ht, by simpa [Diagnostic.isUnterminated] using hproblem⟩

lemma obeys_self (places : List Location) {defines : DefineTable} :
    Obeys places p { p with defines } :=
  ⟨rfl, rfl, .inl ⟨p.groups, (frames_setGroups_groups p).symm⟩, .refl places p⟩

lemma obeys_report {t : LocatedToken} (ht : t.location ∈ places) {problem : Problem}
    (hproblem : problem ≠ .error (.directive .unterminatedIf)) :
    Obeys places p (p.report t problem) :=
  ⟨rfl, rfl, .inl ⟨p.groups, (frames_setGroups_groups p).symm⟩, reportsAt_report ht hproblem⟩

lemma obeys_reject {r : Rejection} (h : r.IsAbout places) : Obeys places p (p.reject r) :=
  obeys_report h.location (by simpa using h.cause)

lemma obeys_setGroups {groups : List Group} (hexpansions : q.expansions = p.expansions)
    (hfinished : q.finished = p.finished) (hframes : q.frames = p.frames)
    (hreports : ReportsAt places p q) : Obeys places p (q.setGroups groups) := by
  obtain ⟨hsame, hsame'⟩ := q.setGroups_keeps groups
  obtain ⟨ds, hds, habout⟩ := hreports
  exact ⟨hsame.trans hexpansions, hsame'.trans hfinished, .inl ⟨groups, frames_setGroups hframes groups⟩,
    ds, (q.diagnostics_setGroups groups).trans hds, habout⟩

lemma obeys_ask {question : Except Rejection Bool}
    (h : ∀ r, question = .error r → r.IsAbout places) (groups : List Group) :
    Obeys places p ((p.ask question).1.setGroups groups) := by
  cases question with
  | ok answer => exact obeys_setGroups rfl rfl rfl (.refl places p)
  | error r =>
    have hr := h r rfl
    exact obeys_setGroups rfl rfl rfl (reportsAt_report hr.location (by simpa using hr.cause))

lemma obeys_openGroup {question : Except Rejection Bool}
    (h : ∀ r, question = .error r → r.IsAbout places) : Obeys places p (p.openGroup question) := by
  unfold openGroup
  cases p.isActive with
  | true => exact obeys_ask h _
  | false => exact obeys_setGroups rfl rfl rfl (.refl places p)

lemma obeys_openBranch (d : Directive) : ObeysTo d.places p (p.openBranch d) := by
  unfold openBranch
  split
  · exact ⟨d.location_mem_places, by simp [Rejection.directive]⟩
  next g outer _ =>
    split
    · exact ⟨d.location_mem_places, by simp [Rejection.directive]⟩
    · cases g.isOpenToBranch with
      | true => exact obeys_ask (fun _ h => Directive.asksForTruth_isAbout h) _
      | false => exact obeys_setGroups rfl rfl rfl (.refl d.places p)

lemma obeys_openLastBranch (d : Directive) : ObeysTo d.places p (p.openLastBranch d) := by
  unfold openLastBranch
  split
  · exact ⟨d.location_mem_places, by simp [Rejection.directive]⟩
  · split
    · exact ⟨d.location_mem_places, by simp [Rejection.directive]⟩
    · exact obeys_setGroups rfl rfl rfl (.refl d.places p)

lemma obeys_closeGroup (d : Directive) : ObeysTo d.places p (p.closeGroup d) := by
  unfold closeGroup
  split
  · exact ⟨d.location_mem_places, by simp [Rejection.directive]⟩
  · exact obeys_setGroups rfl rfl rfl (.refl d.places p)

lemma obeys_enter (fs : FileSystem) {location : Location} (hlocation : location ∈ places)
    (isLocal : Bool) (name : String) : ObeysTo places p (p.enter fs location isLocal name) := by
  apply enter_cases (motive := ObeysTo places p)
  case nothing => exact fun _ => obeys_self places
  case tooDeep => exact fun _ _ _ _ => ⟨hlocation, by simp⟩
  case unresolved =>
    intro f _ _ _ cause hframe
    refine ⟨hlocation, ?_⟩
    rcases includedFrame_error hframe with rfl | rfl | ⟨cause, rfl⟩ | ⟨cause, rfl⟩ <;> simp
  case cyclic => exact fun _ _ _ _ _ _ _ _ _ => ⟨hlocation, by simp⟩
  case entered =>
    exact fun _ _ _ _ frame hframe _ =>
      ⟨rfl, rfl, .inr ⟨frame, rfl, includedFrame_isLoaded hframe⟩, .refl places p⟩

lemma obeys_obey (fs : FileSystem) (p : Preprocessor) (d : Directive) :
    ObeysTo d.places p (p.obey fs d) := by
  have hhash : d.hash ∈ d.places := List.mem_cons_self
  apply obey_cases (motive := ObeysTo d.places p)
  case ifDefined | ifNotDefined => exact fun _ => obeys_openGroup fun _ h => Directive.asksForMacro_isAbout h
  case ifHolds => exact fun _ => obeys_openGroup fun _ h => Directive.asksForTruth_isAbout h
  case elseIf => exact fun _ => obeys_openBranch d
  case otherwise => exact fun _ => obeys_openLastBranch d
  case endIf => exact fun _ => obeys_closeGroup d
  case inactive | ignored => exact fun _ => obeys_self d.places
  case define | undefine => exact fun _ _ _ _ => obeys_self d.places
  case includeFile => exact fun _ _ _ _ _ => obeys_enter fs d.location_mem_places _ _
  case noDefinition => exact fun _ _ _ => Directive.definition_isAbout
  case noMacro => exact fun _ _ _ => Directive.macroName_isAbout
  case noFile => exact fun _ _ _ => Directive.includedName_isAbout
  case raise => exact fun _ _ => ⟨hhash, by simp [Rejection.directive]⟩
  case warn => exact fun _ _ => obeys_report hhash (by simp)
  case unknown => exact fun _ _ => ⟨d.location_mem_places, by simp [Rejection.directive]⟩

/-- The line behind a hash is obeyed or rejected for something on it. -/
theorem obeys_obeyLine (fs : FileSystem) (p : Preprocessor) (hash : Location) (line : List LocatedToken) :
    Obeys (hash :: line.map (·.location)) p (p.obeyLine fs hash line) := by
  have hobey (location : Location) (name : String) (args : List LocatedToken) :=
    obeys_obey fs p { hash, name, location, args }
  apply obeyLine_cases (motive := Obeys (hash :: line.map (·.location)) p)
  case same => exact obeys_self _
  case noName =>
    rintro t args rfl
    exact obeys_reject ⟨by simp [Rejection.directive], by simp [Rejection.directive]⟩
  case obeyed =>
    rintro location name args q rfl hq
    have hobeyed := hobey location name args
    rwa [hq] at hobeyed
  case rejected =>
    rintro location name args r rfl hr
    have habout := hobey location name args
    rw [hr] at habout
    exact obeys_reject habout

end Directives

end Preprocessor

/-! ### Steps -/

namespace Frame

/-- The place where a source is read next. -/
def here (f : Frame) : Location :=
  match f.lexemes with
  | [] => f.stop
  | x :: _ => x.location

/-- The places of what is read next in a source: one place, or those on the line of a directive. -/
def places (f : Frame) : List Location :=
  match f.lexemes with
  | [] => [f.stop]
  | x :: rest =>
    if x.token = .punct .hash && f.atLineStart then
      x.location :: (rest.takeWhile (·.token != .newline)).map (·.location)
    else [x.location]

/-- The source `f'` is `f` later on. -/
structure Continues (f f' : Frame) : Prop where
  source : f'.source = f.source
  stop : f'.stop = f.stop
  lexemes : f'.lexemes <:+ f.lexemes

lemma here_mem_places (f : Frame) : f.here ∈ f.places := by
  unfold here places
  split
  · exact List.mem_singleton_self _
  · split <;> exact List.mem_cons_self

lemma continues_onward (f : Frame) {lexemes : List Lexeme} (h : lexemes <:+ f.lexemes)
    (atLineStart : Bool) : f.Continues { f with lexemes, atLineStart } :=
  ⟨rfl, rfl, h⟩

lemma Continues.isLoaded {f f' : Frame} (h : f.Continues f') (hf : f.IsLoaded) : f'.IsLoaded := by
  obtain ⟨content, hcontent, hlexemes, hstop⟩ := hf
  refine ⟨content, ?_, h.lexemes.trans hlexemes, h.stop.trans hstop⟩
  rw [h.source, hcontent]

end Frame

namespace Preprocessor

/-- The place of what a step takes next. -/
def here (p : Preprocessor) : Location :=
  match p.expansions, p.frames with
  | e :: _, _ => e.location
  | [], f :: _ => f.here
  | [], [] => .start

/-- The places that the next step is about. -/
def places (p : Preprocessor) : List Location :=
  match p.expansions, p.frames with
  | [], f :: _ => f.places
  | _, _ => [p.here]

/-- The report at the end of a source with an open group. -/
def openEnd? (p : Preprocessor) : Option Diagnostic :=
  match p.expansions, p.frames with
  | [], f :: _ =>
    if f.lexemes.isEmpty && !f.groups.isEmpty && !p.finished then
      some { source := f.source.name, location := f.stop, token := .eof,
             problem := .error (.directive .unterminatedIf) }
    else none
  | _, _ => none

/-- The sources behind a step: the same ones, or the innermost one has been read from, has entered
another one or has ended. -/
inductive SourcesBehind (p q : Preprocessor) : Prop
  | same (h : q.frames = p.frames)
  | read {f f' : Frame} {outer : List Frame} (hexpansions : p.expansions = [])
      (hp : p.frames = f :: outer) (h : f.Continues f') (hq : q.frames = f' :: outer)
  | enter {f f' frame : Frame} {outer : List Frame} (hexpansions : p.expansions = [])
      (hp : p.frames = f :: outer) (h : f.Continues f') (hframe : frame.IsLoaded)
      (hq : q.frames = frame :: f' :: outer) (hnone : q.expansions = [])
  | leave {f : Frame} {outer : List Frame} (hexpansions : p.expansions = [])
      (hp : p.frames = f :: outer) (houter : outer ≠ []) (hq : q.frames = outer)
      (hnone : q.expansions = [])

/-- What the state `q` has reported more than `p` is about the places of the step from `p`, and about an
open group only at the end of its source. -/
def ReportsNext (p q : Preprocessor) : Prop :=
  ∃ ds, q.diagnostics = p.diagnostics ++ ds ∧
    (∀ d ∈ ds, d.source = p.currentName ∧ d.location ∈ p.places) ∧
    ds.filter (·.isUnterminated) = p.openEnd?.toList

/-- What a step does in the state `p`, as far as places are concerned. -/
structure IsStep (p : Preprocessor) (s : Step) : Prop where
  reports : ReportsNext p s.next
  sources : SourcesBehind p s.next
  expansions : ∀ e ∈ s.next.expansions, e.location = p.here ∨ ∃ e' ∈ p.expansions, e.location = e'.location
  delivered : ∀ t q, s = .deliver t q → t.location = p.here ∧ q.currentName = p.currentName
  finished : s.next.finished = p.finished ∨
    s.next.expansions = [] ∧ s.next.frames.tail = [] ∧ s.next.lexemes = []

section Steps

variable {p : Preprocessor}

lemma here_mem_places (p : Preprocessor) : p.here ∈ p.places := by
  unfold places
  split
  next f outer hexpansions hframes =>
    unfold here
    rw [hexpansions, hframes]
    exact f.here_mem_places
  · exact List.mem_singleton_self _

lemma lexemes_eq {f : Frame} {outer : List Frame} (hp : p.frames = f :: outer) : p.lexemes = f.lexemes := by
  rw [lexemes, hp]

lemma filter_isUnterminated {source : String} {places : List Location} {ds : List Diagnostic}
    (h : ∀ d ∈ ds, d.IsAbout source places) : ds.filter (·.isUnterminated) = [] := by
  apply List.filter_eq_nil_iff.2
  intro d hd
  simp [(h d hd).isUnterminated]

lemma ReportsAt.next {places : List Location} {q : Preprocessor} (h : ReportsAt places p q)
    (hplaces : ∀ l ∈ places, l ∈ p.places) (hend : p.openEnd? = none) : ReportsNext p q := by
  obtain ⟨ds, hds, habout⟩ := h
  refine ⟨ds, hds, fun d hd => ⟨(habout d hd).source, hplaces _ (habout d hd).location⟩, ?_⟩
  rw [filter_isUnterminated habout, hend]
  rfl

/-- A token at a place is delivered, or its macro is expanded there. -/
structure IsPlaced (p : Preprocessor) (t : LocatedToken) (s : Step) : Prop where
  frames : s.next.frames = p.frames
  finished : s.next.finished = p.finished
  reports : ReportsAt [t.location] p s.next
  expansions : ∀ e ∈ s.next.expansions, e.location = t.location ∨ e ∈ p.expansions
  delivered : ∀ u q, s = .deliver u q → u = t ∧ q = p

lemma place_isPlaced (p : Preprocessor) (t : LocatedToken) : IsPlaced p t (p.place t) := by
  unfold place
  split
  · refine ⟨rfl, rfl, .refl _ p, fun e he => .inr he, ?_⟩
    intro u q h
    obtain ⟨rfl, rfl⟩ := Step.deliver.inj h
    exact ⟨rfl, rfl⟩
  · split
    · exact ⟨rfl, rfl, reportsAt_report (List.mem_singleton_self _) (by simp), fun e he => .inr he, by simp⟩
    · refine ⟨rfl, rfl, .refl _ p, ?_, by simp⟩
      intro e he
      rcases List.mem_cons.1 he with rfl | he
      · exact .inl rfl
      · exact .inr he

lemma stepExpansion_isStep {e : Expansion} {outer : List Expansion} (hp : p.expansions = e :: outer) :
    IsStep p (p.stepExpansion e outer) := by
  have hhere : p.here = e.location := by rw [here, hp]
  have hplaces : ∀ l ∈ [e.location], l ∈ p.places := by
    intro l hl
    obtain rfl := List.mem_singleton.1 hl
    rw [← hhere]
    exact p.here_mem_places
  have hend : p.openEnd? = none := by rw [openEnd?, hp]
  have hself := (ReportsAt.refl [e.location] p).next hplaces hend
  unfold stepExpansion
  split
  · refine ⟨hself, .same rfl, fun e' he' => .inr ⟨e', ?_, rfl⟩, by simp, .inl rfl⟩
    rw [hp]
    exact List.mem_cons_of_mem e he'
  next t rest _ =>
    have hadvanced {e' : Expansion} (he' : e' ∈ { e with rest } :: outer) :
        e'.location = p.here ∨ ∃ e'' ∈ p.expansions, e'.location = e''.location := by
      rcases List.mem_cons.1 he' with rfl | he'
      · exact .inl hhere.symm
      · exact .inr ⟨e', by simp [hp, he'], rfl⟩
    dsimp only
    split
    · exact ⟨hself, .same rfl, fun e' he' => hadvanced he', by simp, .inl rfl⟩
    · obtain ⟨hframes, hfinished, hreports, hexpansions, hdelivered⟩ :=
        place_isPlaced { p with expansions := { e with rest } :: outer } ⟨e.location, t⟩
      have habout : ReportsAt [e.location] p _ := hreports
      refine ⟨habout.next hplaces hend, .same hframes, ?_, ?_, .inl hfinished⟩
      · intro e' he'
        rcases hexpansions e' he' with hlocation | he'
        · exact .inl (hlocation.trans hhere.symm)
        · exact hadvanced he'
      · intro u q h
        obtain ⟨rfl, rfl⟩ := hdelivered u q h
        exact ⟨hhere.symm, rfl⟩

lemma stepEnd_isStep {f : Frame} {outer : List Frame} (hexpansions : p.expansions = [])
    (hp : p.frames = f :: outer) (hf : f.lexemes = []) : IsStep p (p.stepEnd f outer) := by
  have hhere : p.here = f.stop := by
    unfold here Frame.here
    rw [hexpansions, hp]
    simp only [hf]
  have hend : p.openEnd? = if !f.groups.isEmpty && !p.finished then
      some { source := f.source.name, location := f.stop, token := .eof,
             problem := .error (.directive .unterminatedIf) } else none := by
    rw [openEnd?, hexpansions, hp]
    simp [hf]
  have hself (h : p.openEnd? = none) := (ReportsAt.refl [] p).next (by simp) h
  have hbehind {q : Preprocessor} (hframes : q.frames = p.frames) (hnone : q.expansions = [])
      (hfinished : q.finished = p.finished) (hreports : ReportsNext p q) :
      IsStep p (if outer.isEmpty then .deliver ⟨f.stop, .eof⟩ { q with finished := true }
        else .proceed { q with frames := outer }) := by
    cases outer with
    | nil =>
      refine ⟨hreports, .same hframes, by simp [Step.next, hnone], ?_, .inr ⟨hnone, ?_, ?_⟩⟩
      · intro t r h
        obtain ⟨rfl, rfl⟩ := Step.deliver.inj h
        refine ⟨hhere.symm, ?_⟩
        rw [currentName, currentName, hframes, hp]
      · exact congrArg List.tail (hframes.trans hp)
      · exact (lexemes_eq (hframes.trans hp)).trans hf
    | cons g outer =>
      exact ⟨hreports, .leave hexpansions hp (by simp) rfl hnone, by simp [Step.next, hnone], by simp,
        .inl hfinished⟩
  unfold stepEnd
  dsimp only
  cases hfinished : p.finished with
  | true =>
    refine ⟨hself (by simp [hend, hfinished]), .same rfl, by simp [Step.next, hexpansions], ?_, .inl rfl⟩
    intro t q h
    obtain ⟨rfl, rfl⟩ := Step.deliver.inj h
    exact ⟨hhere.symm, rfl⟩
  | false =>
    cases hgroups : f.groups.isEmpty with
    | true => exact hbehind rfl hexpansions rfl (hself (by simp [hend, hgroups]))
    | false =>
      refine hbehind rfl hexpansions rfl ⟨_, Array.toList_push, ?_, ?_⟩
      · intro d hd
        obtain rfl := List.mem_singleton.1 hd
        exact ⟨rfl, by rw [← hhere]; exact p.here_mem_places⟩
      · have hname : p.currentName = f.source.name := by rw [currentName, hp]
        simp [hend, hgroups, hfinished, Diagnostic.isUnterminated, hname]

lemma directive_isStep (fs : FileSystem) {q : Preprocessor} {f f' : Frame} {outer : List Frame}
    (hexpansions : p.expansions = []) (hp : p.frames = f :: outer) (h : f.Continues f')
    (hq : q.frames = f' :: outer) (hnone : q.expansions = []) (hfinished : q.finished = p.finished)
    (hend : p.openEnd? = none) (hreports : ReportsAt p.places p q) {hash : Location} {line : List LocatedToken}
    (hline : hash :: line.map (·.location) ⊆ p.places) :
    IsStep p (.proceed (q.obeyLine fs hash line)) := by
  obtain ⟨hsame, hkept, hsources, hobeyed⟩ := obeys_obeyLine fs q hash line
  have hname : q.currentName = p.currentName := by
    unfold currentName
    rw [hp, hq]
    exact congrArg Source.name h.source
  have hbehind := hsame.trans hnone
  refine ⟨(hreports.trans hname (hobeyed.mono hline)).next (fun l hl => hl) hend, ?_,
    by simp [Step.next, hbehind], by simp, .inl (hkept.trans hfinished)⟩
  rcases hsources with ⟨groups, hr⟩ | ⟨frame, hr, hframe⟩
  · have hgroups : (q.setGroups groups).frames = { f' with groups } :: outer := by
      unfold setGroups mapTop
      rw [hq]
    have hregrouped : f.Continues { f' with groups } := ⟨h.source, h.stop, h.lexemes⟩
    exact .read hexpansions hp hregrouped (hr.trans hgroups)
  · rw [hq] at hr
    exact .enter hexpansions hp h hframe hr hbehind

lemma stepLexeme_isStep (fs : FileSystem) {f : Frame} {outer : List Frame} {x : Lexeme}
    {rest : List Lexeme} (hexpansions : p.expansions = []) (hp : p.frames = f :: outer)
    (hf : f.lexemes = x :: rest) : IsStep p (p.stepLexeme fs f outer x rest) := by
  have hhere : p.here = x.location := by
    unfold here Frame.here
    rw [hexpansions, hp]
    simp only [hf]
  have hend : p.openEnd? = none := by
    rw [openEnd?, hexpansions, hp]
    simp [hf]
  have hplaces : ∀ l ∈ [x.location], l ∈ p.places := by
    intro l hl
    obtain rfl := List.mem_singleton.1 hl
    rw [← hhere]
    exact p.here_mem_places
  have hrest : rest <:+ f.lexemes := by
    rw [hf]
    exact List.suffix_cons x rest
  have hnoted (lexemes : List Lexeme) (atLineStart : Bool) :
      ReportsAt [x.location] p (p.afterLexeme f outer x lexemes atLineStart) :=
    reportsAt_noteFaults p [x]
  have hname (lexemes : List Lexeme) (atLineStart : Bool) :
      (p.afterLexeme f outer x lexemes atLineStart).currentName = p.currentName := by
    rw [currentName, currentName, hp]
    rfl
  apply stepLexeme_cases (motive := IsStep p)
  case passed =>
    intro _
    refine ⟨(hnoted rest _).next hplaces hend,
      .read hexpansions hp (f.continues_onward hrest _) rfl, ?_, by simp, .inl rfl⟩
    intro e he
    exact absurd (hexpansions ▸ he) List.not_mem_nil
  case directive =>
    intro hhash hstart
    have hfollowing : (rest.dropWhile (·.token != .newline)).drop 1 <:+ f.lexemes :=
      (List.drop_suffix _ _).trans ((List.dropWhile_suffix _).trans hrest)
    have hline : p.places = x.location :: (rest.takeWhile (·.token != .newline)).map (·.location) := by
      unfold places Frame.places
      rw [hexpansions, hp]
      simp only [hf]
      rw [if_pos (by simp [hhash, hstart])]
    refine directive_isStep fs hexpansions hp (f.continues_onward hfollowing true) ?_ ?_ ?_ hend ?_ ?_
    · rfl
    · exact hexpansions
    · rfl
    · refine ((hnoted _ true).mono hplaces).trans (hname _ true) ((reportsAt_noteFaults _ _).mono ?_)
      rw [hline]
      exact List.subset_cons_self _ _
    · rw [hline, List.map_map]
      exact List.cons_subset_cons _ (List.map_subset _ (List.filter_subset_self _))
  case placed =>
    intro _ _ _ _
    obtain ⟨hframes, hfinished, hreports, hexpanded, hdelivered⟩ :=
      place_isPlaced (p.afterLexeme f outer x rest false) x.located
    refine ⟨((hnoted rest false).trans (hname rest false) hreports).next hplaces hend,
      .read hexpansions hp (f.continues_onward hrest false) hframes, ?_, ?_, .inl hfinished⟩
    · intro e he
      rcases hexpanded e he with hlocation | he
      · exact .inl (hlocation.trans hhere.symm)
      · exact absurd (hexpansions ▸ he) List.not_mem_nil
    · intro t q h
      obtain ⟨rfl, rfl⟩ := hdelivered t q h
      exact ⟨hhere.symm, hname rest false⟩

/-- Every step is about the places of what it reads. -/
theorem step_isStep (fs : FileSystem) (p : Preprocessor) : IsStep p (p.step fs) := by
  unfold step
  split
  next hp => exact stepExpansion_isStep hp
  next hexpansions =>
    split
    next hp =>
      have hhere : p.here = .start := by rw [here, hexpansions, hp]
      have hend : p.openEnd? = none := by rw [openEnd?, hexpansions, hp]
      refine ⟨(ReportsAt.refl [] p).next (by simp) hend, .same rfl, by simp [Step.next, hexpansions], ?_,
        .inr ⟨hexpansions, congrArg List.tail hp, ?_⟩⟩
      · intro t q h
        obtain ⟨rfl, rfl⟩ := Step.deliver.inj h
        exact ⟨hhere.symm, rfl⟩
      · unfold lexemes
        simp only [Step.next, hp]
    next hp =>
      split
      next hf => exact stepEnd_isStep hexpansions hp hf
      next hf => exact stepLexeme_isStep fs hexpansions hp hf

end Steps

end Preprocessor

end Shading
