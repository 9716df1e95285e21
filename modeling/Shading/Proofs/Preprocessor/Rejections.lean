import Shading.Proofs.Preprocessor.GroupFaults
import Shading.Proofs.Preprocessor.Passage

/-!
# Rejected directives

Which lines behind a hash are rejected, and for what reason. A rejected line is read to its end and
reported once, and that is all that it does.
-/

namespace Shading

/-- What follows the name of an include names a file, which is local if it stands in quotes. -/
inductive NamesFile : List LocatedToken → Bool → String → Prop
  | quoted (location : Location) (file : String) : NamesFile [⟨location, .string file⟩] true file
  | angles {first last : LocatedToken} {inner : List LocatedToken} (hfirst : first.token = .punct .leftAngle)
      (hlast : last.token = .punct .rightAngle) :
      NamesFile (first :: (inner ++ [last])) false (String.join (inner.map (·.token.text)))

namespace Preprocessor

/-- The line behind a hash is rejected in the state `p`. Lines of groups are rejected where they have no
group, or stand behind its last branch; all other lines only in text that counts. -/
inductive Refuses (fs : FileSystem) (p : Preprocessor) (hash : Location) :
    List LocatedToken → Rejection → Prop
  | noName (hactive : p.isActive = true) {t : LocatedToken} (ht : ∀ name, t.token ≠ .identifier name)
      {args : List LocatedToken} : Refuses fs p hash (t :: args) (.directive t.location t.token .noName)
  | unknown (hactive : p.isActive = true) {name : String} (hname : Keyword.ofName name = .unknown)
      {location : Location} {args : List LocatedToken} :
      Refuses fs p hash (⟨location, .identifier name⟩ :: args)
        (.directive location (.identifier name) (.unknown name))
  | raised (hactive : p.isActive = true) {location : Location} {args : List LocatedToken} :
      Refuses fs p hash (⟨location, .identifier "error"⟩ :: args)
        (.directive hash (.identifier "error") (.raised (spaced args)))
  | nothing (hactive : p.isActive = true) {name : String} (hname : name ∈ ["define", "undef"])
      {location : Location} :
      Refuses fs p hash [⟨location, .identifier name⟩]
        (.directive location (.identifier name) (.expectedName name))
  | noMacro (hactive : p.isActive = true) {name : String} (hname : name ∈ ["define", "undef"])
      {location : Location} {t : LocatedToken} (ht : ∀ name, t.token ≠ .identifier name)
      {args : List LocatedToken} :
      Refuses fs p hash (⟨location, .identifier name⟩ :: t :: args)
        (.directive t.location t.token (.expectedName name))
  | functionLike (hactive : p.isActive = true) {location place : Location} {name : String}
      {args : List LocatedToken} :
      Refuses fs p hash (⟨location, .identifier "define"⟩ :: ⟨place, .identifier name⟩ ::
          ⟨place.right name.utf8ByteSize, .punct .leftParen⟩ :: args)
        (.directive (place.right name.utf8ByteSize) (.punct .leftParen) (.functionLike name))
  | malformed (hactive : p.isActive = true) {location : Location} {args : List LocatedToken}
      (hargs : ∀ isLocal file, ¬NamesFile args isLocal file) :
      Refuses fs p hash (⟨location, .identifier "include"⟩ :: args)
        (.directive location (.identifier "include") .malformedInclude)
  | tooDeep (hactive : p.isActive = true) {location : Location} {args : List LocatedToken} {isLocal : Bool}
      {file : String} (hargs : NamesFile args isLocal file) {f : Frame} {outer : List Frame}
      (hframes : p.frames = f :: outer) (hdepth : p.limits.includeDepth < p.frames.length) :
      Refuses fs p hash (⟨location, .identifier "include"⟩ :: args)
        ⟨⟨location, .string file⟩, .includeTooDeep file p.limits.includeDepth⟩
  | unresolved (hactive : p.isActive = true) {location : Location} {args : List LocatedToken}
      {isLocal : Bool} {file : String} (hargs : NamesFile args isLocal file) {f : Frame} {outer : List Frame}
      (hframes : p.frames = f :: outer) (hdepth : p.frames.length ≤ p.limits.includeDepth)
      {cause : CompileError} (hframe : includedFrame fs f.source isLocal file = .error cause) :
      Refuses fs p hash (⟨location, .identifier "include"⟩ :: args) ⟨⟨location, .string file⟩, cause⟩
  | cyclic (hactive : p.isActive = true) {location : Location} {args : List LocatedToken}
      {isLocal : Bool} {file : String} (hargs : NamesFile args isLocal file) {f : Frame} {outer : List Frame}
      (hframes : p.frames = f :: outer) (hdepth : p.frames.length ≤ p.limits.includeDepth)
      {frame : Frame} (hframe : includedFrame fs f.source isLocal file = .ok frame) {path : Path}
      (hpath : frame.file = some path) (hcycle : ∃ g ∈ p.frames, g.file = some path) :
      Refuses fs p hash (⟨location, .identifier "include"⟩ :: args)
        ⟨⟨location, .string file⟩, .includeCycle path⟩
  | withoutIf {name : String} (hname : name ∈ ["elif", "else", "endif"]) (hgroups : p.groups = [])
      {location : Location} {args : List LocatedToken} :
      Refuses fs p hash (⟨location, .identifier name⟩ :: args)
        (.directive location (.identifier name) (.withoutIf name))
  | afterElse {name : String} (hname : name ∈ ["elif", "else"]) {g : Group} {outer : List Group}
      (hgroups : p.groups = g :: outer) (hseen : g.elseSeen = true) {location : Location}
      {args : List LocatedToken} :
      Refuses fs p hash (⟨location, .identifier name⟩ :: args)
        (.directive location (.identifier name) (.afterElse name))

/-- Why the line behind a hash is rejected, if it is. -/
def refusal? (fs : FileSystem) (p : Preprocessor) (hash : Location) (line : List LocatedToken) :
    Option Rejection :=
  match parseDirective hash line with
  | none => none
  | some (.error r) => if p.isActive then some r else none
  | some (.ok d) =>
    match p.obey fs d with
    | .ok _ => none
    | .error r => some r

lemma Keyword.spelling_active {name : String} {k : Keyword} (h : Keyword.ofName name = k) :
    (k = .define → name = "define") ∧ (k = .undefine → name = "undef") ∧
      (k = .includeFile → name = "include") ∧ (k = .raise → name = "error") := by
  subst h
  unfold Keyword.ofName
  split <;> simp

section Refuses

variable {fs : FileSystem} {p : Preprocessor} {hash : Location} {line : List LocatedToken} {r : Rejection}
  {d : Directive}

lemma obeyLine_refused (h : refusal? fs p hash line = some r) : p.obeyLine fs hash line = p.reject r := by
  unfold refusal? at h
  unfold obeyLine
  rcases hparse : parseDirective hash line with _ | r' | d
  · rw [hparse] at h
    cases h
  · rw [hparse] at h
    dsimp only at h ⊢
    split at h
    next hactive =>
      obtain rfl := Option.some.inj h
      rw [if_pos hactive]
    · cases h
  · rw [hparse] at h
    dsimp only at h ⊢
    cases hobey : p.obey fs d with
    | ok q =>
      rw [hobey] at h
      cases h
    | error r' =>
      rw [hobey] at h
      obtain rfl := Option.some.inj h
      rfl

lemma macroName_error : d.macroName = .error r ↔
    (d.args = [] ∧ r = .directive d.location (.identifier d.name) (.expectedName d.name)) ∨
      ∃ t args, d.args = t :: args ∧ (∀ name, t.token ≠ .identifier name) ∧
        r = .directive t.location t.token (.expectedName d.name) := by
  unfold Directive.macroName
  split
  next name args hargs =>
    simp [hargs]
  next t args ht hargs =>
    have hother : ∀ name, t.token ≠ .identifier name := by
      rintro name htoken
      exact ht t.location name (by rw [← htoken])
    simp [hargs, hother, eq_comm]
  next hargs => simp [hargs, eq_comm]

lemma macroName_ok {name : String} :
    d.macroName = .ok name ↔ ∃ place args, d.args = ⟨place, .identifier name⟩ :: args := by
  unfold Directive.macroName
  split
  next place name' args hargs =>
    simp only [hargs, Except.ok.injEq, List.cons.injEq, LocatedToken.mk.injEq, Token.identifier.injEq]
    exact ⟨fun h => ⟨_, _, ⟨rfl, h⟩, rfl⟩, fun ⟨_, _, ⟨_, h⟩, _⟩ => h⟩
  next t args ht hargs =>
    simp only [hargs, reduceCtorEq, false_iff, List.cons.injEq]
    rintro ⟨place, args', rfl, -⟩
    exact ht place name rfl
  next hargs => simp [hargs]

lemma definition_noMacro (h : d.macroName = .error r) : d.definition = .error r := by
  simp only [Directive.definition, h, bind, Except.bind]

lemma definition_functionLike (place : Location) (name : String) (args : List LocatedToken)
    (hargs : d.args = ⟨place, .identifier name⟩ :: ⟨place.right name.utf8ByteSize, .punct .leftParen⟩ :: args) :
    d.definition =
      .error (.directive (place.right name.utf8ByteSize) (.punct .leftParen) (.functionLike name)) := by
  simp [Directive.definition, macroName_ok.2 ⟨place, _, hargs⟩, hargs, bind, Except.bind, throw, throwThe,
    MonadExceptOf.throw]

lemma definition_error (h : d.definition = .error r) : d.macroName = .error r ∨
    ∃ place name args, d.args = ⟨place, .identifier name⟩ ::
        ⟨place.right name.utf8ByteSize, .punct .leftParen⟩ :: args ∧
      r = .directive (place.right name.utf8ByteSize) (.punct .leftParen) (.functionLike name) := by
  cases hnamed : d.macroName with
  | error r' =>
    rw [definition_noMacro hnamed] at h
    exact .inl (congrArg Except.error (Except.error.inj h))
  | ok name =>
    obtain ⟨place, args, hargs⟩ := macroName_ok.1 hnamed
    unfold Directive.definition at h
    simp only [hnamed, hargs, bind, Except.bind, List.drop_succ_cons, List.drop_zero] at h
    split at h
    next location rest =>
      split at h
      next hlocation =>
        subst hlocation
        exact .inr ⟨place, name, rest, hargs, (Except.error.inj h).symm⟩
      · cases h
    · cases h

lemma namesFile_angles {first second : LocatedToken} {rest : List LocatedToken} {isLocal : Bool}
    {file : String} : NamesFile (first :: second :: rest) isLocal file ↔
      (first.token = .punct .leftAngle ∧ ((second :: rest).getLast (by simp)).token = .punct .rightAngle) ∧
        isLocal = false ∧ file = String.join ((second :: rest).dropLast.map (·.token.text)) := by
  constructor
  · intro h
    generalize hargs : first :: second :: rest = args at h
    cases h with
    | quoted location file => simp at hargs
    | @angles first' last inner hfirst hlast =>
      obtain ⟨rfl, hrest⟩ := List.cons.inj hargs
      simp [hrest, hfirst, hlast]
  · rintro ⟨⟨hfirst, hlast⟩, rfl, rfl⟩
    have hsplit := List.dropLast_append_getLast (List.cons_ne_nil second rest)
    have hnames : NamesFile (first :: ((second :: rest).dropLast ++ [_])) false _ := .angles hfirst hlast
    rwa [hsplit] at hnames

lemma includedName_ok {isLocal : Bool} {file : String} :
    d.includedName = .ok (isLocal, file) ↔ NamesFile d.args isLocal file := by
  constructor
  · intro h
    unfold Directive.includedName at h
    split at h
    next location name hargs =>
      obtain ⟨rfl, rfl⟩ := Prod.mk.inj (Except.ok.inj h)
      rw [hargs]
      exact .quoted location name
    next first second rest hargs =>
      dsimp only at h
      split at h
      next hangles =>
        obtain ⟨rfl, rfl⟩ := Prod.mk.inj (Except.ok.inj h)
        rw [hargs]
        exact namesFile_angles.2 ⟨by simpa using hangles, rfl, rfl⟩
      · cases h
    · cases h
  · intro h
    unfold Directive.includedName
    split
    next location name hargs =>
      generalize hargs' : d.args = args at h
      cases h with
      | quoted =>
        obtain ⟨-, rfl⟩ : location = _ ∧ name = file := by simpa using hargs.symm.trans hargs'
        rfl
      | angles => simp [hargs] at hargs'
    next first second rest hargs =>
      rw [hargs] at h
      obtain ⟨hangles, rfl, rfl⟩ := namesFile_angles.1 h
      simp [hangles]
    next hquoted hangles =>
      generalize hargs : d.args = args at h
      cases h with
      | quoted location file => exact absurd hargs (hquoted location file)
      | @angles first last inner =>
        cases inner with
        | nil => exact absurd hargs (hangles _ _ _)
        | cons second inner => exact absurd hargs (hangles _ _ _)

lemma includedName_error : d.includedName = .error r ↔
    (∀ isLocal file, ¬NamesFile d.args isLocal file) ∧
      r = .directive d.location (.identifier "include") .malformedInclude := by
  have hmalformed : ∀ r, d.includedName = .error r →
      r = .directive d.location (.identifier "include") .malformedInclude := by
    intro r h
    unfold Directive.includedName at h
    split at h
    · cases h
    · dsimp only at h
      split at h
      · cases h
      · exact (Except.error.inj h).symm
    · exact (Except.error.inj h).symm
  constructor
  · intro h
    refine ⟨fun isLocal file hnames => ?_, hmalformed r h⟩
    cases h.symm.trans (includedName_ok.2 hnames)
  · rintro ⟨hnames, rfl⟩
    cases h : d.includedName with
    | error r => rw [hmalformed r h]
    | ok named => exact absurd (includedName_ok.1 h) (hnames named.1 named.2)

lemma parseDirective_noName {t : LocatedToken} (ht : ∀ name, t.token ≠ .identifier name)
    (args : List LocatedToken) :
    parseDirective hash (t :: args) = some (.error (.directive t.location t.token .noName)) := by
  unfold parseDirective
  split
  next hline => cases hline
  next location name args' hline => simp [(List.cons.inj hline).1] at ht
  next t' args' hline => rw [(List.cons.inj hline).1]

lemma parseDirective_error (h : parseDirective hash line = some (.error r)) :
    ∃ t args, line = t :: args ∧ (∀ name, t.token ≠ .identifier name) ∧
      r = .directive t.location t.token .noName := by
  unfold parseDirective at h
  split at h
  · cases h
  · cases h
  next t args ht =>
    refine ⟨t, args, rfl, ?_, (Except.error.inj (Option.some.inj h)).symm⟩
    rintro name htoken
    exact ht t.location name (by rw [← htoken])

lemma parseDirective_ok (h : parseDirective hash line = some (.ok d)) :
    d.hash = hash ∧ line = ⟨d.location, .identifier d.name⟩ :: d.args := by
  unfold parseDirective at h
  split at h
  · cases h
  · obtain rfl := Except.ok.inj (Option.some.inj h)
    exact ⟨rfl, rfl⟩
  · cases h

lemma refuses_branch (hname : d.name ∈ ["elif", "else"]) (next : Group → List Group → Preprocessor)
    (h : (match p.groups with
      | [] => .error (.directive d.location (.identifier d.name) (.withoutIf d.name))
      | g :: outer =>
        if g.elseSeen then .error (.directive d.location (.identifier d.name) (.afterElse d.name))
        else .ok (next g outer) : Except Rejection Preprocessor) = .error r) :
    Refuses fs p d.hash (⟨d.location, .identifier d.name⟩ :: d.args) r := by
  split at h
  next hgroups =>
    obtain rfl := Except.error.inj h
    exact .withoutIf (List.mem_append_left ["endif"] hname) hgroups
  next g outer hgroups =>
    split at h
    next hseen =>
      obtain rfl := Except.error.inj h
      exact .afterElse hname hgroups hseen
    · cases h

lemma refuses_openBranch (hname : d.name = "elif") (h : p.openBranch d = .error r) :
    Refuses fs p d.hash (⟨d.location, .identifier d.name⟩ :: d.args) r := by
  unfold openBranch at h
  rw [← hname] at h
  exact refuses_branch (by simp [hname]) _ h

lemma refuses_openLastBranch (hname : d.name = "else") (h : p.openLastBranch d = .error r) :
    Refuses fs p d.hash (⟨d.location, .identifier d.name⟩ :: d.args) r := by
  unfold openLastBranch at h
  rw [← hname] at h
  exact refuses_branch (by simp [hname]) _ h

lemma refuses_closeGroup (hname : d.name = "endif") (h : p.closeGroup d = .error r) :
    Refuses fs p d.hash (⟨d.location, .identifier d.name⟩ :: d.args) r := by
  rw [hname]
  unfold closeGroup at h
  split at h
  next hgroups =>
    obtain rfl := Except.error.inj h
    exact .withoutIf (by simp) hgroups
  · cases h

lemma refuses_macroName (hactive : p.isActive = true) (hname : d.name ∈ ["define", "undef"])
    (h : d.macroName = .error r) :
    Refuses fs p d.hash (⟨d.location, .identifier d.name⟩ :: d.args) r := by
  rcases macroName_error.1 h with ⟨hargs, rfl⟩ | ⟨t, args, hargs, ht, rfl⟩
  · rw [hargs]
    exact .nothing hactive hname
  · rw [hargs]
    exact .noMacro hactive hname ht

lemma refuses_enter (hactive : p.isActive = true) {args : List LocatedToken} {isLocal : Bool} {file : String}
    (hargs : NamesFile args isLocal file) {location : Location}
    (h : p.enter fs location isLocal file = .error r) :
    Refuses fs p hash (⟨location, .identifier "include"⟩ :: args) r := by
  revert h
  apply enter_cases (motive := fun outcome => outcome = .error r →
    Refuses fs p hash (⟨location, .identifier "include"⟩ :: args) r)
  case nothing => rintro - ⟨⟩
  case tooDeep =>
    rintro f outer hframes hdepth ⟨⟩
    exact .tooDeep hactive hargs hframes hdepth
  case unresolved =>
    rintro f outer hframes hroom cause hframe ⟨⟩
    exact .unresolved hactive hargs hframes hroom hframe
  case cyclic =>
    rintro f outer hframes hroom frame hframe path hpath hcycle ⟨⟩
    exact .cyclic hactive hargs hframes hroom hframe hpath hcycle
  case entered => rintro f outer - - frame - - ⟨⟩

lemma refuses_define (hactive : p.isActive = true) (hname : d.name = "define") (h : d.definition = .error r) :
    Refuses fs p d.hash (⟨d.location, .identifier d.name⟩ :: d.args) r := by
  rcases definition_error h with hnamed | ⟨place, name, args, hargs, rfl⟩
  · exact refuses_macroName hactive (by simp [hname]) hnamed
  · rw [hname, hargs]
    exact .functionLike hactive

lemma refuses_obey (h : p.obey fs d = .error r) :
    Refuses fs p d.hash (⟨d.location, .identifier d.name⟩ :: d.args) r := by
  obtain ⟨helif, helse, hendif⟩ := Shading.Keyword.spelling (k := Keyword.ofName d.name) rfl
  obtain ⟨hdefine, hundef, hinclude, hraise⟩ := Keyword.spelling_active (k := Keyword.ofName d.name) rfl
  revert h
  apply obey_cases (motive := fun outcome => outcome = .error r →
    Refuses fs p d.hash (⟨d.location, .identifier d.name⟩ :: d.args) r)
  case elseIf => exact fun hk => refuses_openBranch (helif hk)
  case otherwise => exact fun hk => refuses_openLastBranch (helse hk)
  case endIf => exact fun hk => refuses_closeGroup (hendif hk)
  case includeFile =>
    intro hk hactive isLocal file hincluded
    rw [hinclude hk]
    exact refuses_enter hactive (includedName_ok.1 hincluded)
  case noDefinition =>
    rintro hk hactive r' hd ⟨⟩
    exact refuses_define hactive (hdefine hk) hd
  case noMacro =>
    rintro hk hactive r' hd ⟨⟩
    exact refuses_macroName hactive (by simp [hundef hk]) hd
  case noFile =>
    rintro hk hactive r' hd ⟨⟩
    obtain ⟨hnames, rfl⟩ := includedName_error.1 hd
    rw [hinclude hk]
    exact .malformed hactive hnames
  case raise =>
    rintro hk hactive ⟨⟩
    rw [hraise hk]
    exact .raised hactive
  case unknown =>
    rintro hk hactive ⟨⟩
    exact .unknown hactive hk
  all_goals
    intros
    contradiction

lemma refusal?_include (hactive : p.isActive = true) {args : List LocatedToken} {isLocal : Bool}
    {file : String} (hargs : NamesFile args isLocal file) {location : Location}
    (henter : p.enter fs location isLocal file = .error r) :
    refusal? fs p hash (⟨location, .identifier "include"⟩ :: args) = some r := by
  have hincluded : Directive.includedName ⟨hash, "include", location, args⟩ = _ := includedName_ok.2 hargs
  simp [refusal?, parseDirective, obey, Keyword.ofName, hactive, hincluded, henter, bind, Except.bind]

lemma refusal?_of_refuses (h : Refuses fs p hash line r) : refusal? fs p hash line = some r := by
  cases h with
  | noName hactive ht => simp [refusal?, parseDirective_noName ht, hactive]
  | unknown hactive hname => simp [refusal?, parseDirective, obey, hname, hactive]
  | raised hactive => simp [refusal?, parseDirective, obey, Keyword.ofName, hactive]
  | @nothing hactive name hname location =>
    have hnamed : Directive.macroName ⟨hash, name, location, []⟩ = _ := macroName_error.2 (.inl ⟨rfl, rfl⟩)
    rcases List.mem_pair.1 hname with rfl | rfl
    · simp [refusal?, parseDirective, obey, Keyword.ofName, hactive, definition_noMacro hnamed, Except.map]
    · simp [refusal?, parseDirective, obey, Keyword.ofName, hactive, hnamed, Except.map]
  | @noMacro hactive name hname location t ht args =>
    have hnamed : Directive.macroName ⟨hash, name, location, t :: args⟩ = _ :=
      macroName_error.2 (.inr ⟨t, args, rfl, ht, rfl⟩)
    rcases List.mem_pair.1 hname with rfl | rfl
    · simp [refusal?, parseDirective, obey, Keyword.ofName, hactive, definition_noMacro hnamed, Except.map]
    · simp [refusal?, parseDirective, obey, Keyword.ofName, hactive, hnamed, Except.map]
  | @functionLike hactive location place name args =>
    have hdefinition : Directive.definition ⟨hash, "define", location, _⟩ = _ :=
      definition_functionLike place name args rfl
    simp [refusal?, parseDirective, obey, Keyword.ofName, hactive, hdefinition, Except.map]
  | @malformed hactive location args hargs =>
    have hincluded : Directive.includedName ⟨hash, "include", location, args⟩ = _ :=
      includedName_error.2 ⟨hargs, rfl⟩
    simp [refusal?, parseDirective, obey, Keyword.ofName, hactive, hincluded, bind, Except.bind]
  | tooDeep hactive hargs hframes hdepth =>
    rw [hframes] at hdepth
    refine refusal?_include hactive hargs ?_
    simp only [enter, hframes, if_pos hdepth]
  | unresolved hactive hargs hframes hdepth hframe =>
    rw [hframes] at hdepth
    refine refusal?_include hactive hargs ?_
    simp only [enter, hframes, if_neg (Nat.not_lt.2 hdepth), hframe]
  | @cyclic hactive location args isLocal file hargs f outer hframes hdepth frame hframe path hpath hcycle =>
    have hany : p.frames.any (·.file == some path) = true := by simpa using hcycle
    rw [hframes] at hdepth hany
    refine refusal?_include hactive hargs ?_
    simp only [enter, hframes, if_neg (Nat.not_lt.2 hdepth), hframe, hpath, hany, if_true]
  | withoutIf hname hgroups =>
    simp only [List.mem_cons, List.not_mem_nil, or_false] at hname
    rcases hname with rfl | rfl | rfl
    · simp [refusal?, parseDirective, obey, Keyword.ofName, openBranch, hgroups]
    · simp [refusal?, parseDirective, obey, Keyword.ofName, openLastBranch, hgroups]
    · simp [refusal?, parseDirective, obey, Keyword.ofName, closeGroup, hgroups]
  | afterElse hname hgroups hseen =>
    rcases List.mem_pair.1 hname with rfl | rfl
    · simp [refusal?, parseDirective, obey, Keyword.ofName, openBranch, hgroups, hseen]
    · simp [refusal?, parseDirective, obey, Keyword.ofName, openLastBranch, hgroups, hseen]

lemma refuses_of_refusal? (h : refusal? fs p hash line = some r) : Refuses fs p hash line r := by
  unfold refusal? at h
  split at h
  · cases h
  next r' hparse =>
    split at h
    next hactive =>
      obtain rfl := Option.some.inj h
      obtain ⟨t, args, rfl, ht, rfl⟩ := parseDirective_error hparse
      exact .noName hactive ht
    · cases h
  next d hparse =>
    obtain ⟨rfl, rfl⟩ := parseDirective_ok hparse
    split at h
    · cases h
    next r' hobey =>
      obtain rfl := Option.some.inj h
      exact refuses_obey hobey

/-- The reasons are all that there are, and each of them leads to its rejection. -/
theorem refuses_iff : Refuses fs p hash line r ↔ refusal? fs p hash line = some r :=
  ⟨refusal?_of_refuses, refuses_of_refusal?⟩

end Refuses

/-! ### What a rejected line does -/

/-- The state is at the start of this line of its innermost source, and the lexemes `rest` follow. -/
structure IsBefore (p : Preprocessor) (l : Line) (rest : List Lexeme) : Prop where
  expansions : p.expansions = []
  isLine : l.IsLine
  last : l.stop = none → rest = []
  top : ∃ f outer, p.frames = f :: outer ∧ f.lexemes = l.lexemes ++ rest ∧
    (l.content ≠ [] → f.atLineStart = true)

/-- The line is rejected in this state. -/
def Rejects (fs : FileSystem) (p : Preprocessor) (l : Line) (r : Rejection) : Prop :=
  ∃ hash args, l.words = ⟨hash, .punct .hash⟩ :: args ∧ Refuses fs p hash args r

section Rejected

variable {fs : FileSystem} {p : Preprocessor} {l : Line} {rest : List Lexeme} {r : Rejection}

/-- A refusal depends on the limits, on the groups of the current source, and on which sources are read. -/
theorem Refuses.transfer {q : Preprocessor} {hash : Location} {line : List LocatedToken}
    (h : Refuses fs p hash line r) (hlimits : q.limits = p.limits) (hactive : q.isActive = p.isActive)
    (hgroups : q.groups = p.groups)
    (hframes : q.frames.map (fun f => (f.source, f.file)) = p.frames.map fun f => (f.source, f.file)) :
    Refuses fs q hash line r := by
  have hlength : q.frames.length = p.frames.length := by simpa using congrArg List.length hframes
  have htop {f : Frame} {outer : List Frame} (hp : p.frames = f :: outer) :
      ∃ f' outer', q.frames = f' :: outer' ∧ f'.source = f.source := by
    rw [hp, List.map_cons] at hframes
    obtain ⟨f', outer', hq, hsame, -⟩ := List.map_eq_cons_iff.1 hframes
    exact ⟨f', outer', hq, congrArg Prod.fst hsame⟩
  cases h with
  | noName hcounts ht => exact .noName (hactive.trans hcounts) ht
  | unknown hcounts hname => exact .unknown (hactive.trans hcounts) hname
  | raised hcounts => exact .raised (hactive.trans hcounts)
  | nothing hcounts hname => exact .nothing (hactive.trans hcounts) hname
  | noMacro hcounts hname ht => exact .noMacro (hactive.trans hcounts) hname ht
  | functionLike hcounts => exact .functionLike (hactive.trans hcounts)
  | malformed hcounts hargs => exact .malformed (hactive.trans hcounts) hargs
  | tooDeep hcounts hargs hp hdepth =>
    obtain ⟨f', outer', hq, -⟩ := htop hp
    rw [← hlimits] at hdepth ⊢
    exact .tooDeep (hactive.trans hcounts) hargs hq (by rwa [hlength])
  | unresolved hcounts hargs hp hdepth hframe =>
    obtain ⟨f', outer', hq, hsource⟩ := htop hp
    exact .unresolved (hactive.trans hcounts) hargs hq (by rwa [hlength, hlimits]) (by rwa [hsource])
  | cyclic hcounts hargs hp hdepth hframe hpath hcycle =>
    obtain ⟨f', outer', hq, hsource⟩ := htop hp
    refine .cyclic (hactive.trans hcounts) hargs hq (by rwa [hlength, hlimits]) (by rwa [hsource]) hpath ?_
    obtain ⟨g, hg, hfile⟩ := hcycle
    have hmem : (g.source, g.file) ∈ q.frames.map fun f => (f.source, f.file) := by
      rw [hframes]
      exact List.mem_map_of_mem hg
    obtain ⟨g', hg', hsame⟩ := List.mem_map.1 hmem
    exact ⟨g', hg', (congrArg Prod.snd hsame).trans hfile⟩
  | withoutIf hname hnone => exact .withoutIf hname (hgroups.trans hnone)
  | afterElse hname hsome hseen => exact .afterElse hname (hgroups.trans hsome) hseen

lemma skipLine_eq {f : Frame} {outer : List Frame} (hframes : p.frames = f :: outer) :
    p.skipLine l rest =
      { p with
        frames := { f with lexemes := rest, atLineStart := true } :: outer
        log := p.log ++ (l.faults p.currentName).toArray } := by
  simp [skipLine, mapTop, hframes, noteAll]

/-- A rejected line is skipped, and reported. -/
theorem IsBefore.rejected_run (h : p.IsBefore l rest) (hr : Rejects fs p l r) :
    Run fs p [] ((p.skipLine l rest).noteAll [r.diagnostic p.currentName]) := by
  obtain ⟨hash, args, hwords, hrefuses⟩ := hr
  obtain ⟨f, outer, hframes, hlexemes, hstart⟩ := h.top
  have hcontent : l.content ≠ [] := by
    intro hnil
    rw [Line.words, hnil] at hwords
    cases hwords
  have hrun := hashLine_run fs h.expansions hframes (hstart hcontent) h.isLine hwords hlexemes h.last
  have hskipped : Refuses fs (p.skipLine l rest) hash args r := by
    apply hrefuses.transfer <;> simp [skipLine_eq hframes, isActive, groups, hframes, Frame.isActive]
  have hname : (p.skipLine l rest).currentName = p.currentName := by
    simp [skipLine_eq hframes, currentName, hframes]
  rw [obeyLine_refused (refuses_iff.1 hskipped), reject, error, report_eq_noteAll, hname] at hrun
  exact hrun

end Rejected

end Preprocessor

end Shading
