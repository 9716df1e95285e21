import Mathlib.Data.List.Induction
import Shading.Preprocessor.Directive

/-!
# Loading while files change

A source in a file is loaded, and asked whether it has been, while somebody else writes and deletes
files. The first load that succeeds decides what the source contains from then on. An included
source is loaded when it is resolved and loaded again when it is entered, so what is read in between
from other hands does not reach its tokens.
-/

namespace Shading

namespace Source

/-! ### A single load -/

lemma load_backing (fs : FileSystem) (source : Source) :
    (source.load fs).2.name = source.name ∧ (source.load fs).2.backing = source.backing := by
  unfold load
  split
  · exact ⟨rfl, rfl⟩
  · split <;> exact ⟨rfl, rfl⟩

lemma load_loaded {fs : FileSystem} {source loaded : Source} {content : List UInt8}
    (h : source.load fs = (.ok content, loaded)) : loaded.loaded = some content := by
  unfold load at h
  split at h
  next hloaded =>
    obtain ⟨hcontent, rfl⟩ := Prod.mk.inj h
    rw [hloaded, Except.ok.inj hcontent]
  · split at h
    · obtain ⟨hcontent, rfl⟩ := Prod.mk.inj h
      rw [Except.ok.inj hcontent]
    · cases (Prod.mk.inj h).1

lemma load_of_loaded {source : Source} {content : List UInt8} (h : source.loaded = some content)
    (fs : FileSystem) : source.load fs = (.ok content, source) := by
  rw [load, h]

/-- A source that an include leads to has been read. -/
theorem loaded_of_resolveInclude {fs : FileSystem} {base source : Source} {isLocal : Bool} {name : String}
    (h : resolveInclude fs base isLocal name = .ok source) :
    ∃ path content, base.relativePath? name = some path ∧ fs.read path = .ok content ∧
      source = { ofFile path with loaded := some content } := by
  unfold resolveInclude at h
  cases hlocal : !isLocal with
  | true => simp [hlocal] at h
  | false =>
    cases hpath : base.relativePath? name with
    | none => simp [hlocal, hpath] at h
    | some path =>
      cases hread : fs.read path with
      | error cause => simp [hlocal, hpath, load, content, ofFile, hread] at h
      | ok content =>
        refine ⟨path, content, rfl, hread, ?_⟩
        simp only [hlocal, hpath, load, Source.content, ofFile, hread] at h
        exact (Except.ok.inj h).symm

/-! ### Histories -/

/-- What happens to a source or beside it. A change leads to any other files, so it stands for writes and
deletions alike. -/
inductive Event
  | load
  | ask
  | change (files : FileSystem)

/-- A source and the files as they are at one time. -/
structure Moment where
  files : FileSystem
  source : Source

namespace Moment

variable {m start : Moment} {content : List UInt8} {path : Path}

/-- What a load yields now. -/
def loads (m : Moment) : Except FileError (List UInt8) :=
  (m.source.load m.files).1

def happen (m : Moment) : Event → Moment
  | .load => { m with source := (m.source.load m.files).2 }
  | .ask => m
  | .change files => { m with files }

def after (m : Moment) (events : List Event) : Moment :=
  events.foldl happen m

/-- Some load among the events has succeeded. -/
def Succeeded (start : Moment) (events : List Event) : Prop :=
  ∃ before later content, events = before ++ .load :: later ∧ (start.after before).loads = .ok content

lemma after_append (m : Moment) (before later : List Event) :
    m.after (before ++ later) = (m.after before).after later :=
  List.foldl_append

lemma after_concat (m : Moment) (events : List Event) (e : Event) :
    m.after (events ++ [e]) = (m.after events).happen e :=
  after_append m events [e]

lemma loads_of_loaded (h : m.source.loaded = some content) : m.loads = .ok content := by
  rw [loads, Source.load, h]

lemma loads_of_unloaded (h : m.source.isLoaded = false) : m.loads = m.source.content m.files := by
  have hnone : m.source.loaded = none := Option.isNone_iff_eq_none.1 (Option.isSome_eq_false_iff.1 h)
  unfold loads Source.load
  rw [hnone]
  cases m.source.content m.files <;> rfl

lemma loaded_of_loads (h : m.loads = .ok content) : (m.happen .load).source.loaded = some content :=
  Source.load_loaded (Prod.ext h rfl)

lemma happen_load_of_error {cause : FileError} (h : m.loads = .error cause) : m.happen .load = m := by
  have hsource : (m.source.load m.files).2 = m.source := by
    unfold loads Source.load at h
    unfold Source.load
    cases hloaded : m.source.loaded with
    | some content => rfl
    | none =>
      cases hcontent : m.source.content m.files with
      | ok content => simp [hloaded, hcontent] at h
      | error cause => rfl
  rw [happen, hsource]

lemma happen_backing (m : Moment) (e : Event) : (m.happen e).source.backing = m.source.backing := by
  cases e with
  | load => exact (Source.load_backing m.files m.source).2
  | ask => rfl
  | change files => rfl

lemma after_backing (m : Moment) (events : List Event) :
    (m.after events).source.backing = m.source.backing := by
  induction events generalizing m with
  | nil => rfl
  | cons e events ih => exact (ih (m.happen e)).trans (happen_backing m e)

lemma happen_loaded (h : m.source.loaded = some content) (e : Event) :
    (m.happen e).source.loaded = some content := by
  cases e with
  | load => exact loaded_of_loads (loads_of_loaded h)
  | ask => exact h
  | change files => exact h

lemma after_loaded (h : m.source.loaded = some content) (events : List Event) :
    (m.after events).source.loaded = some content := by
  induction events generalizing m with
  | nil => exact h
  | cons e events ih => exact ih (happen_loaded h e)

lemma isLoaded_happen (m : Moment) (e : Event) : (m.happen e).source.isLoaded = true ↔
    m.source.isLoaded = true ∨ e = .load ∧ ∃ content, m.loads = .ok content := by
  cases e with
  | load =>
    cases hloads : m.loads with
    | ok content => simp [isLoaded, loaded_of_loads hloads]
    | error cause => simp [happen_load_of_error hloads]
  | ask => simp [happen]
  | change files => simp [happen]

lemma not_succeeded_nil (start : Moment) : ¬start.Succeeded [] := by
  rintro ⟨before, later, content, hsplit, -⟩
  simp at hsplit

lemma succeeded_concat (start : Moment) (events : List Event) (e : Event) :
    start.Succeeded (events ++ [e]) ↔
      start.Succeeded events ∨ e = .load ∧ ∃ content, (start.after events).loads = .ok content := by
  constructor
  · rintro ⟨before, later, content, hsplit, hloads⟩
    rcases List.eq_nil_or_concat later with rfl | ⟨later, last, rfl⟩
    · obtain ⟨rfl, he⟩ := List.append_inj' hsplit rfl
      exact .inr ⟨List.singleton_inj.1 he, content, hloads⟩
    · rw [List.concat_eq_append, ← List.cons_append, ← List.append_assoc] at hsplit
      exact .inl ⟨before, later, content, (List.append_inj' hsplit rfl).1, hloads⟩
  · rintro (⟨before, later, content, rfl, hloads⟩ | ⟨rfl, content, hloads⟩)
    · exact ⟨before, later ++ [e], content, by simp, hloads⟩
    · exact ⟨events, [], content, rfl, hloads⟩

/-- A source that begins unloaded is loaded as soon as a load has succeeded. -/
theorem isLoaded_after (hstart : start.source.isLoaded = false) (events : List Event) :
    (start.after events).source.isLoaded = true ↔ start.Succeeded events := by
  induction events using List.reverseRecOn with
  | nil =>
    refine iff_of_false ?_ (not_succeeded_nil start)
    rw [after, List.foldl_nil, hstart]
    exact Bool.false_ne_true
  | append_singleton events e ih => rw [after_concat, isLoaded_happen, succeeded_concat, ih]

lemma loads_of_not_succeeded (hstart : start.source.isLoaded = false)
    (hpath : start.source.backing = .file path) {events : List Event} (h : ¬start.Succeeded events) :
    (start.after events).loads = (start.after events).files.read path := by
  have hunloaded : (start.after events).source.isLoaded = false :=
    eq_false_of_ne_true (mt (isLoaded_after hstart events).1 h)
  rw [loads_of_unloaded hunloaded, Source.content, after_backing, hpath]

lemma loads_after_error (hpath : m.source.backing = .file path) {cause : FileError}
    (h : m.loads = .error cause) : (m.happen .load).source.isLoaded = false ∧
      ∀ later, ((m.happen .load).happen (.change later)).loads = later.read path := by
  have hunloaded : m.source.isLoaded = false := by
    refine eq_false_of_ne_true fun hloaded => ?_
    obtain ⟨content, hcontent⟩ := Option.isSome_iff_exists.1 hloaded
    cases (loads_of_loaded hcontent).symm.trans h
  rw [happen_load_of_error h]
  refine ⟨hunloaded, fun later => ?_⟩
  have hlater : (m.happen (.change later)).source.isLoaded = false := hunloaded
  rw [loads_of_unloaded hlater, Source.content, happen_backing, hpath]
  rfl

/-- The first load that succeeds decides what all later ones yield. -/
theorem loads_of_first_success (hstart : start.source.isLoaded = false)
    (hpath : start.source.backing = .file path) {before : List Event} (later : List Event)
    (h : ¬start.Succeeded before) (hread : (start.after before).files.read path = .ok content) :
    (start.after (before ++ .load :: later)).loads = .ok content := by
  have hfirst : (start.after before).loads = .ok content := by
    rw [loads_of_not_succeeded hstart hpath h, hread]
  rw [after_append]
  exact loads_of_loaded (after_loaded (loaded_of_loads hfirst) later)

end Moment

/-- The first load of a file that succeeds decides what the source contains, whatever happens to the file:
before it, loads read the file as it is and a failure leaves no trace; after it, they yield what it
read. So the tokens of an included file are those of the bytes that were read when the include was
resolved. -/
theorem content_of_first_success (fs : FileSystem) (path : Path) (events : List Event) :
    let start : Moment := ⟨fs, .ofFile path⟩
    let m := start.after events
    (m.source.isLoaded = true ↔ start.Succeeded events) ∧
    (¬start.Succeeded events → m.loads = m.files.read path) ∧
    (∀ cause, m.loads = .error cause → (m.happen .load).source.isLoaded = false ∧
      ∀ later, ((m.happen .load).happen (.change later)).loads = later.read path) ∧
    (∀ before later content, events = before ++ .load :: later → ¬start.Succeeded before →
      (start.after before).files.read path = .ok content → m.loads = .ok content) ∧
    ∀ base isLocal name source, resolveInclude fs base isLocal name = .ok source →
      ∃ file content, base.relativePath? name = some file ∧ fs.read file = .ok content ∧
        (∀ later, source.load later = (.ok content, source)) ∧
        ∃ frame, Preprocessor.includedFrame fs base isLocal name = .ok frame ∧ frame.source = source ∧
          frame.lexemes = (Lexemes.ofBytes content).list := by
  intro start m
  have hloaded : m.source.isLoaded = true ↔ start.Succeeded events := Moment.isLoaded_after rfl events
  have hread (h : ¬start.Succeeded events) : m.loads = m.files.read path :=
    Moment.loads_of_not_succeeded rfl rfl h
  refine ⟨hloaded, hread, ?_, ?_, ?_⟩
  · intro cause herror
    exact Moment.loads_after_error (Moment.after_backing start events) herror
  · rintro before later content hsplit hbefore hcontent
    have hlast : (start.after (before ++ .load :: later)).loads = .ok content :=
      Moment.loads_of_first_success rfl rfl later hbefore hcontent
    rw [← hsplit] at hlast
    exact hlast
  · intro base isLocal name source hsource
    obtain ⟨file, content, hfile, hcontent, rfl⟩ := loaded_of_resolveInclude hsource
    refine ⟨file, content, hfile, hcontent, fun later => load_of_loaded rfl later,
      Frame.ofContent fs { ofFile file with loaded := some content } content, ?_, rfl, rfl⟩
    unfold Preprocessor.includedFrame
    rw [hsource]
    rfl

/-- A file that is missing at first, then there, then other, then gone. -/
theorem content_of_first_success_replaced :
    let file (content : List UInt8) : FileSystem :=
      { FileSystem.empty with read := fun path => if path.text = "a/b" then .ok content else .error .notFound }
    let before : List Event := [.ask, .load, .change (file [97])]
    let later : List Event := [.change (file [98]), .ask, .load, .change .empty]
    let start : Moment := ⟨.empty, .ofFile ⟨"a/b"⟩⟩
    ¬start.Succeeded before ∧ (start.after before).loads = .ok [97] ∧
      (start.after (before ++ .load :: later)).loads = .ok [97] ∧
      (start.after (before ++ .load :: later)).source.isLoaded = true ∧
      ∃ source frame, resolveInclude (file [97]) (.ofFile ⟨"a/c"⟩) true "b" = .ok source ∧
        source.load .empty = (.ok [97], source) ∧
        Preprocessor.includedFrame (file [97]) (.ofFile ⟨"a/c"⟩) true "b" = .ok frame ∧
        frame.lexemes = (Lexemes.ofBytes [97]).list := by
  intro file before later start
  obtain ⟨hloaded, hread, -, -, -⟩ := content_of_first_success .empty ⟨"a/b"⟩ before
  have hbefore : ¬start.Succeeded before := by
    rw [← hloaded]
    exact Bool.false_ne_true
  obtain ⟨hloaded', -, -, hlast, -⟩ := content_of_first_success .empty ⟨"a/b"⟩ (before ++ .load :: later)
  have hfirst : (start.after before).loads = .ok [97] := by
    rw [hread hbefore]
    rfl
  have hsucceeded : start.Succeeded (before ++ .load :: later) := ⟨before, later, [97], rfl, hfirst⟩
  obtain ⟨-, -, -, -, hinclude⟩ := content_of_first_success (file [97]) ⟨"a/b"⟩ []
  have hresolved : resolveInclude (file [97]) (.ofFile ⟨"a/c"⟩) true "b" =
      .ok { ofFile ⟨"a/b"⟩ with loaded := some [97] } := by decide +kernel
  obtain ⟨path, content, hpath, hcontent, hkept, frame, hframe, -, hlexemes⟩ :=
    hinclude _ _ _ _ hresolved
  obtain rfl : (⟨"a/b"⟩ : Path) = path := by
    refine Option.some.inj (Eq.trans ?_ hpath)
    decide +kernel
  obtain rfl : [97] = content := Except.ok.inj hcontent
  exact ⟨hbefore, hfirst, hlast before later [97] rfl hbefore rfl, hloaded'.2 hsucceeded, _, frame,
    hresolved, hkept .empty, hframe, hlexemes⟩

end Source

end Shading
