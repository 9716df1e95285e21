import Shading.Proofs.Preprocessor.Order

/-!
# Where steps read

A step reads at places of the innermost source, or goes on with a macro that was called at such a place.
As long as a macro is being expanded the sources stay the same, so the innermost one is still the one that
the macro was called from.
-/

namespace Shading

/-- A place in a source. -/
structure Origin where
  source : Source
  location : Location
  deriving DecidableEq, Repr

/-- A lexeme of what the source holds stands at the place, or it is the end. -/
def Origin.IsPlace (o : Origin) : Prop :=
  ∃ content, o.source.loaded = some content ∧ o.location ∈ (Lexemes.ofBytes content).places

lemma Frame.places_subset (f : Frame) : f.places ⊆ f.todo := by
  unfold places todo
  split
  next hf => simp [hf]
  next x rest hf =>
    rw [hf]
    split
    · apply List.cons_subset_cons
      apply List.subset_append_of_subset_left
      exact List.map_subset _ (List.takeWhile_prefix _).subset
    · simp

lemma Frame.IsLoaded.isPlace {f : Frame} (hf : f.IsLoaded) {location : Location}
    (h : location ∈ f.places) : Origin.IsPlace ⟨f.source, location⟩ := by
  obtain ⟨content, hcontent, ⟨front, hfront⟩, hstop⟩ := hf
  refine ⟨content, hcontent, ?_⟩
  have htodo := f.places_subset h
  unfold todo at htodo
  rw [Lexemes.places, ← hfront, ← hstop, List.map_append, List.append_assoc]
  exact List.mem_append_right _ htodo

namespace Preprocessor

/-- Where the next step reads. -/
def reads (p : Preprocessor) : List Origin :=
  match p.expansions, p.frames with
  | [], f :: _ => f.places.map (⟨f.source, ·⟩)
  | _, _ => []

/-- The source that is being read. -/
def source? (p : Preprocessor) : Option Source :=
  p.frames.head?.map (·.source)

/-- All sources hold what they were loaded with, the outermost one is the main one, and behind the end
nothing is left to be read. -/
structure IsRooted (p : Preprocessor) : Prop extends Significant p where
  loaded : ∀ f ∈ p.frames, f.IsLoaded
  main : ∀ name ∈ (p.frames.map (·.source.name)).getLast?, name = p.mainName
  unread : p.frames = [] → p.expansions = []
  finished : p.finished = true → p.expansions = [] ∧ p.frames.tail = [] ∧ p.lexemes = []

section Rooted

variable {fs : FileSystem} {p q : Preprocessor}

lemma currentName_of_source? {source : Source} (h : p.source? = some source) :
    p.currentName = source.name := by
  unfold source? at h
  unfold currentName
  cases hframes : p.frames with
  | nil => simp [hframes] at h
  | cons f outer =>
    rw [hframes] at h
    exact congrArg Source.name (Option.some.inj h)

lemma mem_reads {o : Origin} (h : o ∈ p.reads) :
    ∃ f ∈ p.frames, o.source = f.source ∧ o.location ∈ f.places := by
  unfold reads at h
  split at h
  next f outer _ hframes =>
    obtain ⟨location, hlocation, rfl⟩ := List.mem_map.1 h
    exact ⟨f, by simp [hframes], rfl, hlocation⟩
  · cases h

lemma reads_of_places {source : Source} (hexpansions : p.expansions = []) (hsource : p.source? = some source)
    {location : Location} (h : location ∈ p.places) : ⟨source, location⟩ ∈ p.reads := by
  unfold source? at hsource
  unfold places at h
  unfold reads
  cases hframes : p.frames with
  | nil => simp [hframes] at hsource
  | cons f outer =>
    rw [hframes] at hsource
    obtain rfl := Option.some.inj hsource
    rw [hexpansions, hframes] at h
    rw [hexpansions]
    exact List.mem_map_of_mem h

lemma IsRooted.isPlace (hp : p.IsRooted) {o : Origin} (h : o ∈ p.reads) : o.IsPlace := by
  obtain ⟨f, hf, hsource, hlocation⟩ := mem_reads h
  obtain ⟨source, location⟩ := o
  obtain rfl : source = f.source := hsource
  exact (hp.loaded f hf).isPlace hlocation

lemma IsRooted.currentName_finished (hp : p.IsRooted) (hfinished : p.finished = true) :
    p.currentName = p.mainName := by
  have hmain := hp.main
  obtain ⟨-, htail, -⟩ := hp.finished hfinished
  unfold currentName
  cases hframes : p.frames with
  | nil => rfl
  | cons f outer =>
    rw [hframes] at htail hmain
    obtain rfl : outer = [] := htail
    exact hmain _ rfl

lemma step_unread (fs : FileSystem) (hframes : p.frames = []) (hexpansions : p.expansions = []) :
    p.step fs = .deliver ⟨.start, .eof⟩ { p with finished := true } := by
  simp [step, hframes, hexpansions]

lemma IsRooted.frames_ne_nil (hp : p.IsRooted) {t : LocatedToken} (h : (p.step fs).token? = some t)
    (ht : t.token ≠ .eof) : p.frames ≠ [] := by
  intro hframes
  rw [step_unread fs hframes (hp.unread hframes)] at h
  obtain rfl := Option.some.inj h
  exact ht rfl

lemma IsRooted.step_finished (fs : FileSystem) (hp : p.IsRooted) (hfinished : p.finished = true) :
    (p.step fs).next = p := by
  obtain ⟨hexpansions, htail, hlexemes⟩ := hp.finished hfinished
  have hself : { p with finished := true } = p := by rw [← hfinished]
  cases hframes : p.frames with
  | nil =>
    rw [step_unread fs hframes hexpansions]
    exact hself
  | cons f outer =>
    rw [lexemes_eq hframes] at hlexemes
    simp [step, hexpansions, hframes, hlexemes, stepEnd, hfinished, Step.next]

lemma isRooted_start {c : Compiler} (hc : c.Reachable) (fs : FileSystem) (source : Source) :
    (c.preprocessor fs source).IsRooted := by
  refine ⟨significant_start hc fs source, ?_, ?_, ?_, ?_⟩
  all_goals
    have hname := (source.load_backing fs).1
    unfold Compiler.preprocessor start
    cases hload : source.load fs with
    | mk read loaded =>
      cases read with
      | error cause => simp [error, report, note]
      | ok content =>
        rw [hload] at hname
        have hloaded := Frame.isLoaded_ofContent fs (Source.load_loaded hload)
        simp_all [Frame.ofContent]

lemma loaded_step (fs : FileSystem) (hp : ∀ f ∈ p.frames, f.IsLoaded) :
    ∀ f ∈ (p.step fs).next.frames, f.IsLoaded := by
  cases (step_isStep fs p).sources with
  | same h =>
    rw [h]
    exact hp
  | read _ hframes h hq =>
    rw [hframes, List.forall_mem_cons] at hp
    rw [hq, List.forall_mem_cons]
    exact ⟨h.isLoaded hp.1, hp.2⟩
  | enter _ hframes h hframe hq _ =>
    rw [hframes, List.forall_mem_cons] at hp
    rw [hq, List.forall_mem_cons, List.forall_mem_cons]
    exact ⟨hframe, h.isLoaded hp.1, hp.2⟩
  | leave _ hframes _ hq _ =>
    rw [hframes, List.forall_mem_cons] at hp
    rw [hq]
    exact hp.2

lemma getLast?_step (fs : FileSystem) (p : Preprocessor) :
    ((p.step fs).next.frames.map (·.source.name)).getLast? = (p.frames.map (·.source.name)).getLast? := by
  cases (step_isStep fs p).sources with
  | same h => rw [h]
  | read _ hframes h hq => rw [hframes, hq, List.map_cons, List.map_cons, h.source]
  | enter _ hframes h _ hq _ => simp only [hframes, hq, List.map_cons, h.source, List.getLast?_cons_cons]
  | leave _ hframes houter hq _ =>
    obtain ⟨g, outer, rfl⟩ := List.exists_cons_of_ne_nil houter
    simp only [hframes, hq, List.map_cons, List.getLast?_cons_cons]

lemma frames_of_step (h : (p.step fs).next.frames = []) : p.frames = [] := by
  cases (step_isStep fs p).sources with
  | same hq => exact hq.symm.trans h
  | read _ _ _ hq => simp [hq] at h
  | enter _ _ _ _ hq _ => simp [hq] at h
  | leave _ _ houter hq _ => exact absurd (hq.symm.trans h) houter

lemma isRooted_step (fs : FileSystem) (hp : p.IsRooted) : (p.step fs).next.IsRooted := by
  refine ⟨significant_step fs hp.toSignificant, loaded_step fs hp.loaded, ?_, ?_, ?_⟩
  · rw [getLast?_step, (changes_keep (changes_step fs p)).2.1]
    exact hp.main
  · intro h
    have hframes := frames_of_step h
    rw [step_unread fs hframes (hp.unread hframes)]
    exact hp.unread hframes
  · intro hfinished
    rcases (step_isStep fs p).finished with hsame | hend
    · have hbefore := hsame.symm.trans hfinished
      rw [hp.step_finished fs hbefore]
      exact hp.finished hbefore
    · exact hend

/-- As long as a macro is being expanded a step leaves the innermost source where it is. -/
theorem source?_step (h : (p.step fs).next.expansions ≠ []) : (p.step fs).next.source? = p.source? := by
  unfold source?
  cases (step_isStep fs p).sources with
  | same hq => rw [hq]
  | read _ hframes hcontinues hq => simp [hframes, hq, hcontinues.source]
  | enter _ _ _ _ _ hnone => exact absurd hnone h
  | leave _ _ _ _ hnone => exact absurd hnone h

end Rooted

/-! ### Histories -/

/-- Each state is the one that a step from the last one leads to, with other diagnostics at most. -/
def IsHistory (fs : FileSystem) (states : Nat → Preprocessor) : Prop :=
  ∀ m, ∃ log, states (m + 1) = { ((states m).step fs).next with log }

/-- The step from the state number `m` is about this place: it reads there, or the last one that has read
anything has read there, and only macros have been expanded since. -/
def Stems (states : Nat → Preprocessor) (m : Nat) (o : Origin) : Prop :=
  ∃ k ≤ m, o ∈ (states k).reads ∧ ∀ j ≤ m, k < j → (states j).expansions ≠ []

section History

variable {fs : FileSystem} {states : Nat → Preprocessor} {m : Nat} {o : Origin}

lemma stems_reads (h : o ∈ (states m).reads) : Stems states m o :=
  ⟨m, le_rfl, h, fun _ hj hm => absurd hj (not_le.2 hm)⟩

lemma Stems.succ (h : Stems states m o) (hexpansions : (states (m + 1)).expansions ≠ []) :
    Stems states (m + 1) o := by
  obtain ⟨k, hk, hreads, hexpanding⟩ := h
  refine ⟨k, Nat.le_succ_of_le hk, hreads, fun j hj hkj => ?_⟩
  rcases Nat.le_succ_iff.1 hj with hj | rfl
  · exact hexpanding j hj hkj
  · exact hexpansions

lemma IsHistory.isRooted (h : IsHistory fs states) (hstart : (states 0).IsRooted) (m : Nat) :
    (states m).IsRooted := by
  induction m with
  | zero => exact hstart
  | succ m ih =>
    obtain ⟨log, hlog⟩ := h m
    have hnext := isRooted_step fs ih
    rw [hlog]
    exact ⟨⟨⟨hnext.defines, hnext.lexemes⟩, hnext.expansions⟩, hnext.loaded, hnext.main, hnext.unread,
      hnext.finished⟩

lemma IsHistory.mainName (h : IsHistory fs states) (m : Nat) : (states m).mainName = (states 0).mainName := by
  induction m with
  | zero => rfl
  | succ m ih =>
    obtain ⟨log, hlog⟩ := h m
    rw [hlog]
    exact (changes_keep (changes_step fs (states m))).2.1.trans ih

/-- The end is delivered in the main source. -/
theorem IsHistory.currentName_atEnd (h : IsHistory fs states) (hstart : (states 0).IsRooted) {t : LocatedToken}
    {q : Preprocessor} (hstep : (states m).step fs = .deliver t q) (heof : t.token = .eof) :
    q.currentName = (states 0).mainName := by
  have hrooted := h.isRooted hstart m
  have hfinished := ((step_deliver hrooted.toSignificant hstep).2.2 heof).2
  have hq := isRooted_step fs hrooted
  have hkept := (changes_keep (changes_step fs (states m))).2.1
  rw [hstep] at hq hkept
  exact (hq.currentName_finished hfinished).trans (hkept.trans (h.mainName m))

/-- Macros are expanded while the source that they were called from is the innermost one. -/
theorem IsHistory.stems_expansion (h : IsHistory fs states) (hstart : (states 0).IsRooted)
    (hnone : (states 0).expansions = []) (m : Nat) : ∀ e ∈ (states m).expansions,
      ∃ o, Stems states m o ∧ o.location = e.location ∧ (states m).source? = some o.source := by
  induction m with
  | zero => simp [hnone]
  | succ m ih =>
    intro e he
    have hrooted := h.isRooted hstart (m + 1)
    have hexpansions := List.ne_nil_of_mem he
    obtain ⟨log, hlog⟩ := h m
    have hsource : (states (m + 1)).source? = (states m).source? := by
      rw [hlog] at hexpansions ⊢
      exact source?_step hexpansions
    rw [hsource]
    have hbehind {e' : Expansion} (he' : e' ∈ (states m).expansions) (hlocation : e.location = e'.location) :
        ∃ o, Stems states (m + 1) o ∧ o.location = e.location ∧ (states m).source? = some o.source := by
      obtain ⟨o, hstems, hplace, ho⟩ := ih e' he'
      exact ⟨o, hstems.succ hexpansions, hplace.trans hlocation.symm, ho⟩
    have hstep : e ∈ ((states m).step fs).next.expansions := by
      rw [hlog] at he
      exact he
    rcases (step_isStep fs (states m)).expansions e hstep with hhere | ⟨e', he', hlocation⟩
    · cases hbefore : (states m).expansions with
      | cons e' outer =>
        have he' : e' ∈ (states m).expansions := by simp [hbefore]
        refine hbehind he' (hhere.trans ?_)
        rw [here, hbefore]
      | nil =>
        obtain ⟨f, outer, hframes⟩ := List.exists_cons_of_ne_nil (mt hrooted.unread hexpansions)
        have hf : (states m).source? = some f.source := by rw [← hsource, source?, hframes]; rfl
        refine ⟨⟨f.source, (states m).here⟩, (stems_reads ?_).succ hexpansions, hhere.symm, hf⟩
        exact reads_of_places hbefore hf (states m).here_mem_places
    · exact hbehind he' hlocation

/-- Every place that a step is about is in the source that is being read. -/
theorem IsHistory.stems_place (h : IsHistory fs states) (hstart : (states 0).IsRooted)
    (hnone : (states 0).expansions = []) (hframes : (states m).frames ≠ []) {location : Location}
    (hlocation : location ∈ (states m).places) :
    ∃ o, Stems states m o ∧ o.location = location ∧ o.source.name = (states m).currentName := by
  cases hexpansions : (states m).expansions with
  | cons e outer =>
    obtain ⟨o, hstems, hplace, ho⟩ := h.stems_expansion hstart hnone m e (by simp [hexpansions])
    refine ⟨o, hstems, hplace.trans ?_, (currentName_of_source? ho).symm⟩
    rw [places, hexpansions] at hlocation
    rw [List.mem_singleton.1 hlocation, here, hexpansions]
  | nil =>
    obtain ⟨f, outer, hf⟩ := List.exists_cons_of_ne_nil hframes
    have hsource : (states m).source? = some f.source := by rw [source?, hf]; rfl
    exact ⟨⟨f.source, location⟩, stems_reads (reads_of_places hexpansions hsource hlocation), rfl,
      (currentName_of_source? hsource).symm⟩

end History

end Preprocessor

end Shading
