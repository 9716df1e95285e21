import Shading.Proofs.Preprocessor.Alike
import Shading.Proofs.Preprocessor.Passage

/-!
# The same text at different places

What a text does to the state does not depend on where it stands: as a source of its own, further down
in a source, or between other lines of a source. While one state reads the text alone, the other one
takes the same steps, and where the text ends, what stands behind it is still to be read.
-/

namespace Shading

/-- Every name and every place is like itself. -/
structure Likeness.Reflexive (R : Likeness) : Prop where
  names : ∀ name, R.names name name
  places : ∀ l, R.places l l

/-- All names and all places are alike. -/
def Likeness.any : Likeness where
  names _ _ := True
  places _ _ := True

lemma Likeness.any_reflexive : any.Reflexive :=
  ⟨fun _ => trivial, fun _ => trivial⟩

variable {R : Likeness} {k : Nat} {hs : List Group} {rest : List Lexeme}

/-- The source `f'` reads what the source `f` reads, `k` lines further down and within the groups `hs`,
and then perhaps a line break and the lexemes `rest`, which begin a line. -/
structure Frame.Placed (R : Likeness) (k : Nat) (hs : List Group) (rest : List Lexeme)
    (f f' : Frame) : Prop where
  name : R.names f.source.name f'.source.name
  groups : f'.groups = f.groups ++ hs
  active : ∀ g ∈ hs.head?, g.active = true
  stop : rest = [] → R.places f.stop f'.stop
  atLineStart : f.lexemes ≠ [] → f'.atLineStart = f.atLineStart
  lexemes : ∃ joint : Option Lexeme, (∀ x ∈ joint, x.token = .newline ∧ x.fault = none) ∧
    f'.lexemes = f.lexemes.map (·.lower k) ++ (joint.toList ++ rest) ∧
      (joint = none → rest = [] ∨ (EndsLine f.lexemes ∧ (f.lexemes = [] → f'.atLineStart = true)))

namespace Frame.Placed

variable {f f' : Frame} {x : Lexeme} {xs : List Lexeme}

lemma refl (hR : R.Reflexive) (f : Frame) : Placed R 0 [] [] f f where
  name := hR.names _
  groups := (List.append_nil _).symm
  active := by simp
  stop _ := hR.places _
  atLineStart _ := rfl
  lexemes := ⟨none, by simp, by simp [Lexeme.lower_zero], fun _ => .inl rfl⟩

/-- Both sources go on with the same lexeme, and after it or after its line as before. -/
lemma cons (h : Placed R k hs rest f f') (hx : f.lexemes = x :: xs) :
    ∃ xs', f'.lexemes = x.lower k :: xs' ∧
      (∀ b, (x.token = .newline → b = true) →
        Placed R k hs rest { f with lexemes := xs, atLineStart := b }
          { f' with lexemes := xs', atLineStart := b }) ∧
      (x.token ≠ .newline →
        xs'.takeWhile (·.token != .newline) =
            (xs.takeWhile (·.token != .newline)).map (·.lower k) ∧
        Placed R k hs rest
          { f with lexemes := (xs.dropWhile (·.token != .newline)).drop 1, atLineStart := true }
          { f' with lexemes := (xs'.dropWhile (·.token != .newline)).drop 1, atLineStart := true }) := by
  obtain ⟨joint, hjoint, hlexemes, hnone⟩ := h.lexemes
  rw [hx] at hlexemes hnone
  refine ⟨xs.map (·.lower k) ++ (joint.toList ++ rest), hlexemes, ?_, ?_⟩
  · intro b hb
    refine ⟨h.name, h.groups, h.active, h.stop, fun _ => rfl, joint, hjoint, rfl, fun hj => ?_⟩
    rcases hnone hj with hrest | ⟨hends, -⟩
    · exact .inl hrest
    · refine .inr ⟨hends.tail, ?_⟩
      rintro (rfl : xs = [])
      exact hb (hends x rfl)
  · intro hnewline
    have htake : (xs.map (·.lower k)).takeWhile (·.token != .newline) =
        (xs.takeWhile (·.token != .newline)).map (·.lower k) := List.takeWhile_map ..
    have hdrop : (xs.map (·.lower k)).dropWhile (·.token != .newline) =
        (xs.dropWhile (·.token != .newline)).map (·.lower k) := List.dropWhile_map ..
    have hsplit := List.takeWhile_append_dropWhile (p := (·.token != .newline)) (l := xs)
    rw [List.takeWhile_append, List.dropWhile_append, htake, hdrop]
    cases hbehind : xs.dropWhile (·.token != .newline) with
    | cons y ys =>
      rw [hbehind] at hsplit
      have hlength : ¬(xs.takeWhile (·.token != .newline)).length = xs.length := by
        intro hlength
        have hsum := congrArg List.length hsplit
        rw [List.length_append, List.length_cons] at hsum
        omega
      rw [if_neg (by simpa using hlength), if_neg (by simp)]
      refine ⟨rfl, h.name, h.groups, h.active, h.stop, fun _ => rfl, joint, hjoint, by simp, fun hj => ?_⟩
      refine (hnone hj).imp id fun hends => ⟨?_, fun _ => rfl⟩
      have hsuffix : ys <:+ x :: xs :=
        ⟨x :: (xs.takeWhile (·.token != .newline) ++ [y]), by simp [hsplit]⟩
      exact hends.1.suffix hsuffix
    | nil =>
      rw [hbehind, List.append_nil] at hsplit
      rw [hsplit, if_pos (by simp), if_pos (by simp)]
      cases joint with
      | some y =>
        have hy := (hjoint y rfl).1
        refine ⟨by simp [hy], h.name, h.groups, h.active, h.stop, fun _ => rfl, none, by simp, ?_,
          fun _ => .inr ⟨by simp [EndsLine], fun _ => rfl⟩⟩
        simp [hy]
      | none =>
        have hrest : rest = [] := by
          refine (hnone rfl).resolve_right fun hends => ?_
          obtain ⟨y, hy⟩ := Option.isSome_iff_exists.1 (List.getLast?_isSome.2 (List.cons_ne_nil x xs))
          have hlast := hends.1 y hy
          rcases List.mem_cons.1 (List.mem_of_getLast? hy) with rfl | hmem
          · exact hnewline hlast
          · rw [← hsplit] at hmem
            have hinside := List.mem_takeWhile_imp hmem
            simp [hlast] at hinside
        subst hrest
        exact ⟨by simp, h.name, h.groups, h.active, h.stop, fun _ => rfl, none, by simp, by simp,
          fun _ => .inl rfl⟩

lemma regroup (h : Placed R k hs rest f f') (groups : List Group) :
    Placed R k hs rest { f with groups } { f' with groups := groups ++ hs } :=
  ⟨h.name, rfl, h.active, h.stop, h.atLineStart, h.lexemes⟩

end Frame.Placed

namespace Preprocessor

variable {fs : FileSystem} {p p' : Preprocessor}

/-- The text that the state reads as its main source has come to its end. -/
def AtEnd (p : Preprocessor) : Prop :=
  p.expansions = [] ∧ ∃ f, p.frames = [f] ∧ f.lexemes = []

/-- Steps from related states deliver the same tokens and lead to related states, as long as the text
that the first state reads has not come to its end. -/
def Respects (fs : FileSystem) (R : Likeness) (W : Preprocessor → Preprocessor → Prop) : Prop :=
  ∀ p p', W p p' → ¬p.AtEnd → Step.Alike R W (p.step fs) (p'.step fs)

/-- The text that the first state reads as its main source is a part of the main source of the second
one. -/
inductive Whole (R : Likeness) (k : Nat) (rest : List Lexeme) (p p' : Preprocessor) : Prop
  | intro (included : List Frame) (f f' : Frame) (h : Agrees R p p')
      (hp : p.frames = included ++ [f]) (hp' : p'.frames = included ++ [f'])
      (hplaced : Frame.Placed R k [] rest f f') (hpath : f'.source.path? = f.source.path?)
      (hfile : f'.file = f.file)
      (hR : R.Reflexive ∨ (included = [] ∧ f.source.path? = none))

/-- The text that the first state reads closes its groups and includes nothing, and it is a part of the
source `main` of the second one. -/
inductive Closed (R : Likeness) (k : Nat) (hs : List Group) (rest : List Lexeme)
    (main : Frame) (outer : List Frame) (p p' : Preprocessor) : Prop
  | intro (f f' : Frame) (h : Agrees R p p') (hp : p.frames = [f]) (hp' : p'.frames = f' :: outer)
      (hplaced : Frame.Placed R k hs rest f f') (hpath : f'.source.path? = main.source.path?)
      (hfile : f'.file = main.file)
      (hcloses : Line.Closes f.groups.length (Line.upcoming f.atLineStart f.lexemes))

lemma step_expansion_alike (fs : FileSystem) (h : Agrees R p p')
    (hname : R.names p.currentName p'.currentName) (hexpansions : p.expansions ≠ []) :
    Step.Alike R (fun q q' => Agrees R q q' ∧ q.frames = p.frames ∧ q'.frames = p'.frames)
      (p.step fs) (p'.step fs) := by
  have hall := h.expansions
  unfold step
  cases hp : p.expansions with
  | nil => exact absurd hp hexpansions
  | cons e outer =>
    rw [hp] at hall
    cases hp' : p'.expansions with
    | nil =>
      rw [hp'] at hall
      cases hall
    | cons e' outer' =>
      rw [hp'] at hall
      obtain ⟨he, houter⟩ := List.forall₂_cons.1 hall
      exact stepExpansion_alike h hname he houter

lemma Agrees.expansions_nil (h : Agrees R p p') (hp : p.expansions = []) : p'.expansions = [] := by
  have hall := h.expansions
  rw [hp] at hall
  exact List.forall₂_nil_left_iff.1 hall

theorem respects_closed (hk : ∀ l, R.places l (l.lower k)) (main : Frame) (outer : List Frame) :
    Respects fs R (Closed R k hs rest main outer) := by
  rintro p p' ⟨f, f', h, hp, hp', hplaced, hpath, hfile, hcloses⟩ hnotend
  have htops : Tops R hs f f' [] outer p p' := ⟨h, hp, hp', hplaced.name, hplaced.groups, hplaced.active⟩
  by_cases hexpansions : p.expansions = []
  · cases hf : f.lexemes with
    | nil => exact absurd ⟨hexpansions, f, hp, hf⟩ hnotend
    | cons x xs =>
      obtain ⟨xs', hf', hnext, hline⟩ := hplaced.cons hf
      rw [hf] at hcloses
      have hdepth (hstart : f.atLineStart = true) : ∃ n,
          (Line.first (x :: xs)).depthBehind? f.groups.length = some n ∧
            Line.Closes n (Line.split (((x :: xs).dropWhile (·.token != .newline)).drop 1)) := by
        rw [hstart, Line.upcoming, if_pos rfl, Line.split_eq (by simp)] at hcloses
        exact Line.closes_cons.1 hcloses
      rw [step_eq_stepLexeme fs hexpansions hp hf,
        step_eq_stepLexeme fs (h.expansions_nil hexpansions) hp' hf']
      refine (stepLexeme_alike htops hk fs x (hplaced.atLineStart (by simp [hf])) (fun h => (hline h).1)
        (.inr fun hstart _ => ?_)).mono ?_
      · obtain ⟨n, hn, -⟩ := hdepth hstart
        rw [hn]
        rfl
      · intro q q' hstepped
        cases hstepped with
        | passed hhash h hq hq' =>
          refine .intro _ _ h hq hq' (hnext _ ?_) hpath hfile (Line.closes_passed hhash hcloses)
          intro hnewline
          simp [Lexeme.startsLineBehind, hnewline, Token.isSkipped]
        | obeyed hhash hstart h =>
          have hnewline : x.token ≠ .newline := by simp [hhash]
          obtain ⟨n, hn, hfollowing⟩ := hdepth hstart
          rw [List.dropWhile_cons, if_pos (by simpa using hnewline)] at hfollowing
          rw [hn] at h
          cases h with
          | regrouped groups hgroups h =>
            refine .intro _ _ h.toAgrees h.frames h.frames' ((hline hnewline).2.regroup groups) hpath hfile ?_
            rw [hgroups n rfl]
            exact hfollowing
          | entered frame hdepth => cases hdepth
  · refine (step_expansion_alike fs h htops.names hexpansions).mono ?_
    rintro q q' ⟨hq, hframes, hframes'⟩
    exact .intro f f' hq (hframes.trans hp) (hframes'.trans hp') hplaced hpath hfile hcloses

lemma step_eq_stepEnd (fs : FileSystem) {f : Frame} {outer : List Frame}
    (hexpansions : p.expansions = []) (hp : p.frames = f :: outer) (hf : f.lexemes = []) :
    p.step fs = p.stepEnd f outer := by
  unfold step
  rw [hexpansions, hp]
  simp only
  rw [hf]

lemma stepEnd_alike (hR : R.Reflexive) (h : Agrees R p p') {f : Frame} {outer outer' : List Frame}
    (hp : p.frames = f :: outer) (hp' : p'.frames = f :: outer') (houter : outer ≠ [])
    (houter' : outer' ≠ []) :
    Step.Alike R (fun q q' => Agrees R q q' ∧ q.frames = outer ∧ q'.frames = outer')
      (p.stepEnd f outer) (p'.stepEnd f outer') := by
  have htops : Tops R [] f f outer outer' p p' :=
    ⟨h, hp, hp', hR.names _, (List.append_nil _).symm, by simp⟩
  have hreported := htops.report (t := ⟨f.stop, .eof⟩) ⟨hR.places _, rfl⟩
    (.error (.directive .unterminatedIf))
  unfold stepEnd
  rw [h.finished.1, h.finished.2]
  simp only [Bool.false_eq_true, if_false, List.isEmpty_iff, houter, houter']
  cases f.groups with
  | nil => exact ⟨h.setFrames _ _, rfl, rfl⟩
  | cons g groups => exact ⟨hreported.toAgrees.setFrames _ _, rfl, rfl⟩

/-- A step that reads a source which both states have included changes what is above the sources below
it in the same way. -/
theorem step_included_alike (fs : FileSystem) (hR : R.Reflexive) (h : Agrees R p p')
    (hexpansions : p.expansions = []) {u : Frame} {outer outer' : List Frame}
    (hp : p.frames = u :: outer) (hp' : p'.frames = u :: outer') (houter : outer ≠ [])
    (houter' : outer' ≠ []) (hfiles : outer'.map (·.file) = outer.map (·.file)) :
    Step.Alike R (fun q q' => Agrees R q q' ∧
        ∃ above, q.frames = above ++ outer ∧ q'.frames = above ++ outer')
      (p.step fs) (p'.step fs) := by
  have hexpansions' := h.expansions_nil hexpansions
  cases hu : u.lexemes with
  | nil =>
    rw [step_eq_stepEnd fs hexpansions hp hu, step_eq_stepEnd fs hexpansions' hp' hu]
    refine (stepEnd_alike hR h hp hp' houter houter').mono ?_
    rintro q q' ⟨hq, hframes, hframes'⟩
    exact ⟨hq, [], hframes, hframes'⟩
  | cons x xs =>
    have htops : Tops R [] u u outer outer' p p' :=
      ⟨h, hp, hp', hR.names _, (List.append_nil _).symm, by simp⟩
    rw [step_eq_stepLexeme fs hexpansions hp hu, step_eq_stepLexeme fs hexpansions' hp' hu]
    refine (stepLexeme_alike (k := 0) htops hR.places fs x rfl (fun _ => by simp)
      (.inl ⟨rfl, rfl, by simp [hfiles]⟩)).mono ?_
    intro q q' hstepped
    cases hstepped with
    | passed hhash h hq hq' => exact ⟨h, [_], hq, hq'⟩
    | obeyed hhash hstart h =>
      cases h with
      | regrouped groups hgroups h =>
        have hq' := h.frames'
        rw [List.append_nil] at hq'
        exact ⟨h.toAgrees, [_], h.frames, hq'⟩
      | entered frame hdepth h hsource hq hq' => exact ⟨h, [frame, _], hq, hq'⟩

theorem respects_whole (hk : ∀ l, R.places l (l.lower k)) : Respects fs R (Whole R k rest) := by
  rintro p p' ⟨included, f, f', h, hp, hp', hplaced, hpath, hfile, hR⟩ hnotend
  by_cases hexpansions : p.expansions = []
  · have hexpansions' := h.expansions_nil hexpansions
    cases included with
    | nil =>
      have htops : Tops R [] f f' [] [] p p' :=
        ⟨h, hp, hp', hplaced.name, hplaced.groups, hplaced.active⟩
      cases hf : f.lexemes with
      | nil => exact absurd ⟨hexpansions, f, hp, hf⟩ hnotend
      | cons x xs =>
        obtain ⟨xs', hf', hnext, hline⟩ := hplaced.cons hf
        rw [step_eq_stepLexeme fs hexpansions hp hf, step_eq_stepLexeme fs hexpansions' hp' hf']
        refine (stepLexeme_alike htops hk fs x (hplaced.atLineStart (by simp [hf]))
          (fun h => (hline h).1) (.inl ⟨rfl, hpath, by simp [hfile]⟩)).mono ?_
        intro q q' hstepped
        cases hstepped with
        | passed hhash h hq hq' =>
          refine .intro [] _ _ h hq hq' (hnext _ ?_) hpath hfile hR
          intro hnewline
          simp [Lexeme.startsLineBehind, hnewline, Token.isSkipped]
        | obeyed hhash hstart h =>
          have hmoved := (hline (by simp [hhash])).2
          cases h with
          | regrouped groups hgroups h =>
            exact .intro [] _ _ h.toAgrees h.frames h.frames' (hmoved.regroup groups) hpath hfile hR
          | entered frame hdepth h hsource hq hq' =>
            refine .intro [frame] _ _ h hq hq' hmoved hpath hfile (.inl (hR.resolve_right fun hnone => ?_))
            rw [hnone.2] at hsource
            cases hsource
    | cons u included =>
      replace hR := hR.resolve_right (by simp)
      refine (step_included_alike fs hR h hexpansions hp hp' (by simp) (by simp)
        (by simp [hfile])).mono ?_
      rintro q q' ⟨hq, above, hframes, hframes'⟩
      exact .intro (above ++ included) f f' hq (hframes.trans (List.append_assoc ..).symm)
        (hframes'.trans (List.append_assoc ..).symm) hplaced hpath hfile (.inl hR)
  · have hname : R.names p.currentName p'.currentName := by
      unfold currentName
      rw [hp, hp']
      cases included with
      | nil => exact hplaced.name
      | cons u included => exact (hR.resolve_right (by simp)).names _
    refine (step_expansion_alike fs h hname hexpansions).mono ?_
    rintro q q' ⟨hq, hframes, hframes'⟩
    exact .intro included f f' hq (hframes.trans hp) (hframes'.trans hp') hplaced hpath hfile hR

/-! ### Runs to the end of a text -/

/-- The macros are sound, and neither a source nor an open expansion holds an end. -/
structure Endless (p : Preprocessor) : Prop extends IsSound p where
  expansions : ∀ e ∈ p.expansions, .eof ∉ e.rest

lemma endless_change {r : Preprocessor} (hr : r.IsSound) (h : Change fs r p p') (hp : Endless p) :
    Endless p' := by
  refine ⟨isSound_change hr h hp.toIsSound, ?_⟩
  have hbodies : ∀ name d, p.defines.get? name = some d → ∀ t ∈ d.body, t.token ≠ .eof :=
    fun name d hd t ht => ((hp.defines name d hd).2 t ht).1
  have htokens : ∀ e ∈ p.expansions, ∀ t ∈ e.rest, t ≠ .eof := by
    rintro e he t ht rfl
    exact hp.expansions e he ht
  intro e he heof
  exact expansions_change hbodies h htokens e he .eof heof rfl

lemma endless_step (fs : FileSystem) (hp : Endless p) : Endless (p.step fs).next :=
  step_keeps (fun _ _ h => endless_change hp.toIsSound h) hp

lemma place_deliver {t u : LocatedToken} {q : Preprocessor} (h : p.place t = .deliver u q) : u = t := by
  unfold place at h
  split at h
  · exact (Step.deliver.inj h).1.symm
  · split at h <;> cases h

lemma step_ne_eof (hp : Endless p) (hframes : Whole .any 0 [] p p) (hnotend : ¬p.AtEnd)
    {t : LocatedToken} {q : Preprocessor} (h : p.step fs = .deliver t q) : t.token ≠ .eof := by
  obtain ⟨included, f, _, hagrees, hp', -, -, -, -, -⟩ := hframes
  cases hexpansions : p.expansions with
  | cons e outer =>
    unfold step stepExpansion at h
    rw [hexpansions] at h
    cases hrest : e.rest with
    | nil => simp [hrest] at h
    | cons u rest =>
      have hu : u ≠ .eof := by
        rintro rfl
        exact hp.expansions e (by simp [hexpansions]) (by simp [hrest])
      simp only [hrest] at h
      split at h
      · cases h
      · rw [place_deliver h]
        exact hu
  | nil =>
    obtain ⟨g, outer, hg⟩ : ∃ g outer, p.frames = g :: outer := by
      rw [hp']
      cases included with
      | nil => exact ⟨_, _, rfl⟩
      | cons u included => exact ⟨_, _, rfl⟩
    cases hlexemes : g.lexemes with
    | nil =>
      have houter : outer ≠ [] := by
        rintro rfl
        exact hnotend ⟨hexpansions, g, hg, hlexemes⟩
      rw [step_eq_stepEnd fs hexpansions hg hlexemes, stepEnd, hagrees.finished.1] at h
      simp [houter] at h
    | cons x rest =>
      rw [step_eq_stepLexeme fs hexpansions hg hlexemes, stepLexeme] at h
      dsimp only at h
      split at h
      · cases h
      split at h
      · cases h
      split at h
      · cases h
      split at h
      · rw [place_deliver h]
        exact hp.lexemes g (by simp [hg]) x (by simp [hlexemes])
      · cases h

/-- A text is read to its end, and wherever else it stands the same tokens are delivered. -/
theorem run_to_end (fs : FileSystem) (hframes : Whole .any 0 [] p p) (hp : Endless p) :
    ∃ ts q, Run fs p ts q ∧ (∀ t ∈ ts, t.token ≠ .eof) ∧ q.AtEnd ∧ Endless q ∧ Whole .any 0 [] q q ∧
      ∀ R W, Respects fs R W → ∀ p', W p p' →
        ∃ ts' q', Run fs p' ts' q' ∧ List.Forall₂ (LocatedToken.Alike R) ts ts' ∧ W q q' := by
  have hacc : Acc Smaller p := Smaller.wellFounded.apply p
  induction hacc with
  | intro p _ ih =>
    by_cases hend : p.AtEnd
    · exact ⟨[], p, .done p, by simp, hend, hp, hframes, fun R W _ p' hp' => ⟨[], p', .done p', .nil, hp'⟩⟩
    · have hself : Step.Alike .any (Whole .any 0 []) (p.step fs) (p.step fs) :=
        respects_whole Likeness.any_reflexive.places p p hframes hend
      have hdescends := step_descends fs p
      have hnext := endless_step fs hp
      cases hstep : p.step fs with
      | deliver t q =>
        rw [hstep] at hself hdescends hnext
        have ht := step_ne_eof hp hframes hend hstep
        obtain ⟨ts, r, hrun, hts, hr, hendless, hwhole, hall⟩ := ih q (hdescends ht) hself.2 hnext
        refine ⟨t :: ts, r, .deliver hstep hrun, List.forall_mem_cons.2 ⟨ht, hts⟩, hr, hendless, hwhole, ?_⟩
        intro R W hW p' hp'
        have halike := hW p p' hp' hend
        rw [hstep] at halike
        cases hstep' : p'.step fs with
        | deliver t' q' =>
          rw [hstep'] at halike
          obtain ⟨ts', r', hrun', hts', hr'⟩ := hall R W hW q' halike.2
          exact ⟨t' :: ts', r', .deliver hstep' hrun', .cons halike.1 hts', hr'⟩
        | proceed q' =>
          rw [hstep'] at halike
          cases halike
      | proceed q =>
        rw [hstep] at hself hdescends hnext
        obtain ⟨ts, r, hrun, hts, hr, hendless, hwhole, hall⟩ := ih q hdescends hself hnext
        refine ⟨ts, r, .proceed hstep hrun, hts, hr, hendless, hwhole, ?_⟩
        intro R W hW p' hp'
        have halike := hW p p' hp' hend
        rw [hstep] at halike
        cases hstep' : p'.step fs with
        | deliver t' q' =>
          rw [hstep'] at halike
          cases halike
        | proceed q' =>
          rw [hstep'] at halike
          obtain ⟨ts', r', hrun', hts', hr'⟩ := hall R W hW q' halike
          exact ⟨ts', r', .proceed hstep' hrun', hts', hr'⟩

lemma agrees_self (h : p.finished = false) : Agrees .any p p := by
  refine ⟨rfl, rfl, ?_, ⟨h, h⟩, ?_⟩
  · exact List.forall₂_same.2 fun e _ => ⟨rfl, trivial, rfl⟩
  · exact List.forall₂_same.2 fun d _ => ⟨trivial, trivial, rfl, rfl⟩

lemma Whole.self (h : Whole R k rest p p') : Whole .any 0 [] p p := by
  obtain ⟨included, f, f', h, hp, -, -, -, -, -⟩ := h
  exact .intro included f f (agrees_self h.finished.1) hp hp (.refl Likeness.any_reflexive f) rfl rfl
    (.inl Likeness.any_reflexive)

lemma placed_end (fs : FileSystem) {f f' : Frame} {outer : List Frame}
    (hplaced : Frame.Placed R k hs rest f f') (hf : f.lexemes = [])
    (hexpansions : p'.expansions = []) (hp' : p'.frames = f' :: outer) :
    ∃ atLineStart, (rest ≠ [] → atLineStart = true) ∧
      Run fs p' [] { p' with frames := { f' with lexemes := rest, atLineStart } :: outer } := by
  obtain ⟨joint, hjoint, hlexemes, hnone⟩ := hplaced.lexemes
  rw [hf, List.map_nil, List.nil_append] at hlexemes
  cases joint with
  | none =>
    refine ⟨f'.atLineStart, fun hne => ?_, ?_⟩
    · exact ((hnone rfl).resolve_left hne).2 hf
    · have hsame : { f' with lexemes := rest } = f' := by
        obtain rfl : f'.lexemes = rest := hlexemes
        rfl
      have hstate : { p' with frames := { f' with lexemes := rest } :: outer } = p' := by
        rw [hsame, ← hp']
      rw [hstate]
      exact .done p'
  | some x =>
    exact ⟨true, fun _ => rfl, .proceed (newline_step fs hexpansions hp' hlexemes (hjoint x rfl)) (.done _)⟩

lemma drain_atEnd (fs : FileSystem) {f : Frame} (hexpansions : p.expansions = [])
    (hp : p.frames = [f]) (hf : f.lexemes = []) (hlookahead : p.lookahead = none)
    (hfinished : p.finished = false) :
    p.drain fs = ([⟨f.stop, .eof⟩], { (if f.groups.isEmpty then p else
      p.error ⟨f.stop, .eof⟩ (.directive .unterminatedIf)) with finished := true }) := by
  have hstep := step_eq_stepEnd fs hexpansions hp hf
  rw [stepEnd, hfinished] at hstep
  exact drain_eof hlookahead hstep rfl

lemma tokens_of_alike {ts ts' : List LocatedToken} (h : List.Forall₂ (LocatedToken.Alike R) ts ts') :
    ts'.map (·.token) = ts.map (·.token) := by
  induction h with
  | nil => rfl
  | cons ht _ ih => rw [List.map_cons, List.map_cons, ht.token, ih]

lemma ne_eof_of_tokens {ts ts' : List LocatedToken} (h : ts'.map (·.token) = ts.map (·.token))
    (hts : ∀ t ∈ ts, t.token ≠ .eof) : ∀ t ∈ ts', t.token ≠ .eof := by
  intro t' ht'
  have hmem := List.mem_map_of_mem (f := (·.token)) ht'
  rw [h] at hmem
  obtain ⟨t, ht, hsame⟩ := List.mem_map.1 hmem
  rw [← hsame]
  exact hts t ht

/-- Where the text is the rest of the main source, the same tokens are delivered, the same macros are
defined and the same is reported. -/
theorem Whole.drain_alike (fs : FileSystem) (hk : ∀ l, R.places l (l.lower k))
    (h : Whole R k [] p p') (hp : Endless p) (hlookahead : p.lookahead = none)
    (hlookahead' : p'.lookahead = none) :
    List.Forall₂ (LocatedToken.Alike R) (p.drain fs).1 (p'.drain fs).1 ∧
      (p'.drain fs).2.defines.unplaced = (p.drain fs).2.defines.unplaced ∧
      List.Forall₂ (Diagnostic.Alike R) (p.drain fs).2.diagnostics (p'.drain fs).2.diagnostics := by
  obtain ⟨ts, q, hrun, hts, ⟨hexpansions, g, hg, hlexemes⟩, -, -, hall⟩ := run_to_end fs h.self hp
  obtain ⟨ts', q', hrun', halike, hq'⟩ := hall R _ (respects_whole hk) p' h
  obtain ⟨included, f, f', hagrees, hq, hq', hplaced, -, -, -⟩ := hq'
  obtain ⟨rfl, rfl⟩ : included = [] ∧ f = g := by
    rw [hg] at hq
    cases included with
    | nil => exact ⟨rfl, (List.cons.inj hq).1.symm⟩
    | cons u included => simp at hq
  have hexpansions' := hagrees.expansions_nil hexpansions
  obtain ⟨atLineStart, -, hend⟩ := placed_end fs hplaced hlexemes hexpansions' hq'
  have hts' := ne_eof_of_tokens (tokens_of_alike halike) hts
  have hdrain := hrun.delivers hlookahead hts
  have hdrain' := (hrun'.trans hend).delivers hlookahead' (by simpa using hts')
  unfold Delivers at hdrain hdrain'
  rw [drain_atEnd fs hexpansions hg hlexemes (hrun.settings.2.trans hlookahead) hagrees.finished.1]
    at hdrain
  rw [List.append_nil, drain_atEnd fs (p := { q' with frames := [{ f' with lexemes := [], atLineStart }] })
    hexpansions' rfl rfl ((hrun'.trans hend).settings.2.trans hlookahead') hagrees.finished.2] at hdrain'
  rw [hdrain, hdrain']
  have hgroups : f'.groups = f.groups := hplaced.groups.trans (List.append_nil _)
  have htops : Tops R [] f { f' with lexemes := [], atLineStart } [] [] q
      { q' with frames := [{ f' with lexemes := [], atLineStart }] } :=
    ⟨hagrees.setFrames _ _, hg, rfl, hplaced.name, hplaced.groups, by simp⟩
  have hstop : LocatedToken.Alike R ⟨f.stop, .eof⟩ ⟨f'.stop, .eof⟩ := ⟨hplaced.stop rfl, rfl⟩
  have hreported := htops.report hstop (.error (.directive .unterminatedIf))
  refine ⟨List.rel_append halike (.cons hstop .nil), ?_⟩
  dsimp only
  rw [hgroups]
  cases f.groups with
  | nil => exact ⟨htops.defines, htops.log⟩
  | cons g groups => exact ⟨hreported.defines, hreported.log⟩

end Preprocessor

end Shading
