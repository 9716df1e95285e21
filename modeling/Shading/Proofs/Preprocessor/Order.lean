import Shading.Proofs.Lexeme.Tiling
import Shading.Proofs.Preprocessor.Ending
import Shading.Proofs.Preprocessor.Reachable
import Shading.Proofs.Preprocessor.Reports
import Shading.Proofs.Preprocessor.Run

/-!
# Steps in order

Tokens are delivered by single steps, one after the other. None of them is blank, the end of the main
source comes again and again, and while no other source is entered the tokens stand in the order of the
source.
-/

namespace Shading

namespace Preprocessor

/-- The state behind this many steps. -/
def steps (fs : FileSystem) (p : Preprocessor) (n : Nat) : Preprocessor :=
  (fun q => (q.step fs).next)^[n] p

def Step.token? : Step → Option LocatedToken
  | deliver t _ => some t
  | proceed _ => none

/-- The tokens that this many steps deliver. -/
def deliveries (fs : FileSystem) (p : Preprocessor) (n : Nat) : List LocatedToken :=
  (List.range n).filterMap fun m => ((p.steps fs m).step fs).token?

/-- The token that is taken behind this many others. -/
def tokenAt (fs : FileSystem) (p : Preprocessor) (n : Nat) : LocatedToken :=
  ((p.afterTokens fs n).next fs).1

section Steps

variable (fs : FileSystem) (p : Preprocessor)

lemma steps_succ (n : Nat) : p.steps fs (n + 1) = ((p.steps fs n).step fs).next :=
  Function.iterate_succ_apply' _ _ _

lemma steps_add (m n : Nat) : p.steps fs (m + n) = (p.steps fs m).steps fs n := by
  rw [Nat.add_comm]
  exact Function.iterate_add_apply _ _ _ _

lemma deliveries_add (m n : Nat) :
    p.deliveries fs (m + n) = p.deliveries fs m ++ (p.steps fs m).deliveries fs n := by
  unfold deliveries
  rw [List.range_add, List.filterMap_append, List.filterMap_map]
  simp only [Function.comp_def, steps_add]

lemma deliveries_succ (n : Nat) :
    p.deliveries fs (n + 1) = p.deliveries fs n ++ ((p.steps fs n).step fs).token?.toList := by
  unfold deliveries
  rw [List.range_succ, List.filterMap_append]
  cases h : ((p.steps fs n).step fs).token? <;> simp [h]

lemma deliveries_cons (n : Nat) :
    p.deliveries fs (n + 1) = (p.step fs).token?.toList ++ (p.step fs).next.deliveries fs n := by
  rw [Nat.add_comm, deliveries_add]
  rfl

lemma afterTokens_succ (n : Nat) : p.afterTokens fs (n + 1) = ((p.afterTokens fs n).next fs).2 :=
  Function.iterate_succ_apply' _ _ _

/-- What every step keeps, any number of steps keeps. -/
theorem steps_induction {I : Preprocessor → Prop} (hI : ∀ q, I q → I (q.step fs).next) (hp : I p) (n : Nat) :
    I (p.steps fs n) := by
  induction n with
  | zero => exact hp
  | succ n ih =>
    rw [steps_succ]
    exact hI _ ih

lemma produce_steps : ∃ n, (p.steps fs n).step fs = .deliver (p.produce fs).1 (p.produce fs).2 ∧
    p.deliveries fs n = [] := by
  fun_induction produce fs p with
  | case1 p t q hstep => exact ⟨0, hstep, rfl⟩
  | case2 p q hstep ih =>
    obtain ⟨n, hdeliver, hnone⟩ := ih
    have hfirst : p.steps fs 1 = q := congrArg Step.next hstep
    refine ⟨1 + n, ?_, ?_⟩
    · rw [steps_add, hfirst]
      exact hdeliver
    · rw [deliveries_add, hfirst, hnone, List.append_nil]
      simp [deliveries, steps, hstep, Step.token?]

variable {p}

/-- The next token is delivered by the last one of some steps. -/
theorem next_steps (hp : p.lookahead = none) : ∃ n,
    (p.steps fs n).step fs = .deliver (p.next fs).1 (p.next fs).2 ∧ (p.next fs).2 = p.steps fs (n + 1) := by
  obtain ⟨n, hdeliver, -⟩ := produce_steps fs p
  have hnext : p.next fs = p.produce fs := by rw [next, hp]
  refine ⟨n, by rw [hnext]; exact hdeliver, ?_⟩
  rw [hnext, steps_succ, hdeliver]
  rfl

lemma next_of_steps (hp : p.lookahead = none) {n : Nat} {t : LocatedToken} (hnone : p.deliveries fs n = [])
    (ht : ((p.steps fs n).step fs).token? = some t) : p.next fs = (t, p.steps fs (n + 1)) := by
  induction n generalizing p with
  | zero =>
    replace ht : (p.step fs).token? = some t := ht
    have hstate : p.steps fs 1 = (p.step fs).next := rfl
    rw [hstate]
    cases hstep : p.step fs with
    | proceed q => simp [hstep, Step.token?] at ht
    | deliver u q =>
      rw [hstep] at ht
      obtain rfl := Option.some.inj ht
      exact next_deliver hp hstep
  | succ n ih =>
    rw [deliveries_cons, List.append_eq_nil_iff] at hnone
    cases hstep : p.step fs with
    | deliver u q => simp [hstep, Step.token?] at hnone
    | proceed q =>
      have hq : p.steps fs 1 = q := congrArg Step.next hstep
      rw [hstep] at hnone
      rw [Nat.add_comm, steps_add, hq] at ht
      rw [next_proceed hp hstep, Nat.add_right_comm, Nat.add_comm, steps_add, hq]
      exact ih ((step_lookahead fs (congrArg Step.next hstep)).trans hp) hnone.2 ht

lemma lookahead_steps (hp : p.lookahead = none) (n : Nat) : (p.steps fs n).lookahead = none :=
  steps_induction fs p (I := fun q => q.lookahead = none) (fun _ hq => (step_lookahead fs rfl).trans hq) hp n

/-- The state behind some tokens is a state behind steps that deliver these tokens. -/
theorem afterTokens_steps (hp : p.lookahead = none) (n : Nat) :
    ∃ m, p.afterTokens fs n = p.steps fs m ∧ p.deliveries fs m = (List.range n).map (p.tokenAt fs) := by
  induction n with
  | zero => exact ⟨0, rfl, rfl⟩
  | succ n ih =>
    obtain ⟨m, hstate, htokens⟩ := ih
    have hnext : (p.afterTokens fs n).next fs = (p.steps fs m).produce fs := by
      rw [hstate, next, lookahead_steps fs hp]
    obtain ⟨k, hdeliver, hnone⟩ := produce_steps fs (p.steps fs m)
    refine ⟨m + (k + 1), ?_, ?_⟩
    · rw [afterTokens_succ, hnext, steps_add, steps_succ, hdeliver]
      rfl
    · rw [deliveries_add, deliveries_succ, hnone, hdeliver, htokens, List.range_succ, List.map_append]
      simp [tokenAt, hnext, Step.token?]

lemma lookahead_afterTokens (hp : p.lookahead = none) (n : Nat) : (p.afterTokens fs n).lookahead = none := by
  obtain ⟨m, hstate, -⟩ := afterTokens_steps fs hp n
  rw [hstate, lookahead_steps fs hp]

end Steps

/-! ### What tokens are delivered -/

/-- The macros are sound, no source holds an end, and no open expansion an end or a blank. -/
structure Significant (p : Preprocessor) : Prop extends IsSound p where
  expansions : ∀ e ∈ p.expansions, ∀ t ∈ e.rest, t ≠ .eof ∧ t.isSkipped = false

section Significant

variable {fs : FileSystem} {p q : Preprocessor} {t : LocatedToken}

lemma preprocessor_start (c : Compiler) (fs : FileSystem) (source : Source) :
    (c.preprocessor fs source).lookahead = none ∧ (c.preprocessor fs source).expansions = [] ∧
      (c.preprocessor fs source).mainName = source.name := by
  unfold Compiler.preprocessor start
  dsimp only
  split <;> exact ⟨rfl, rfl, rfl⟩

lemma significant_start {c : Compiler} (hc : c.Reachable) (fs : FileSystem) (source : Source) :
    Significant (c.preprocessor fs source) := by
  refine ⟨isSound_start hc source, ?_⟩
  unfold Compiler.preprocessor start
  dsimp only
  split <;> simp [error, report, note]

lemma significant_step (fs : FileSystem) (hp : Significant p) : Significant (p.step fs).next :=
  step_keeps (fun _ _ h hq => ⟨isSound_change hp.toIsSound h hq.toIsSound,
    expansions_change (fun name d hd => (hq.defines name d hd).2) h hq.expansions⟩) hp

lemma place_deliver_eq {u : LocatedToken} (h : p.place t = .deliver u q) : u = t ∧ q = p :=
  (place_isPlaced p t).delivered u q h

lemma stepExpansion_deliver {e : Expansion} {outer : List Expansion} (hp : Significant p)
    (hexpansions : p.expansions = e :: outer) (h : p.stepExpansion e outer = .deliver t q) :
    t.token ≠ .eof ∧ t.token ≠ .newline ∧ t.token.isSkipped = false := by
  unfold stepExpansion at h
  split at h
  · cases h
  next u rest hrest =>
    obtain ⟨hend, hskipped⟩ := hp.expansions e (by simp [hexpansions]) u (by simp [hrest])
    dsimp only at h
    split at h
    · cases h
    next hnewline =>
      obtain ⟨rfl, rfl⟩ := place_deliver_eq h
      exact ⟨hend, hnewline, hskipped⟩

lemma stepLexeme_deliver {f : Frame} {outer : List Frame} {x : Lexeme} {rest : List Lexeme}
    (hp : Significant p) (hframes : p.frames = f :: outer) (hlexemes : f.lexemes = x :: rest)
    (h : p.stepLexeme fs f outer x rest = .deliver t q) :
    t.token ≠ .eof ∧ t.token ≠ .newline ∧ t.token.isSkipped = false := by
  have hend := hp.lexemes f (by simp [hframes]) x (by simp [hlexemes])
  revert h
  apply stepLexeme_cases (motive := fun s => s = .deliver t q →
    t.token ≠ .eof ∧ t.token ≠ .newline ∧ t.token.isSkipped = false)
  case passed => nofun
  case directive => nofun
  case placed =>
    intro hnewline hskipped _ _ h
    obtain ⟨rfl, rfl⟩ := place_deliver_eq h
    exact ⟨hend, hnewline, hskipped⟩

lemma stepEnd_deliver (fs : FileSystem) {f : Frame} {outer : List Frame} (hexpansions : p.expansions = [])
    (hframes : p.frames = f :: outer) (hlexemes : f.lexemes = [])
    (h : p.stepEnd f outer = .deliver t q) :
    t = ⟨f.stop, .eof⟩ ∧ q.step fs = .deliver t q ∧ q.finished = true := by
  have hagain {r : Preprocessor} (hnone : r.expansions = []) (hr : r.frames = f :: outer)
      (hfinished : r.finished = true) : r.step fs = .deliver ⟨f.stop, .eof⟩ r := by
    simp [step, hnone, hr, hlexemes, stepEnd, hfinished]
  unfold stepEnd at h
  dsimp only at h
  split at h
  next hfinished =>
    obtain ⟨rfl, rfl⟩ := Step.deliver.inj h
    exact ⟨rfl, hagain hexpansions hframes hfinished, hfinished⟩
  · split at h
    · obtain ⟨rfl, rfl⟩ := Step.deliver.inj h
      refine ⟨rfl, hagain ?_ ?_ rfl, rfl⟩
      · split <;> exact hexpansions
      · split <;> exact hframes
    · cases h

/-- A token that a step delivers counts, and if it is the end the next step delivers it again. -/
theorem step_deliver (hp : Significant p) (h : p.step fs = .deliver t q) :
    t.token ≠ .newline ∧ t.token.isSkipped = false ∧
      (t.token = .eof → q.step fs = .deliver t q ∧ q.finished = true) := by
  unfold step at h
  split at h
  next hexpansions =>
    obtain ⟨hend, hnewline, hskipped⟩ := stepExpansion_deliver hp hexpansions h
    exact ⟨hnewline, hskipped, fun heof => absurd heof hend⟩
  next hexpansions =>
    split at h
    next hframes =>
      obtain ⟨rfl, rfl⟩ := Step.deliver.inj h
      exact ⟨by simp, rfl, fun _ => ⟨by simp [step, hexpansions, hframes], rfl⟩⟩
    next hframes =>
      split at h
      next hlexemes =>
        have hend := stepEnd_deliver fs hexpansions hframes hlexemes h
        obtain ⟨rfl, hagain⟩ := hend
        exact ⟨by simp, rfl, fun _ => hagain⟩
      next hlexemes =>
        obtain ⟨hend, hnewline, hskipped⟩ := stepLexeme_deliver hp hframes hlexemes h
        exact ⟨hnewline, hskipped, fun heof => absurd heof hend⟩

/-- What every step keeps holds behind all tokens, where preprocessing is finished. -/
theorem drain_keeps {I : Preprocessor → Prop} (hI : ∀ q, I q → I (q.step fs).next) (hp : I p)
    (hsignificant : Significant p) (hlookahead : p.lookahead = none) :
    I (p.drain fs).2 ∧ (p.drain fs).2.finished = true := by
  fun_induction drain fs p with
  | case1 p taken heof =>
    obtain ⟨n, hdeliver, hstate⟩ := next_steps fs hlookahead
    have hlast := steps_induction fs p (fun _ hq => significant_step fs hq) hsignificant n
    refine ⟨?_, ((step_deliver hlast hdeliver).2.2 heof).2⟩
    rw [hstate]
    exact steps_induction fs p hI hp (n + 1)
  | case2 p taken hne following ih =>
    obtain ⟨n, -, hstate⟩ := next_steps fs hlookahead
    apply ih
    · rw [hstate]
      exact steps_induction fs p hI hp (n + 1)
    · rw [hstate]
      exact steps_induction fs p (fun _ hq => significant_step fs hq) hsignificant (n + 1)
    · rw [hstate]
      exact lookahead_steps fs hlookahead (n + 1)

lemma tokenAt_steps (fs : FileSystem) (hlookahead : p.lookahead = none) (n : Nat) :
    ∃ m, (p.steps fs m).step fs = .deliver (p.tokenAt fs n) (p.afterTokens fs (n + 1)) := by
  obtain ⟨m, hstate, -⟩ := afterTokens_steps fs hlookahead n
  obtain ⟨k, hdeliver, -⟩ := produce_steps fs (p.steps fs m)
  have hnext : (p.afterTokens fs n).next fs = (p.steps fs m).produce fs := by
    rw [hstate, next, lookahead_steps fs hlookahead]
  refine ⟨m + k, ?_⟩
  rw [steps_add, hdeliver, tokenAt, afterTokens_succ, hnext]

lemma tokenAt_significant (fs : FileSystem) (hp : Significant p) (hlookahead : p.lookahead = none)
    (n : Nat) : (p.tokenAt fs n).token ≠ .newline ∧ (p.tokenAt fs n).token.isSkipped = false := by
  obtain ⟨m, hdeliver⟩ := tokenAt_steps fs hlookahead n
  obtain ⟨hnewline, hskipped, -⟩ :=
    step_deliver (steps_induction fs p (fun _ hq => significant_step fs hq) hp m) hdeliver
  exact ⟨hnewline, hskipped⟩

/-- Behind the end nothing happens any more. -/
theorem tokenAt_eof (fs : FileSystem) (hp : Significant p) (hlookahead : p.lookahead = none) {n : Nat}
    (hn : (p.tokenAt fs n).token = .eof) (k : Nat) :
    p.tokenAt fs (n + k) = p.tokenAt fs n ∧ p.afterTokens fs (n + k + 1) = p.afterTokens fs (n + 1) := by
  induction k with
  | zero => exact ⟨rfl, rfl⟩
  | succ k ih =>
    obtain ⟨m, hdeliver⟩ := tokenAt_steps fs hlookahead n
    obtain ⟨-, -, hagain⟩ :=
      step_deliver (steps_induction fs p (fun _ hq => significant_step fs hq) hp m) hdeliver
    have hnext : (p.afterTokens fs (n + k + 1)).next fs = (p.tokenAt fs n, p.afterTokens fs (n + 1)) := by
      rw [ih.2]
      exact next_deliver (lookahead_afterTokens fs hlookahead _) (hagain hn).1
    refine ⟨?_, ?_⟩
    · rw [← Nat.add_assoc, tokenAt, hnext]
    · rw [← Nat.add_assoc, afterTokens_succ, hnext]

end Significant

/-! ### Open groups at the end -/

section OpenEnd

variable (fs : FileSystem) (p : Preprocessor)

/-- Open groups are reported by the steps that meet the end of their source, once by each. -/
theorem unterminated_steps (n : Nat) :
    (p.steps fs n).diagnostics.filter (·.isUnterminated) =
      p.diagnostics.filter (·.isUnterminated) ++
        (List.range n).filterMap fun m => (p.steps fs m).openEnd? := by
  induction n with
  | zero => exact (List.append_nil _).symm
  | succ n ih =>
    obtain ⟨ds, hds, -, hunterminated⟩ := (step_isStep fs (p.steps fs n)).reports
    rw [steps_succ, hds, List.filter_append, ih, hunterminated, List.range_succ, List.filterMap_append,
      List.append_assoc]
    cases h : (p.steps fs n).openEnd? <;> simp [h]

/-- A source whose end is met with an open group is left, or is the main source and finished. -/
lemma openEnd_behind {p : Preprocessor} {d : Diagnostic} (h : p.openEnd? = some d) :
    (p.step fs).next.finished = true ∨ (p.step fs).next.frames = p.frames.tail := by
  unfold openEnd? at h
  split at h
  next f outer hexpansions hframes =>
    split at h
    next hend =>
      have hlexemes : f.lexemes = [] := by
        rw [Bool.and_eq_true, Bool.and_eq_true] at hend
        simpa using hend.1.1
      unfold step
      rw [hexpansions, hframes]
      simp only [hlexemes, stepEnd]
      split
      next hfinished => exact .inl hfinished
      · cases outer with
        | nil => exact .inl rfl
        | cons g outer => exact .inr rfl
    · cases h
  · cases h

end OpenEnd

end Preprocessor

/-! ### The order of places -/

/-- The places where a source is still to be read. -/
def Frame.todo (f : Frame) : List Location :=
  f.lexemes.map (·.location) ++ [f.stop]

lemma Frame.todo_suffix {f f' : Frame} (h : f.Continues f') : f'.todo <:+ f.todo := by
  obtain ⟨front, hfront⟩ := h.lexemes
  refine ⟨front.map (·.location), ?_⟩
  unfold todo
  rw [h.stop, ← hfront, List.map_append, List.append_assoc]

namespace Preprocessor

/-- The places where the innermost source is still to be read. -/
def todo (p : Preprocessor) : List Location :=
  match p.frames with
  | [] => [.start]
  | f :: _ => f.todo

/-- Of these places the last ones are still to be read, and what is being expanded stands at a place in
front of them. -/
structure Along (places : List Location) (place : Location) (p : Preprocessor) : Prop where
  mem : place ∈ places
  expansions : ∀ e ∈ p.expansions, e.location = place
  todo : p.todo <:+ places
  precedes : ∀ l ∈ p.todo, place.Precedes l

section Along

variable {fs : FileSystem} {p : Preprocessor} {places : List Location} {place : Location}

lemma here_todo (hexpansions : p.expansions = []) : ∃ later, p.todo = p.here :: later := by
  unfold todo here
  rw [hexpansions]
  cases p.frames with
  | nil => exact ⟨[], rfl⟩
  | cons f outer =>
    dsimp only
    unfold Frame.todo Frame.here
    cases f.lexemes with
    | nil => exact ⟨[], rfl⟩
    | cons x rest => exact ⟨_, rfl⟩

lemma token?_location {t : LocatedToken} (h : (p.step fs).token? = some t) : t.location = p.here := by
  cases hstep : p.step fs with
  | proceed q => simp [hstep, Step.token?] at h
  | deliver u q =>
    rw [hstep] at h
    obtain rfl := Option.some.inj h
    exact ((step_isStep fs p).delivered _ q hstep).1

lemma todo_step (hp : p.frames.length ≤ 1) (hnext : (p.step fs).next.frames.length ≤ 1) :
    (p.step fs).next.todo <:+ p.todo := by
  cases (step_isStep fs p).sources with
  | same h =>
    unfold todo
    rw [h]
  | read _ hframes h hq =>
    unfold todo
    rw [hframes, hq]
    exact Frame.todo_suffix h
  | enter _ _ _ _ hq _ =>
    rw [hq] at hnext
    simp at hnext
  | leave _ hframes houter _ _ =>
    rw [hframes] at hp
    exact absurd (List.eq_nil_of_length_eq_zero (by simpa using hp)) houter

lemma Along.here_expanding (h : Along places place p) (hexpansions : p.expansions ≠ []) :
    p.here = place := by
  obtain ⟨e, outer, hes⟩ := List.exists_cons_of_ne_nil hexpansions
  rw [here, hes]
  exact h.expansions e (by simp [hes])

lemma Along.here (h : Along places place p) (hsorted : places.Pairwise Location.Precedes) :
    place.Precedes p.here ∧ p.here ∈ places ∧ ∀ l ∈ p.todo, p.here.Precedes l := by
  by_cases hexpansions : p.expansions = []
  · obtain ⟨later, htodo⟩ := here_todo hexpansions
    have hpairwise := hsorted.sublist h.todo.sublist
    rw [htodo] at hpairwise
    refine ⟨h.precedes _ (by simp [htodo]), h.todo.subset (by simp [htodo]), ?_⟩
    intro l hl
    rw [htodo] at hl
    rcases List.mem_cons.1 hl with rfl | hl
    · exact Location.precedes_refl _
    · exact List.rel_of_pairwise_cons hpairwise hl
  · rw [h.here_expanding hexpansions]
    exact ⟨place.precedes_refl, h.mem, h.precedes⟩

/-- A step that enters no source goes on at a place that is not in front of the last one. -/
lemma along_step (hsorted : places.Pairwise Location.Precedes) (h : Along places place p)
    (hp : p.frames.length ≤ 1) (hnext : (p.step fs).next.frames.length ≤ 1) :
    place.Precedes p.here ∧ Along places p.here (p.step fs).next := by
  obtain ⟨hprecedes, hmem, hleft⟩ := h.here hsorted
  have htodo := todo_step hp hnext
  refine ⟨hprecedes, hmem, ?_, htodo.trans h.todo, fun l hl => hleft l (htodo.subset hl)⟩
  intro e he
  rcases (step_isStep fs p).expansions e he with hhere | ⟨e', he', hlocation⟩
  · exact hhere
  · rw [hlocation, h.here_expanding (List.ne_nil_of_mem he'), h.expansions e' he']

/-- Steps that enter no source deliver tokens in the order of the places. -/
theorem along_steps (hsorted : places.Pairwise Location.Precedes) (h : Along places place p) (n : Nat)
    (hframes : ∀ m ≤ n, (p.steps fs m).frames.length ≤ 1) :
    ((p.deliveries fs n).map (·.location)).Pairwise Location.Precedes ∧
      (∀ t ∈ p.deliveries fs n, t.location ∈ places) ∧
      ∃ last, Along places last (p.steps fs n) ∧ ∀ t ∈ p.deliveries fs n, t.location.Precedes last := by
  induction n with
  | zero => exact ⟨.nil, by simp [deliveries], place, h, by simp [deliveries]⟩
  | succ n ih =>
    obtain ⟨hpairwise, hmem, last, halong, hlast⟩ := ih fun m hm => hframes m (by omega)
    have hnext := hframes (n + 1) le_rfl
    rw [steps_succ] at hnext
    obtain ⟨hprecedes, halong'⟩ := along_step hsorted halong (hframes n (by omega)) hnext
    have htoken : ∀ t ∈ ((p.steps fs n).step fs).token?, t.location = (p.steps fs n).here :=
      fun _ ht => token?_location ht
    rw [deliveries_succ, steps_succ]
    refine ⟨?_, ?_, _, halong', ?_⟩
    · rw [List.map_append, List.pairwise_append]
      refine ⟨hpairwise, ?_, ?_⟩
      · cases ((p.steps fs n).step fs).token? <;> simp
      · intro l hl m hm
        obtain ⟨t, ht, rfl⟩ := List.mem_map.1 hl
        obtain ⟨u, hu, rfl⟩ := List.mem_map.1 hm
        rw [htoken u (Option.mem_toList.1 hu)]
        exact (hlast t ht).trans hprecedes
    · intro t ht
      rcases List.mem_append.1 ht with ht | ht
      · exact hmem t ht
      · rw [htoken t (Option.mem_toList.1 ht)]
        exact halong'.mem
    · intro t ht
      rcases List.mem_append.1 ht with ht | ht
      · exact (hlast t ht).trans hprecedes
      · rw [htoken t (Option.mem_toList.1 ht)]
        exact Location.precedes_refl _

end Along

end Preprocessor

/-- The places of what a source holds; one that cannot be read holds its start only. -/
def Source.places (fs : FileSystem) (source : Source) : List Location :=
  match (source.load fs).1 with
  | .ok content => (Lexemes.ofBytes content).places
  | .error _ => [.start]

lemma Source.pairwise_places (fs : FileSystem) (source : Source) :
    (source.places fs).Pairwise Location.Precedes := by
  unfold places
  split
  · exact (Lexemes.pairwise_places _).imp fun h => Location.Precedes.of_lt h
  · exact List.pairwise_singleton _ _

lemma Preprocessor.along_start (fs : FileSystem) (c : Compiler) (source : Source) :
    Along (source.places fs) .start (c.preprocessor fs source) := by
  unfold Compiler.preprocessor start Source.places
  cases hload : source.load fs with
  | mk content loaded =>
    cases content with
    | error cause =>
      refine ⟨List.mem_singleton_self _, by simp [error, report, note], List.suffix_refl _, ?_⟩
      intro l hl
      obtain rfl := List.mem_singleton.1 hl
      exact Location.precedes_refl _
    | ok content =>
      exact ⟨Lexemes.location_mem_places _, by simp, List.suffix_refl _, Lexemes.precedes_places _⟩

end Shading
