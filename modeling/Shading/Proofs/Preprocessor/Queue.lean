import Shading.Proofs.Preprocessor.Expanding
import Shading.Proofs.Preprocessor.Visited

/-!
# One queue for all that waits

The tokens of all open expansions can wait in one queue, in which a mark stands behind the tokens of each
expansion, beside the names of the macros that are being expanded. The queue takes the same steps as the
stack of expansions, and its marks and the names stay in step: no mark is met too early or too late, and
when a source is read nothing waits and no name is left.
-/

namespace Shading

/-- What waits in front of the sources: a token of a macro, at the place of the call, or the end of an
expansion. -/
inductive Pending
  | token (t : LocatedToken)
  | endExpansion
  deriving DecidableEq, Repr

/-- The state of preprocessing with one queue, and with the names of the macros that are being expanded, the
innermost first. -/
structure Queued where
  base : Preprocessor
  pending : List Pending := []
  expanding : List String := []
  deriving DecidableEq, Repr

/-- What waits of an expansion. -/
def Expansion.pending (e : Expansion) : List Pending :=
  e.rest.map (fun t => .token ⟨e.location, t⟩) ++ [.endExpansion]

namespace Preprocessor

/-- The token in text that counts which is read next from the innermost source, and the state behind it. -/
def word? (p : Preprocessor) : Option (LocatedToken × Preprocessor) :=
  match p.frames with
  | [] => none
  | f :: outer =>
    match f.lexemes with
    | [] => none
    | x :: rest =>
      if x.token.isSkipped || x.token = .newline || (x.token = .punct .hash && f.atLineStart) ||
          !f.isActive then none
      else some (x.located, p.afterLexeme f outer x rest false)

/-- The state with what waits in one queue. -/
def queued (p : Preprocessor) : Queued where
  base := { p with expansions := [] }
  pending := p.expansions.flatMap (·.pending)
  expanding := p.expanding

end Preprocessor

namespace Queued

/-- A token is delivered, unless it calls a macro that is not being expanded. Then the tokens of the macro
and the end of its expansion are put in front of the queue, or the call is refused. -/
def place (s : Queued) (t : LocatedToken) : Option LocatedToken × Queued :=
  match t.token with
  | .identifier name =>
    if s.expanding.contains name then (some t, s)
    else
      match s.base.defines.get? name with
      | none => (some t, s)
      | some d =>
        let limit := s.base.limits.expansion
        if limit ≤ s.expanding.length then
          (none, { s with base := s.base.error t (.expansionTooDeep name limit) })
        else
          (none, { s with
            pending := d.body.map (fun u => .token ⟨t.location, u.token⟩) ++ .endExpansion :: s.pending
            expanding := name :: s.expanding })
  | _ => (some t, s)

/-- One step: the token that it delivers, if it does, and the state behind it. Only if nothing waits
something is read. -/
def step (fs : FileSystem) (s : Queued) : Option LocatedToken × Queued :=
  match s.pending with
  | .token t :: pending =>
    if t.token = .newline then (none, { s with pending }) else { s with pending }.place t
  | .endExpansion :: pending => (none, { s with pending, expanding := s.expanding.tail })
  | [] =>
    match s.base.word? with
    | some (t, base) => { s with base }.place t
    | none => ((s.base.step fs).token?, { s with base := (s.base.step fs).next })

end Queued

namespace Preprocessor

/-! ### The queue takes the same steps -/

section Steps

variable {fs : FileSystem} {p q : Preprocessor} {t : LocatedToken}

lemma queued_of_nil (hp : p.expansions = []) : p.queued = { base := p } := by
  obtain ⟨limits, mainName, defines, frames, expansions, lookahead, finished, log⟩ := p
  subst hp
  rfl

lemma place_queued (p : Preprocessor) (t : LocatedToken) :
    p.queued.place t = ((p.place t).token?, (p.place t).next.queued) := by
  unfold Queued.place place calledMacro?
  cases t.token with
  | identifier name =>
    have hcontains : p.queued.expanding.contains name = p.isExpanding name := contains_expanding p name
    have hlength : p.queued.expanding.length = p.expansions.length := List.length_map _
    simp only [hcontains, hlength]
    cases p.isExpanding name with
    | true => rfl
    | false =>
      have hdefines : p.queued.base.defines = p.defines := rfl
      simp only [hdefines, Bool.false_eq_true, if_false]
      cases p.defines.get? name with
      | none => rfl
      | some d =>
        have hlimits : p.queued.base.limits = p.limits := rfl
        simp only [hlimits, Option.map_some]
        split
        · rfl
        · simp [Step.token?, Step.next, queued, expanding, Expansion.pending, Function.comp_def]
  | _ => rfl

/-- A token in text that counts is placed, and if there is none a step leaves nothing waiting. -/
lemma step_of_read (fs : FileSystem) (hp : p.expansions = []) :
    match p.word? with
    | some (t, q) => p.step fs = q.place t ∧ q.expansions = []
    | none => (p.step fs).next.expansions = [] := by
  unfold word? step
  rw [hp]
  dsimp only
  cases hframes : p.frames with
  | nil => rfl
  | cons f outer =>
    dsimp only
    cases hlexemes : f.lexemes with
    | nil =>
      unfold stepEnd
      dsimp only
      split
      · exact hp
      · split <;> split <;> exact hp
    | cons x rest =>
      unfold stepLexeme
      dsimp only
      by_cases hskipped : x.token.isSkipped = true
      · simp only [hskipped, Bool.true_or, if_true]
        exact hp
      by_cases hnewline : x.token = .newline
      · simp only [hnewline]
        exact hp
      by_cases hhash : (x.token = .punct .hash && f.atLineStart) = true
      · simp only [hskipped, hnewline, hhash]
        exact (obeys_obeyLine fs _ _ _).expansions.trans hp
      by_cases hactive : f.isActive = true
      · simp only [hskipped, hnewline, hhash, hactive]
        exact ⟨rfl, hp⟩
      · simp only [hskipped, hnewline, hhash, hactive]
        exact hp

/-- The queue and the names take the step that the stack of expansions takes. -/
theorem step_queued (fs : FileSystem) (p : Preprocessor) :
    p.queued.step fs = ((p.step fs).token?, (p.step fs).next.queued) := by
  cases hp : p.expansions with
  | nil =>
    have hread := step_of_read fs hp
    rw [queued_of_nil hp, Queued.step]
    dsimp only
    cases hword : p.word? with
    | none =>
      rw [hword] at hread
      rw [queued_of_nil hread]
    | some word =>
      obtain ⟨t, q⟩ := word
      rw [hword] at hread
      rw [hread.1, ← place_queued, queued_of_nil hread.2]
  | cons e outer =>
    have hstep : p.step fs = p.stepExpansion e outer := by
      unfold step
      rw [hp]
    have hexpanding : p.queued.expanding = e.name :: outer.map (·.name) := congrArg (List.map _) hp
    have hpending : p.queued.pending = e.pending ++ outer.flatMap (·.pending) :=
      congrArg (List.flatMap _) hp
    rw [hstep, stepExpansion, Queued.step, hpending, Expansion.pending]
    cases hrest : e.rest with
    | nil =>
      simp only [List.map_nil, List.nil_append, List.singleton_append, hexpanding, List.tail_cons]
      rfl
    | cons t rest =>
      let q : Preprocessor := { p with expansions := { e with rest } :: outer }
      have hq : { p.queued with pending := rest.map (fun u => .token ⟨e.location, u⟩) ++
          [.endExpansion] ++ outer.flatMap (·.pending) } = q.queued := by
        simp [queued, q, Expansion.pending, expanding, hp]
      simp only [List.map_cons, List.cons_append, hq]
      split
      · rfl
      · exact place_queued q ⟨e.location, t⟩

end Steps

/-! ### The names that are being expanded -/

/-- No macro is expanded within itself, and not more macros within each other than the limit allows. -/
structure IsLimited (p : Preprocessor) : Prop where
  distinct : p.expanding.Nodup
  bounded : p.expanding.length ≤ p.limits.expansion

section Names

variable {fs : FileSystem} {r p q : Preprocessor} {t : LocatedToken} {name : String}

lemma isLimited_change (h : Change fs r p q) (hp : p.IsLimited) : q.IsLimited := by
  cases h with
  | regroup groups =>
    unfold setGroups mapTop
    split <;> exact ⟨hp.distinct, hp.bounded⟩
  | @call name d u hcall hroom location =>
    have hfresh : name ∉ p.expanding := by
      rw [← List.contains_iff_mem, contains_expanding, (calledMacro?_eq_some_iff.1 hcall).2.1]
      exact Bool.false_ne_true
    refine ⟨List.nodup_cons.2 ⟨hfresh, hp.distinct⟩, ?_⟩
    simpa [expanding] using hroom
  | @advance e outer u rest hexpansions he =>
    have hsame : expanding { p with expansions := { e with rest } :: outer } = p.expanding := by
      simp [expanding, hexpansions]
    exact ⟨hsame ▸ hp.distinct, hsame ▸ hp.bounded⟩
  | @endExpansion e outer hexpansions he =>
    have htail : expanding { p with expansions := outer } = p.expanding.tail := by
      simp [expanding, hexpansions]
    refine ⟨htail ▸ hp.distinct.tail, ?_⟩
    rw [htail, List.length_tail]
    exact (Nat.sub_le _ _).trans hp.bounded
  | _ => exact ⟨hp.distinct, hp.bounded⟩

lemma isLimited_step (fs : FileSystem) (hp : p.IsLimited) : (p.step fs).next.IsLimited :=
  step_keeps (fun _ _ h => isLimited_change h) hp

lemma isLimited_of_nil (hp : p.expansions = []) : p.IsLimited := by
  have hnone : p.expanding = [] := by rw [expanding, hp, List.map_nil]
  constructor <;> simp [hnone]

lemma Visited.isLimited (h : p.Visited fs) : p.IsLimited :=
  h.induction (fun c _ source => isLimited_of_nil (preprocessor_start c fs source).2.1)
    (fun _ hp => isLimited_step fs hp) (fun _ _ _ hp => ⟨hp.distinct, hp.bounded⟩)

end Names

/-! ### The marks -/

/-- What waits behind this many ends of expansions. -/
def behindMarks : Nat → List Pending → List Pending
  | 0, waiting => waiting
  | n + 1, waiting => behindMarks n ((waiting.dropWhile (· != .endExpansion)).drop 1)

section Marks

variable {fs : FileSystem} {p : Preprocessor}

lemma behindMarks_pending (es : List Expansion) {n : Nat} (hn : n ≤ es.length) :
    behindMarks n (es.flatMap (·.pending)) = (es.drop n).flatMap (·.pending) := by
  induction n generalizing es with
  | zero => rfl
  | succ n ih =>
    obtain ⟨e, outer, rfl⟩ := List.exists_cons_of_length_pos (Nat.zero_lt_of_lt hn)
    have hbehind : (((e :: outer).flatMap (·.pending)).dropWhile (· != .endExpansion)).drop 1 =
        outer.flatMap (·.pending) := by
      rw [List.flatMap_cons, Expansion.pending, List.append_assoc,
        List.dropWhile_append_of_pos (by simp)]
      simp
    rw [behindMarks, hbehind, ih outer (by simpa using hn), List.drop_succ_cons]

lemma count_pending (es : List Expansion) :
    (es.flatMap (·.pending)).count .endExpansion = es.length := by
  induction es with
  | nil => rfl
  | cons e es ih =>
    have hone : e.pending.count .endExpansion = 1 := by
      rw [Expansion.pending, List.count_append, List.count_singleton_self]
      simp [List.count_eq_zero]
    rw [List.flatMap_cons, List.count_append, hone, ih, List.length_cons, Nat.add_comm]

/-- Each of the open expansions comes to its end, and meanwhile nothing is read and no macro changes. -/
theorem ends_run (fs : FileSystem) (hp : p.defines.IsKeyed) (hroom : p.expansions.length ≤ p.limits.expansion)
    {n : Nat} (hn : n ≤ p.expansions.length) :
    ∃ ts ds, Run fs p ts (({ p with expansions := p.expansions.drop n } : Preprocessor).noteAll ds) := by
  induction n with
  | zero =>
    refine ⟨[], [], ?_⟩
    rw [noteAll_nil]
    exact .done p
  | succ n ih =>
    obtain ⟨ts, ds, hrun⟩ := ih (Nat.le_of_succ_le hn)
    have hdrop := List.drop_eq_getElem_cons hn
    let q : Preprocessor := ({ p with expansions := p.expansions.drop (n + 1) } : Preprocessor).noteAll ds
    have hlength : q.expansions.length = p.expansions.length - (n + 1) := List.length_drop
    obtain ⟨room, hlimit⟩ : ∃ room, q.expansions.length + 1 + room = p.limits.expansion :=
      ⟨_, Nat.add_sub_of_le (by rw [hlength]; omega)⟩
    have hbody := body_run (p := q) (fun q t hq hroom => place_follows fs room hq hroom t) hp hlimit
      p.expansions[n].name p.expansions[n].location p.expansions[n].rest
    rw [hdrop] at hrun
    exact ⟨_, _, by simpa only [q, noteAll_noteAll] using hrun.trans hbody⟩

end Marks

/-! ### Where the queue comes from -/

/-- In the state `p₀` nothing waited, and the name of a macro was read, the lexeme `x`. Since then the
macro is being expanded, and nothing more has been read. -/
structure CalledFrom (fs : FileSystem) (p₀ : Preprocessor) (x : Lexeme) (p : Preprocessor) : Prop where
  visited : p₀.Visited fs
  idle : p₀.expansions = []
  active : p₀.isActive = true
  word : p₀.lexemes.head? = some x
  name : p.expanding.getLast?.map .identifier = some x.token
  since : Relation.ReflTransGen (Moves fs) p₀ p
  frames : p.frames =
    (p₀.mapTop fun f => { f with lexemes := f.lexemes.tail, atLineStart := false }).frames
  location : ∀ e ∈ p.expansions, e.location = x.location

section Calls

variable {fs : FileSystem} {p q p₀ : Preprocessor} {x : Lexeme} {t : LocatedToken} {name : String}

lemma word?_eq (h : p.word? = some (t, q)) : ∃ f outer x rest, p.frames = f :: outer ∧
    f.lexemes = x :: rest ∧ f.isActive = true ∧ t = x.located ∧ q = p.afterLexeme f outer x rest false := by
  unfold word? at h
  split at h
  · cases h
  next f outer hframes =>
    split at h
    · cases h
    next x rest hlexemes =>
      split at h
      · cases h
      next hword =>
        obtain ⟨rfl, rfl⟩ := Prod.mk.inj (Option.some.inj h)
        have hactive : f.isActive = true := by
          by_contra hinactive
          simp [hinactive] at hword
        exact ⟨f, outer, x, rest, hframes, hlexemes, hactive, rfl, rfl⟩

/-- A token that is placed leaves the expansions as they are, or calls a macro. -/
lemma expansions_place (p : Preprocessor) (t : LocatedToken) :
    (p.place t).next.expansions = p.expansions ∨ ∃ name body, t.token = .identifier name ∧
      (p.place t).next.expansions = ⟨name, t.location, body⟩ :: p.expansions := by
  unfold place
  cases hcall : p.calledMacro? t.token with
  | none => exact .inl rfl
  | some called =>
    obtain ⟨name, d⟩ := called
    dsimp only
    split
    · exact .inl rfl
    · exact .inr ⟨name, d.body.map (·.token), (calledMacro?_eq_some_iff.1 hcall).1, rfl⟩

lemma calledFrom_read (hexpansions : p.expansions = [])
    (hcalled : (p.step fs).next.expansions ≠ []) : ∃ x, p.lexemes.head? = some x ∧ p.isActive = true ∧
      (p.step fs).next.expanding.getLast?.map .identifier = some x.token ∧
      (p.step fs).next.frames =
        (p.mapTop fun f => { f with lexemes := f.lexemes.tail, atLineStart := false }).frames ∧
      ∀ e ∈ (p.step fs).next.expansions, e.location = x.location := by
  have hread := step_of_read fs hexpansions
  cases hword : p.word? with
  | none =>
    rw [hword] at hread
    exact absurd hread hcalled
  | some word =>
    obtain ⟨t, q⟩ := word
    rw [hword] at hread
    obtain ⟨hstep, hq⟩ := hread
    obtain ⟨f, outer, x, rest, hframes, hlexemes, hactive, rfl, rfl⟩ := word?_eq hword
    have hsame := (place_isPlaced (p.afterLexeme f outer x rest false) x.located).frames
    rw [← hstep] at hsame
    have hplaced := expansions_place (p.afterLexeme f outer x rest false) x.located
    rw [← hstep, hq] at hplaced
    rcases hplaced with hnone | ⟨name, body, htoken, hone⟩
    · exact absurd hnone hcalled
    · have hword : p.lexemes.head? = some x := by rw [lexemes, hframes]; simp [hlexemes]
      have hcounts : p.isActive = true := by rw [isActive, hframes]; exact hactive
      refine ⟨x, hword, hcounts, ?_, ?_, ?_⟩
      · rw [expanding, hone, show x.token = .identifier name from htoken]
        rfl
      · rw [hsame, mapTop, hframes]
        simp [afterLexeme, hlexemes]
      · rw [hone]
        simp [Lexeme.located]

/-- While a macro is being expanded no step reads, all tokens stay where they are, and the outermost macro
is the same one up to its end. -/
theorem step_expanding (fs : FileSystem) (hp : p.expansions ≠ []) :
    (p.step fs).next.frames = p.frames ∧
      (∀ e ∈ (p.step fs).next.expansions, ∃ e' ∈ p.expansions, e.location = e'.location) ∧
      ((p.step fs).next.expansions ≠ [] → (p.step fs).next.expanding.getLast? = p.expanding.getLast?) := by
  obtain ⟨e, outer, hexpansions⟩ := List.exists_cons_of_ne_nil hp
  have hstep : p.step fs = p.stepExpansion e outer := by
    unfold step
    rw [hexpansions]
  refine ⟨?_, ?_, ?_⟩
  · cases (step_isStep fs p).sources with
    | same h => exact h
    | read hnone => exact absurd hnone hp
    | enter hnone => exact absurd hnone hp
    | leave hnone => exact absurd hnone hp
  · intro e' he'
    rcases (step_isStep fs p).expansions e' he' with hhere | hbefore
    · refine ⟨e, by simp [hexpansions], ?_⟩
      rw [hhere, here, hexpansions]
    · exact hbefore
  · rw [hstep, stepExpansion]
    cases hrest : e.rest with
    | nil =>
      intro houter
      obtain ⟨e', outer', rfl⟩ := List.exists_cons_of_ne_nil houter
      simp [Step.next, expanding, hexpansions]
    | cons t rest =>
      dsimp only
      intro _
      have hsame : expanding { p with expansions := { e with rest } :: outer } = p.expanding := by
        simp [expanding, hexpansions]
      split
      · exact congrArg List.getLast? hsame
      · rcases expansions_place { p with expansions := { e with rest } :: outer } ⟨e.location, t⟩ with
          hkept | ⟨name, body, -, hcalled⟩
        · rw [expanding, hkept]
          exact congrArg List.getLast? hsame
        · rw [expanding, hcalled, expanding, hexpansions]
          simp

/-- What is being expanded was called from one token of a source, and nothing has been read since. -/
theorem Visited.calledFrom (h : p.Visited fs) (hp : p.expansions ≠ []) :
    ∃ p₀ x, CalledFrom fs p₀ x p := by
  induction h with
  | start hc source => exact absurd (preprocessor_start _ fs source).2.1 hp
  | @move p q hvisited hmove ih =>
    obtain ⟨lookahead, log, rfl | rfl⟩ := hmove.eq
    · obtain ⟨p₀, x, hcalled⟩ := ih hp
      exact ⟨p₀, x, { hcalled with since := hcalled.since.tail hmove }⟩
    · replace hp : (p.step fs).next.expansions ≠ [] := hp
      by_cases hbefore : p.expansions = []
      · obtain ⟨x, hword, hactive, hname, hframes, hlocation⟩ := calledFrom_read hbefore hp
        exact ⟨p, x, hvisited, hbefore, hactive, hword, hname, .single hmove, hframes, hlocation⟩
      · obtain ⟨p₀, x, hcalled⟩ := ih hbefore
        obtain ⟨hframes, hlocations, hlast⟩ := step_expanding fs hbefore
        refine ⟨p₀, x, { hcalled with
          name := (congrArg _ (hlast hp)).trans hcalled.name
          since := hcalled.since.tail hmove
          frames := hframes.trans hcalled.frames
          location := ?_ }⟩
        intro e he
        obtain ⟨e', he', hlocation⟩ := hlocations e he
        exact hlocation.trans (hcalled.location e' he')

end Calls

/-! ### Tokens that are delivered -/

/-- If the token names a macro, that macro is being expanded. -/
def Spends (p : Preprocessor) (t : Token) : Prop :=
  ∀ name, t = .identifier name → p.defines.contains name = true → name ∈ p.expanding

section Delivered

variable {fs : FileSystem} {p q : Preprocessor} {t u : LocatedToken}

lemma spends_place (h : p.place t = .deliver u q) : q.Spends u.token := by
  obtain ⟨rfl, rfl⟩ := place_deliver_eq h
  intro name hname hdefined
  obtain ⟨d, hd⟩ := Option.isSome_iff_exists.1 hdefined
  unfold place at h
  cases hcall : q.calledMacro? u.token with
  | some called =>
    rw [hcall] at h
    dsimp only at h
    split at h <;> cases h
  | none =>
    rw [hname, calledMacro?, hd] at hcall
    rw [← List.contains_iff_mem, contains_expanding]
    simpa using hcall

lemma spends_eof (p : Preprocessor) : p.Spends .eof := by
  rintro name ⟨⟩

/-- A token that a step delivers is the end, or has been placed: in a macro, or in text that counts. -/
lemma deliver_cases (h : p.step fs = .deliver t q) :
    t.token = .eof ∨ ∃ (r : Preprocessor) (u : LocatedToken), r.place u = .deliver t q ∧
      (p.expansions = [] → p.isActive = true) := by
  cases hp : p.expansions with
  | cons e outer =>
    unfold step stepExpansion at h
    rw [hp] at h
    dsimp only at h
    split at h
    · cases h
    · split at h
      · cases h
      · exact .inr ⟨_, _, h, by simp⟩
  | nil =>
    unfold step at h
    rw [hp] at h
    dsimp only at h
    split at h
    · obtain ⟨rfl, rfl⟩ := Step.deliver.inj h
      exact .inl rfl
    next f outer hframes =>
      split at h
      next hlexemes =>
        rw [(stepEnd_deliver fs hp hframes hlexemes h).1]
        exact .inl rfl
      · unfold stepLexeme at h
        dsimp only at h
        split at h
        · cases h
        split at h
        · cases h
        split at h
        · cases h
        split at h
        next hactive => exact .inr ⟨_, _, h, fun _ => by rw [isActive, hframes]; exact hactive⟩
        · cases h

lemma spends_step (h : p.step fs = .deliver t q) : q.Spends t.token := by
  rcases deliver_cases h with heof | ⟨r, u, hplace, -⟩
  · rw [heof]
    exact spends_eof q
  · exact spends_place hplace

lemma Visited.spends (h : p.Visited fs) : ∀ t ∈ p.lookahead, p.Spends t.token := by
  induction h with
  | start hc source => simp [(preprocessor_start _ fs source).1]
  | @move p q _ hmove ih =>
    cases hmove with
    | step hp => simp [step_lookahead fs rfl, hp]
    | @keep q t hp hdeliver =>
      intro u hu
      obtain rfl := Option.some.inj hu
      have hq : q.Spends t.token := spends_step hdeliver
      exact hq
    | release => simp
    | report t problem => exact ih

lemma Visited.spends_next (h : p.Visited fs) : (p.next fs).2.Spends (p.next fs).1.token := by
  cases hp : p.lookahead with
  | some t =>
    unfold Preprocessor.next
    rw [hp]
    exact h.spends t hp
  | none =>
    obtain ⟨n, hdeliver, -⟩ := next_steps fs hp
    exact spends_step hdeliver

end Delivered

/-! ### All of it -/

/-- The queue is kept as it has to be: it takes the steps of preprocessing, its marks end the names that are
being expanded, one after the other, what waits was called from one token, and nothing waits and no name is
left where a source is read. -/
structure IsQueued (fs : FileSystem) (p : Preprocessor) : Prop where
  steps : p.queued.step fs = ((p.step fs).token?, (p.step fs).next.queued)
  distinct : p.queued.expanding.Nodup
  bounded : p.queued.expanding.length ≤ p.limits.expansion
  marks : p.queued.pending.count .endExpansion = p.queued.expanding.length
  ends : ∀ n ≤ p.queued.expanding.length, ∃ ts q, Run fs p ts q ∧ q.frames = p.frames ∧
    q.queued.pending = behindMarks n p.queued.pending ∧ q.queued.expanding = p.queued.expanding.drop n
  origin : p.queued.pending ≠ [] → ∃ p₀ x, CalledFrom fs p₀ x p ∧
    ∀ t, .token t ∈ p.queued.pending → t.location = x.location
  idle : p.queued.pending = [] → p.queued.expanding = []
  reads : (p.step fs).next.frames ≠ p.frames → p.queued.pending = [] ∧ p.queued.expanding = []
  delivered : ∀ name, (p.next fs).1.token = .identifier name →
    (p.next fs).2.defines.contains name = true → name ∈ (p.next fs).2.queued.expanding

section IsQueued

variable {fs : FileSystem} {p : Preprocessor}

lemma expansions_of_pending (h : p.queued.pending = []) : p.expansions = [] := by
  by_contra hne
  obtain ⟨e, outer, hexpansions⟩ := List.exists_cons_of_ne_nil hne
  have hmark : .endExpansion ∈ p.queued.pending := by
    simp [queued, hexpansions, Expansion.pending]
  rw [h] at hmark
  cases hmark

lemma location_of_pending {t : LocatedToken} (h : .token t ∈ p.queued.pending) :
    ∃ e ∈ p.expansions, t.location = e.location := by
  obtain ⟨e, he, ht⟩ := List.mem_flatMap.1 h
  rcases List.mem_append.1 ht with ht | ht
  · obtain ⟨u, _, hu⟩ := List.mem_map.1 ht
    obtain rfl := Pending.token.inj hu
    exact ⟨e, he, rfl⟩
  · cases List.mem_singleton.1 ht

/-- In every state that preprocessing comes to, the queue of what waits and the names that are being
expanded belong together. -/
theorem visited_isQueued (h : p.Visited fs) : IsQueued fs p := by
  obtain ⟨hdistinct, hbounded⟩ := h.isLimited
  have hlength : p.expanding.length = p.expansions.length := List.length_map _
  constructor
  case steps => exact step_queued fs p
  case distinct => exact hdistinct
  case bounded => exact hbounded
  case marks => exact (count_pending p.expansions).trans hlength.symm
  case ends =>
    intro n hn
    replace hn : n ≤ p.expansions.length := hlength ▸ hn
    obtain ⟨ts, ds, hrun⟩ := ends_run fs h.isSound.defines.isKeyed (hlength ▸ hbounded) hn
    refine ⟨ts, _, hrun, rfl, ?_, ?_⟩
    · exact (behindMarks_pending p.expansions hn).symm
    · exact List.map_drop
  case origin =>
    intro hpending
    have hexpansions : p.expansions ≠ [] := by
      intro hnone
      exact hpending (by rw [queued_of_nil hnone])
    obtain ⟨p₀, x, hcalled⟩ := h.calledFrom hexpansions
    refine ⟨p₀, x, hcalled, fun t ht => ?_⟩
    obtain ⟨e, he, hlocation⟩ := location_of_pending ht
    exact hlocation.trans (hcalled.location e he)
  case idle =>
    intro hpending
    rw [queued_of_nil (expansions_of_pending hpending)]
  case reads =>
    intro hreads
    have hexpansions : p.expansions = [] := by
      by_contra hne
      exact hreads (step_expanding fs hne).1
    rw [queued_of_nil hexpansions]
    exact ⟨rfl, rfl⟩
  case delivered => exact h.spends_next

/-- The state in which the macro `A` of a source, which stands for itself, has just been called. -/
def callingItself : Preprocessor :=
  ((({} : Compiler).preprocessor .empty (.ofBytes "" (Text.bytes "#define A A\nA"))).steps .empty 2)

theorem visited_isQueued_callingItself :
    callingItself.Visited .empty ∧ IsQueued .empty callingItself ∧
      callingItself.queued.pending = [.token ⟨⟨1, 0⟩, .identifier "A"⟩, .endExpansion] ∧
      callingItself.queued.expanding = ["A"] := by
  have hvisited : callingItself.Visited .empty :=
    (Visited.start (.new {}) (.ofBytes "" (Text.bytes "#define A A\nA"))).steps rfl 2
  exact ⟨hvisited, visited_isQueued hvisited, by decide +kernel, by decide +kernel⟩

end IsQueued

end Preprocessor

end Shading
