import Shading.Preprocessor.Cases

/-!
# Preprocessing ends

A step makes the state smaller in a well-founded order, or delivers the end of the main source.
The stack of sources shrinks when a lexeme is read or an include ends. An include adds a source
of any length, but it uses up part of its includer and one level of the depth that is left.
While the sources stay as they are, the stack of expansions shrinks: a call uses up a token that
weighs more than the whole body it is replaced by.
-/
namespace Shading.Preprocessor

/-- Ways in which the lengths of the sources on a stack, the innermost first, become smaller:
the innermost ends, is read, or is read and enters another one, if the depth allows it. -/
inductive Shrinks (depth : Nat) : List Nat → List Nat → Prop
  | leave (n : Nat) (outer : List Nat) : Shrinks depth outer (n :: outer)
  | read {m n : Nat} (outer : List Nat) (h : m < n) : Shrinks depth (m :: outer) (n :: outer)
  | enter {m n : Nat} (k : Nat) (outer : List Nat) (h : m < n) (room : outer.length < depth) :
      Shrinks depth (k :: m :: outer) (n :: outer)

theorem Shrinks.acc_cons {depth : Nat} (room : Nat) :
    ∀ (outer : List Nat), depth - outer.length ≤ room → Acc (Shrinks depth) outer →
      ∀ n, Acc (Shrinks depth) (n :: outer) := by
  induction room with
  | zero =>
    intro outer hroom houter n
    induction n using Nat.strongRecOn with
    | ind n ih =>
      refine ⟨_, fun y hy => ?_⟩
      cases hy with
      | leave => exact houter
      | read _ h => exact ih _ h
      | enter _ _ _ hd => omega
  | succ room ihRoom =>
    intro outer hroom houter n
    induction n using Nat.strongRecOn with
    | ind n ih =>
      refine ⟨_, fun y hy => ?_⟩
      cases hy with
      | leave => exact houter
      | read _ h => exact ih _ h
      | enter k _ h hd =>
        exact ihRoom _ (by simp only [List.length_cons]; omega) (ih _ h) k

theorem Shrinks.wellFounded (depth : Nat) : WellFounded (Shrinks depth) := by
  refine ⟨fun sizes => ?_⟩
  induction sizes with
  | nil => exact ⟨_, fun y hy => by cases hy⟩
  | cons n outer ih => exact acc_cons _ outer (Nat.le_refl _) ih n

/-- What a token weighs that has room for further expansions within it: more than a body of at
most `longest` tokens that have room for one less. -/
def tokenWeight (longest : Nat) : (room : Nat) → Nat
  | 0 => 1
  | room + 1 => (longest + 2) * tokenWeight longest room

theorem tokenWeight_pos (longest room : Nat) : 0 < tokenWeight longest room := by
  induction room with
  | zero => exact Nat.one_pos
  | succ room ih => exact Nat.mul_pos (by omega) ih

/-- What the waiting tokens weigh, and one more for each expansion that has to end. -/
def expansionWeight (limit longest : Nat) : List Expansion → Nat
  | [] => 0
  | e :: outer =>
    1 + e.rest.length * tokenWeight longest (limit - (outer.length + 1)) +
      expansionWeight limit longest outer

/-- The lengths of the sources that are being read. -/
def sizes (p : Preprocessor) : List Nat :=
  p.frames.map (·.lexemes.length)

/-- What waits in front of the sources. -/
def weight (p : Preprocessor) : Nat :=
  expansionWeight p.limits.expansion p.defines.longestBody p.expansions +
    (if p.lookahead.isSome then 1 else 0)

/-- The order on states in which steps descend. -/
def Smaller (q p : Preprocessor) : Prop :=
  q.limits = p.limits ∧
    Prod.Lex (Shrinks p.limits.includeDepth) (· < ·) (q.sizes, q.weight) (p.sizes, p.weight)

theorem Smaller.wellFounded : WellFounded Smaller := by
  have acc (depth : Nat) (x : List Nat × Nat) :
      ∀ p : Preprocessor, p.limits.includeDepth = depth → (p.sizes, p.weight) = x →
        Acc Smaller p := by
    have wf := (Prod.lex ⟨_, Shrinks.wellFounded depth⟩ Nat.lt_wfRel).wf
    induction x using wf.induction with
    | _ x ih =>
      rintro p rfl rfl
      exact ⟨_, fun q hq => ih _ hq.2 q (by rw [hq.1]) rfl⟩
  exact ⟨fun p => acc _ _ p rfl rfl⟩

theorem Smaller.withLog {q p : Preprocessor} (log : Array Diagnostic)
    (h : Relation.TransGen Smaller q p) : Relation.TransGen Smaller { q with log } p := by
  induction h with
  | single h => exact .single h
  | tail _ hlast ih => exact ih.tail hlast

/-- Preprocessing recurs on states that any number of steps lead to. -/
instance : WellFoundedRelation Preprocessor :=
  ⟨Relation.TransGen Smaller, Smaller.wellFounded.transGen⟩

theorem Smaller.of_sizes {q p : Preprocessor} (hl : q.limits = p.limits)
    (h : Shrinks p.limits.includeDepth q.sizes p.sizes) : Smaller q p :=
  ⟨hl, .left _ _ h⟩

theorem Smaller.of_weight {q p : Preprocessor} (hl : q.limits = p.limits)
    (hs : q.sizes = p.sizes) (h : q.weight < p.weight) : Smaller q p := by
  refine ⟨hl, ?_⟩
  rw [hs]
  exact .right _ h

/-! A directive leaves the sources as they are or enters one more. -/

/-- The sources of `q` are those of `p`, with at most one more that the depth allows. -/
def Extends (q p : Preprocessor) : Prop :=
  q.limits = p.limits ∧
    (q.sizes = p.sizes ∨ ∃ k, q.sizes = k :: p.sizes ∧ p.sizes.length ≤ p.limits.includeDepth)

theorem Extends.of_frames {q p : Preprocessor} (hl : q.limits = p.limits)
    (hf : q.frames = p.frames) : Extends q p :=
  ⟨hl, .inl (by rw [sizes, sizes, hf])⟩

theorem setGroups_extends {q p : Preprocessor} (groups : List Group) (h : Extends q p) :
    Extends (q.setGroups groups) p := by
  unfold setGroups mapTop
  split
  · exact h
  next f outer hf =>
    refine ⟨h.1, ?_⟩
    have : sizes { q with frames := { f with groups } :: outer } = q.sizes := by
      simp only [sizes, hf, List.map_cons]
    rw [this]
    exact h.2

theorem ask_extends (p : Preprocessor) (question : Except Rejection Bool) :
    Extends (p.ask question).1 p := by
  unfold ask
  split
  · exact .of_frames rfl rfl
  · exact .of_frames rfl rfl

theorem openGroup_extends (p : Preprocessor) (question : Except Rejection Bool) :
    Extends (p.openGroup question) p := by
  refine setGroups_extends _ ?_
  split
  · exact ask_extends p question
  · exact .of_frames rfl rfl

theorem openBranch_extends {p q : Preprocessor} {d : Directive} (h : p.openBranch d = .ok q) :
    Extends q p := by
  unfold openBranch at h
  split at h
  · simp at h
  · split at h
    · simp at h
    · cases h
      refine setGroups_extends _ ?_
      split
      · exact ask_extends p _
      · exact .of_frames rfl rfl

theorem openLastBranch_extends {p q : Preprocessor} {d : Directive}
    (h : p.openLastBranch d = .ok q) : Extends q p := by
  unfold openLastBranch at h
  split at h
  · simp at h
  · split at h
    · simp at h
    · cases h
      exact setGroups_extends _ (.of_frames rfl rfl)

theorem closeGroup_extends {p q : Preprocessor} {d : Directive} (h : p.closeGroup d = .ok q) :
    Extends q p := by
  unfold closeGroup at h
  split at h
  · simp at h
  · cases h
    exact setGroups_extends _ (.of_frames rfl rfl)

theorem enter_extends {fs : FileSystem} {p q : Preprocessor} {location : Location}
    {isLocal : Bool} {name : String} (h : p.enter fs location isLocal name = .ok q) :
    Extends q p := by
  revert h
  apply enter_cases (motive := fun r => r = .ok q → Extends q p)
  case nothing =>
    rintro - ⟨⟩
    exact .of_frames rfl rfl
  case entered =>
    rintro f outer - hroom frame - - ⟨⟩
    exact ⟨rfl, .inr ⟨frame.lexemes.length, rfl, by simpa [sizes] using hroom⟩⟩
  all_goals
    intros
    contradiction

theorem obey_extends {fs : FileSystem} {p q : Preprocessor} {d : Directive}
    (h : p.obey fs d = .ok q) : Extends q p := by
  revert h
  apply obey_cases (motive := fun r => r = .ok q → Extends q p)
  case ifDefined | ifNotDefined | ifHolds =>
    rintro - ⟨⟩
    exact openGroup_extends p _
  case elseIf => exact fun _ => openBranch_extends
  case otherwise => exact fun _ => openLastBranch_extends
  case endIf => exact fun _ => closeGroup_extends
  case includeFile => exact fun _ _ _ _ _ => enter_extends
  case inactive | ignored =>
    rintro - ⟨⟩
    exact .of_frames rfl rfl
  case warn =>
    rintro - - ⟨⟩
    exact .of_frames rfl rfl
  case define | undefine =>
    rintro - - _ - ⟨⟩
    exact .of_frames rfl rfl
  all_goals
    intros
    contradiction

theorem obeyLine_extends (fs : FileSystem) (p : Preprocessor) (hash : Location)
    (line : List LocatedToken) : Extends (p.obeyLine fs hash line) p := by
  apply obeyLine_cases (motive := (Extends · p))
  case obeyed => exact fun _ _ _ _ _ => obey_extends
  all_goals
    intros
    exact .of_frames rfl rfl

theorem Extends.smaller {q p : Preprocessor} {m n : Nat} {outer : List Nat} (h : Extends q p)
    {r : Preprocessor} (hl : p.limits = r.limits) (hp : p.sizes = m :: outer)
    (hr : r.sizes = n :: outer) (hmn : m < n) : Smaller q r := by
  refine .of_sizes (h.1.trans hl) ?_
  rw [hr]
  rcases h.2 with hs | ⟨k, hs, hroom⟩
  · rw [hs, hp]
    exact .read outer hmn
  · rw [hs, hp]
    refine .enter k outer hmn ?_
    rw [hp, hl] at hroom
    exact hroom

/-! Each step descends. -/

/-- A step that delivers no end of a source leads to a smaller state. -/
def Descends (s : Step) (p : Preprocessor) : Prop :=
  match s with
  | .deliver t q => t.token ≠ .eof → Smaller q p
  | .proceed q => Smaller q p

theorem place_descends_of_sizes {p r : Preprocessor} (t : LocatedToken)
    (hl : p.limits = r.limits) (h : Shrinks r.limits.includeDepth p.sizes r.sizes) :
    Descends (p.place t) r := by
  unfold place
  split
  · exact fun _ => .of_sizes hl h
  · split
    · exact .of_sizes hl h
    · exact .of_sizes hl h

theorem calledMacro?_longestBody {p : Preprocessor} {t : Token} {name : String} {d : Definition}
    (h : p.calledMacro? t = some (name, d)) : d.body.length ≤ p.defines.longestBody := by
  unfold calledMacro? at h
  split at h
  · split at h
    · simp at h
    · obtain ⟨d', hd', he⟩ := Option.map_eq_some_iff.1 h
      obtain rfl : d' = d := (Prod.mk.inj he).2
      exact DefineTable.length_body_le_longestBody hd'
  · simp at h

theorem weight_call_lt {limit longest : Nat} {e : Expansion} {outer : List Expansion}
    {t : Token} {rest : List Token} (he : e.rest = t :: rest) (name : String)
    (location : Location) {body : List Token} (hbody : body.length ≤ longest)
    (hlimit : outer.length + 1 < limit) :
    expansionWeight limit longest (⟨name, location, body⟩ :: { e with rest } :: outer) <
      expansionWeight limit longest (e :: outer) := by
  simp only [expansionWeight, he, List.length_cons]
  obtain ⟨room, hroom⟩ : ∃ room, limit - (outer.length + 1) = room + 1 :=
    ⟨limit - (outer.length + 1) - 1, by omega⟩
  have hroom' : limit - (outer.length + 1 + 1) = room := by omega
  rw [hroom, hroom']
  have hpos := tokenWeight_pos longest room
  have h1 : body.length * tokenWeight longest room ≤ longest * tokenWeight longest room :=
    Nat.mul_le_mul_right _ hbody
  have h2 : tokenWeight longest (room + 1) =
      longest * tokenWeight longest room + 2 * tokenWeight longest room := by
    rw [tokenWeight, Nat.add_mul]
  have h3 : (rest.length + 1) * tokenWeight longest (room + 1) =
      rest.length * tokenWeight longest (room + 1) + tokenWeight longest (room + 1) :=
    Nat.succ_mul _ _
  omega

theorem weight_rest_lt {limit longest : Nat} {e : Expansion} {outer : List Expansion} {t : Token}
    {rest : List Token} (he : e.rest = t :: rest) :
    expansionWeight limit longest ({ e with rest } :: outer) <
      expansionWeight limit longest (e :: outer) := by
  simp only [expansionWeight, he, List.length_cons, Nat.succ_mul]
  have hpos := tokenWeight_pos longest (limit - (outer.length + 1))
  omega

theorem stepExpansion_descends {p : Preprocessor} {e : Expansion} {outer : List Expansion}
    (hp : p.expansions = e :: outer) : Descends (p.stepExpansion e outer) p := by
  have lighter {q : Preprocessor} (hl : q.limits = p.limits) (hd : q.defines = p.defines)
      (hf : q.frames = p.frames) (ha : q.lookahead = p.lookahead)
      (h : expansionWeight p.limits.expansion p.defines.longestBody q.expansions <
        expansionWeight p.limits.expansion p.defines.longestBody p.expansions) : Smaller q p := by
    refine .of_weight hl (by rw [sizes, sizes, hf]) ?_
    simp only [weight, hl, hd, ha]
    omega
  unfold stepExpansion
  split
  next he =>
    refine lighter rfl rfl rfl rfl ?_
    simp only [hp, expansionWeight]
    omega
  next t rest he =>
    have hrest : expansionWeight p.limits.expansion p.defines.longestBody
        ({ e with rest } :: outer) <
        expansionWeight p.limits.expansion p.defines.longestBody p.expansions := by
      rw [hp]
      exact weight_rest_lt he
    dsimp only
    split
    · exact lighter rfl rfl rfl rfl hrest
    · unfold place
      split
      · exact fun _ => lighter rfl rfl rfl rfl hrest
      next name d hcall =>
        split
        · exact lighter rfl rfl rfl rfl hrest
        next hlimit =>
          refine lighter rfl rfl rfl rfl ?_
          rw [hp]
          refine weight_call_lt he name e.location ?_ (by simpa using hlimit)
          rw [List.length_map]
          have hbody := calledMacro?_longestBody hcall
          exact hbody

theorem stepEnd_descends {p : Preprocessor} {f : Frame} {outer : List Frame}
    (hp : p.frames = f :: outer) : Descends (p.stepEnd f outer) p := by
  unfold stepEnd
  dsimp only
  split
  · exact fun h => absurd rfl h
  · split
    · exact fun h => absurd rfl h
    · refine .of_sizes (by dsimp only; split <;> rfl) ?_
      simp only [sizes, hp, List.map_cons]
      exact .leave _ _

theorem stepLexeme_descends (fs : FileSystem) {p : Preprocessor} {f : Frame}
    {outer : List Frame} {x : Lexeme} {rest : List Lexeme} (hp : p.frames = f :: outer)
    (hf : f.lexemes = x :: rest) : Descends (p.stepLexeme fs f outer x rest) p := by
  have hsizes : p.sizes = (rest.length + 1) :: outer.map (·.lexemes.length) := by
    simp [sizes, hp, hf]
  have shorter {m : Nat} (h : m ≤ rest.length) :
      Shrinks p.limits.includeDepth (m :: outer.map (·.lexemes.length)) p.sizes := by
    rw [hsizes]
    exact .read _ (by omega)
  apply stepLexeme_cases (motive := (Descends · p))
  case passed => exact fun _ => .of_sizes rfl (shorter (Nat.le_refl _))
  case directive =>
    intro _ _
    refine Extends.smaller (obeyLine_extends fs _ _ _) rfl rfl hsizes ?_
    have := (List.dropWhile_suffix (l := rest) (·.token != .newline)).length_le
    simp only [List.length_drop]
    omega
  case placed => exact fun _ _ _ _ => place_descends_of_sizes _ rfl (shorter (Nat.le_refl _))

theorem step_descends (fs : FileSystem) (p : Preprocessor) : Descends (p.step fs) p := by
  unfold step
  split
  next hp => exact stepExpansion_descends hp
  · split
    · exact fun h => absurd rfl h
    next hp =>
      split
      · exact stepEnd_descends hp
      next hf => exact stepLexeme_descends fs hp hf

end Shading.Preprocessor
