import Shading.Proofs.Declaration.Splitting

/-!
# Reading on behind a fault

A declaration that cannot go on is given up, and what follows it is passed over. Here a scan takes all
kinds of brackets alike and forgets closing ones that have no partner; it rests at the first semicolon
or brace that leaves it outside all brackets. So any tokens are made of declarations, lone semicolons
and declarations that were given up, each with what is passed over behind it.
-/

namespace Shading

open Brackets Division

namespace Recovery

/-- The depth behind one more token, whatever kind its bracket is of. -/
def deepen (depth : Nat) (t : LocatedToken) : Nat :=
  match t.token with
  | .punct p => if p.closer?.isSome then depth + 1 else if p.isCloser then depth - 1 else depth
  | _ => depth

def level (ts : List LocatedToken) : Nat :=
  ts.foldl deepen 0

/-- What is passed over has come to `before` and ends with `t`. -/
def Rests (before : List LocatedToken) (t : LocatedToken) : Prop :=
  (t.token = .punct .semicolon ∧ level before = 0) ∨
    (t.token = .punct .rightBrace ∧ level before = 1)

def Restless (ts : List LocatedToken) : Prop :=
  ∀ before t after, ts = before ++ t :: after → ¬Rests before t

/-- What is passed over with `rest` behind it: the tokens up to the first place of rest, or all that
there are. -/
inductive Passed : List LocatedToken → List LocatedToken → Prop
  | rested {before rest : List LocatedToken} {t : LocatedToken} (h : Restless before)
      (ht : Rests before t) : Passed (before ++ [t]) rest
  | exhausted {ts : List LocatedToken} (h : Restless ts) : Passed ts []

/-- A part of the tokens: one of a division, or a declaration that was given up with what is passed
over behind it, and what is reported about it. -/
inductive Part
  | item (i : Item)
  | failure (ts : List LocatedToken) (fault : LocatedToken × SyntaxError)

namespace Part

def tokens : Part → List LocatedToken
  | item i => i.tokens
  | failure ts _ => ts

def declaration? : Part → Option Declaration
  | item i => i.declaration?
  | failure _ _ => none

def fault? : Part → Option (LocatedToken × SyntaxError)
  | item _ => none
  | failure _ fault => some fault

/-- What is missing at the end of all tokens: the partner of the innermost open bracket, or else a
semicolon. -/
def missing (stop : Location) : List OpenBracket → LocatedToken × SyntaxError
  | [] => (⟨stop, .eof⟩, .missingSemicolon)
  | innermost :: _ => (⟨innermost.location, .eof⟩, .unclosed innermost.bracket)

/-- The part is as it has to be where `rest` is behind it and all tokens end at `stop`: a declaration is
given up at the first closing bracket without its partner, or for want of tokens. -/
inductive Stands (stop : Location) (rest : List LocatedToken) : Part → Prop
  | item {i : Item} (h : i.IsWellFormed) : Stands stop rest (item i)
  | unexpected {brackets : List OpenBracket} {begun passed : List LocatedToken} {t : LocatedToken}
      {p : Punct} (h : Unfinished brackets begun) (ht : Mismatched brackets t p)
      (hpassed : Passed passed rest) :
      Stands stop rest (failure (begun ++ t :: passed) (t, .unexpected p))
  | incomplete {brackets : List OpenBracket} {begun : List LocatedToken} (h : Unfinished brackets begun)
      (hbegun : begun ≠ []) (hrest : rest = []) :
      Stands stop rest (failure begun (missing stop brackets))

end Part

/-- The tokens, which end at `stop`, are made of the parts. -/
inductive Parted (stop : Location) : List LocatedToken → List Part → Prop
  | nil : Parted stop [] []
  | cons {part : Part} {parts : List Part} {rest : List LocatedToken} (hpart : part.Stands stop rest)
      (hrest : Parted stop rest parts) : Parted stop (part.tokens ++ rest) (part :: parts)

variable {stop : Location} {ts rest rest' : List LocatedToken} {parts parts' : List Part}

lemma Parted.covers (h : Parted stop ts parts) : parts.flatMap Part.tokens = ts := by
  induction h with
  | nil => rfl
  | cons _ _ ih => rw [List.flatMap_cons, ih]

/-! ### There are such parts -/

lemma restless_append {t : LocatedToken} (h : Restless ts) (ht : ¬Rests ts t) : Restless (ts ++ [t]) := by
  intro before u after hsplit hrests
  rcases split_append_singleton hsplit with ⟨rfl, rfl, -⟩ | ⟨after', rfl⟩
  · exact ht hrests
  · exact h before u after' rfl hrests

lemma exists_passed (ts : List LocatedToken) : ∃ passed rest, ts = passed ++ rest ∧ Passed passed rest := by
  induction ts using List.reverseRecOn with
  | nil => exact ⟨[], [], rfl, .exhausted (by simp [Restless])⟩
  | append_singleton ts t ih =>
    obtain ⟨passed, rest, rfl, hpassed⟩ := ih
    cases hpassed with
    | @rested before rest u h hu => exact ⟨before ++ [u], rest ++ [t], List.append_assoc _ _ _, .rested h hu⟩
    | exhausted h =>
      rw [List.append_nil]
      by_cases ht : Rests passed t
      · exact ⟨passed ++ [t], [], (List.append_nil _).symm, .rested h ht⟩
      · exact ⟨passed ++ [t], [], (List.append_nil _).symm, .exhausted (restless_append h ht)⟩

lemma parted_items {items : List Item} (hitems : ∀ i ∈ items, i.IsWellFormed)
    (h : Parted stop rest parts) :
    Parted stop (items.flatMap Item.tokens ++ rest) (items.map .item ++ parts) := by
  induction items with
  | nil => exact h
  | cons i items ih =>
    rw [List.flatMap_cons, List.append_assoc]
    have hi : (Part.item i).Stands stop (items.flatMap Item.tokens ++ rest) :=
      .item (hitems i List.mem_cons_self)
    exact .cons hi (ih fun j hj => hitems j (List.mem_cons_of_mem _ hj))

/-- Any tokens are made of such parts: behind the first fault and what is passed over, fewer are left. -/
theorem exists_parted (stop : Location) (ts : List LocatedToken) : ∃ parts, Parted stop ts parts := by
  induction hlength : ts.length using Nat.strong_induction_on generalizing ts with
  | _ n ih =>
    subst hlength
    have hwhole {brackets : List OpenBracket} {begun : List LocatedToken} (h : Unfinished brackets begun)
        (hbegun : begun ≠ []) : Parted stop begun [.failure begun (Part.missing stop brackets)] := by
      have hparted := Parted.cons (.incomplete h hbegun rfl) (.nil : Parted stop [] [])
      rwa [Part.tokens, List.append_nil] at hparted
    rcases division_or_fault stop ts with ⟨⟨items, hitems, rfl⟩⟩ | ⟨t, cause, hfault⟩
    · have hparted := parted_items hitems (.nil : Parted stop [] [])
      rw [List.append_nil] at hparted
      exact ⟨_, hparted⟩
    cases hfault with
    | @unexpected complete begun behind brackets t p d h ht =>
      obtain ⟨passed, rest, rfl, hpassed⟩ := exists_passed behind
      obtain ⟨parts, hparts⟩ := ih rest.length (by simp; omega) rest rfl
      obtain ⟨items, hitems, rfl⟩ := d
      have hparted := parted_items hitems (.cons (.unexpected h ht hpassed) hparts)
      rw [Part.tokens, List.append_assoc, List.cons_append] at hparted
      exact ⟨_, hparted⟩
    | unclosed d h =>
      obtain ⟨items, hitems, rfl⟩ := d
      exact ⟨_, parted_items hitems (hwhole h h.ne_nil)⟩
    | missingSemicolon d h hbegun =>
      obtain ⟨items, hitems, rfl⟩ := d
      exact ⟨_, parted_items hitems (hwhole h hbegun)⟩

/-! ### There is only one way -/

/-- A declaration that has come to `before` is over at `t`: it ends there, or cannot go on. -/
def IsOver (before : List LocatedToken) (t : LocatedToken) : Prop :=
  Ends before t ∨ ∃ brackets p, Open brackets before ∧ Mismatched brackets t p

section Over

variable {brackets : List OpenBracket} {begun : List LocatedToken} {t : LocatedToken} {p : Punct}

lemma not_ends_of_mismatched (h : Open brackets begun) (ht : Mismatched brackets t p) : ¬Ends begun t := by
  have hnone : scanToken brackets t = none := scanToken_eq_none_iff.2 ⟨p, ht⟩
  rw [ends_iff h, hnone]
  rintro (⟨hsemicolon, -⟩ | ⟨-, hsome⟩)
  · have hcloser := ht.2.1
    rw [ht.1] at hsemicolon
    rw [Token.punct.inj hsemicolon] at hcloser
    cases hcloser
  · cases hsome

lemma not_isOver (h : Unfinished brackets ts) (before : List LocatedToken) (t : LocatedToken)
    (after : List LocatedToken) (hsplit : ts = before ++ t :: after) : ¬IsOver before t := by
  rintro (hends | ⟨opened, p, hopened, ht⟩)
  · exact h.unended before t after hsplit hends
  · obtain ⟨opened', hopened', hscan⟩ := open_prefix (hsplit ▸ h.opened)
    rw [open_unique hopened' hopened, scan, scanToken_eq_none_iff.2 ⟨p, ht⟩] at hscan
    cases hscan

/-- Where something holds for the first time is determined. -/
lemma first_unique {P : List LocatedToken → LocatedToken → Prop} {a b x y : List LocatedToken}
    {t u : LocatedToken} (ha : ∀ before t after, a = before ++ t :: after → ¬P before t) (ht : P a t)
    (hb : ∀ before t after, b = before ++ t :: after → ¬P before t) (hu : P b u)
    (h : a ++ t :: x = b ++ u :: y) : a = b ∧ t = u ∧ x = y := by
  rcases List.append_eq_append_iff.1 h with ⟨mid, rfl, hmid⟩ | ⟨mid, rfl, hmid⟩
  · cases mid with
    | nil => exact ⟨(List.append_nil a).symm, List.cons.inj hmid⟩
    | cons v mid =>
      obtain ⟨rfl, -⟩ := List.cons.inj hmid
      exact absurd ht (hb a t mid rfl)
  · cases mid with
    | nil =>
      obtain ⟨rfl, rfl⟩ := List.cons.inj hmid
      exact ⟨List.append_nil b, rfl, rfl⟩
    | cons v mid =>
      obtain ⟨rfl, -⟩ := List.cons.inj hmid
      exact absurd hu (ha b u mid rfl)

lemma item_not_unexpected {i : Item} (hi : i.IsWellFormed) (h : Unfinished brackets begun)
    (ht : Mismatched brackets t p) {x y : List LocatedToken} : i.tokens ++ x ≠ begun ++ t :: y := by
  intro hsame
  cases i with
  | semicolon location =>
    cases begun with
    | nil =>
      obtain ⟨rfl, -⟩ := List.cons.inj hsame
      obtain rfl := Token.punct.inj ht.1
      cases ht.2.1
    | cons u begun =>
      obtain ⟨rfl, -⟩ := List.cons.inj hsame
      exact h.start _ rfl rfl
  | declaration ts =>
    obtain ⟨before, e, rfl, hends⟩ := IsDeclaration.ends hi
    obtain ⟨opened, hbefore⟩ := IsDeclaration.unfinished hi (List.cons_ne_nil e [])
    rw [Item.tokens, List.append_assoc] at hsame
    obtain ⟨rfl, rfl, -⟩ := first_unique (not_isOver hbefore) (.inl hends) (not_isOver h)
      (.inr ⟨brackets, p, h.opened, ht⟩) hsame
    exact not_ends_of_mismatched h.opened ht hends

lemma item_not_unfinished {i : Item} (hi : i.IsWellFormed) (h : Unfinished brackets begun)
    {x : List LocatedToken} : i.tokens ++ x ≠ begun := by
  rintro rfl
  cases i with
  | semicolon location => exact h.start _ rfl rfl
  | declaration ts =>
    obtain ⟨before, e, rfl, hends⟩ := IsDeclaration.ends hi
    exact h.unended before e x (by simp [Item.tokens]) hends

end Over

lemma passed_unique {passed passed' : List LocatedToken} (h : Passed passed rest) (h' : Passed passed' rest')
    (hsame : passed ++ rest = passed' ++ rest') : passed = passed' := by
  cases h with
  | rested hbefore ht =>
    rw [List.append_assoc] at hsame
    cases h' with
    | rested hbefore' ht' =>
      rw [List.append_assoc] at hsame
      obtain ⟨rfl, rfl, -⟩ := first_unique hbefore ht hbefore' ht' hsame
      rfl
    | exhausted h' =>
      rw [List.append_nil] at hsame
      exact absurd ht (h' _ _ _ hsame.symm)
  | exhausted h =>
    rw [List.append_nil] at hsame
    cases h' with
    | rested hbefore' ht' =>
      rw [List.append_assoc] at hsame
      exact absurd ht' (h _ _ _ hsame)
    | exhausted h' => rw [hsame, List.append_nil]

/-- What a part is, is determined by the tokens from its first on. -/
lemma stands_unique {part part' : Part} (h : part.Stands stop rest) (h' : part'.Stands stop rest')
    (hsame : part.tokens ++ rest = part'.tokens ++ rest') : part = part' := by
  cases h with
  | item hi =>
    cases h' with
    | item hj => exact congrArg Part.item (item_unique hi hj hsame)
    | unexpected h' ht' =>
      rw [Part.tokens, Part.tokens, List.append_assoc] at hsame
      exact absurd hsame (item_not_unexpected hi h' ht')
    | incomplete h' _ hrest' =>
      rw [Part.tokens, Part.tokens, hrest', List.append_nil] at hsame
      exact absurd hsame (item_not_unfinished hi h')
  | @unexpected brackets begun passed t p h ht hpassed =>
    have hover : IsOver begun t := .inr ⟨brackets, p, h.opened, ht⟩
    rw [Part.tokens, List.append_assoc] at hsame
    cases h' with
    | item hj => exact absurd hsame.symm (item_not_unexpected hj h ht)
    | @unexpected brackets' begun' passed' t' p' h' ht' hpassed' =>
      have hover' : IsOver begun' t' := .inr ⟨brackets', p', h'.opened, ht'⟩
      rw [Part.tokens, List.append_assoc] at hsame
      obtain ⟨rfl, rfl, hbehind⟩ := first_unique (not_isOver h) hover (not_isOver h') hover' hsame
      obtain rfl := passed_unique hpassed hpassed' hbehind
      obtain rfl := Token.punct.inj (ht.1.symm.trans ht'.1)
      rfl
    | incomplete h' _ hrest' =>
      rw [Part.tokens, hrest', List.append_nil] at hsame
      exact absurd hover (not_isOver h' _ _ _ hsame.symm)
  | incomplete h hbegun hrest =>
    rw [Part.tokens, hrest, List.append_nil] at hsame
    cases h' with
    | item hj => exact absurd hsame.symm (item_not_unfinished hj h)
    | @unexpected brackets' begun' passed' t' p' h' ht' hpassed' =>
      have hover' : IsOver begun' t' := .inr ⟨brackets', p', h'.opened, ht'⟩
      rw [Part.tokens, List.append_assoc] at hsame
      exact absurd hover' (not_isOver h _ _ _ hsame)
    | incomplete h' hbegun' hrest' =>
      rw [Part.tokens, hrest', List.append_nil] at hsame
      subst hsame
      rw [open_unique h.opened h'.opened]

lemma part_tokens_ne_nil {part : Part} (h : part.Stands stop rest) : part.tokens ≠ [] := by
  cases h with
  | item hi => exact item_tokens_ne_nil hi
  | unexpected h ht hpassed => simp [Part.tokens]
  | incomplete h hbegun hrest => exact hbegun

theorem parted_unique (h : Parted stop ts parts) (h' : Parted stop ts parts') : parts = parts' := by
  induction h generalizing parts' with
  | nil =>
    generalize hnone : ([] : List LocatedToken) = us at h'
    cases h' with
    | nil => rfl
    | cons hpart' _ => exact absurd (List.append_eq_nil_iff.1 hnone.symm).1 (part_tokens_ne_nil hpart')
  | @cons part parts rest hpart hrest ih =>
    generalize hsame : part.tokens ++ rest = us at h'
    cases h' with
    | nil => exact absurd (List.append_eq_nil_iff.1 hsame).1 (part_tokens_ne_nil hpart)
    | cons hpart' hrest' =>
      obtain rfl := stands_unique hpart hpart' hsame
      obtain rfl := List.append_cancel_left hsame
      rw [ih hrest']

end Recovery

namespace Splitter

open Recovery

variable {stop : Location} {ts rest : List LocatedToken} {parts : List Part}

/-! ### The splitter along the parts -/

/-- What the part brings about. -/
def outcome? : Part → Option Outcome
  | .item i => i.declaration?.map .declared
  | .failure _ fault => some (.failed fault.1 fault.2)

lemma level_append (ts : List LocatedToken) (t : LocatedToken) :
    level (ts ++ [t]) = deepen (level ts) t := by
  rw [level, List.foldl_append]
  rfl

lemma skip_rests {t : LocatedToken} (h : Rests ts t) : skip (level ts) t.token = between := by
  rcases h with ⟨ht, hlevel⟩ | ⟨ht, hlevel⟩
  · simp [skip, ht, hlevel]
  · simp [skip, ht, hlevel, Punct.closer?]

lemma skip_restless {t : LocatedToken} (ht : t.token ≠ .eof) (h : ¬Rests ts t) :
    skip (level ts) t.token = skipping (level (ts ++ [t])) := by
  obtain ⟨hsemicolon, hbrace⟩ := not_or.1 h
  rw [level_append]
  unfold skip deepen
  cases htoken : t.token with
  | eof => exact absurd htoken ht
  | punct p =>
    have hsemicolon' : ¬(p = .semicolon ∧ level ts = 0) := by
      rintro ⟨rfl, hlevel⟩
      exact hsemicolon ⟨htoken, hlevel⟩
    have hbrace' : ¬(p = .rightBrace ∧ level ts = 1) := by
      rintro ⟨rfl, hlevel⟩
      exact hbrace ⟨htoken, hlevel⟩
    simp only [Bool.and_eq_true, decide_eq_true_eq, hsemicolon', hbrace', if_false]
    split
    · rfl
    · split <;> rfl
  | _ => rfl

/-- Up to a place of rest only the level counts. -/
lemma outcomes_restless (h : Restless ts) (heof : ∀ t ∈ ts, t.token ≠ .eof) (rest : List LocatedToken) :
    outcomes (skipping 0) (ts ++ rest) = outcomes (skipping (level ts)) rest := by
  induction ts using List.reverseRecOn generalizing rest with
  | nil => rfl
  | append_singleton ts t ih =>
    have hbefore : Restless ts := by
      rintro before u after rfl
      exact h before u (after ++ [t]) (by simp)
    rw [List.append_assoc, ih hbefore (fun u hu => heof u (by simp [hu])), List.singleton_append]
    apply outcomes_cons_none
    rw [feed, skip_restless (heof t (by simp)) (h ts t [] rfl)]

lemma outcomes_passed (h : Passed ts rest) (heof : ∀ t ∈ ts, t.token ≠ .eof) (stop : Location) :
    outcomes (skipping 0) (ts ++ (rest ++ [⟨stop, .eof⟩])) = outcomes between (rest ++ [⟨stop, .eof⟩]) := by
  cases h with
  | rested h ht =>
    rw [List.append_assoc, outcomes_restless h (fun u hu => heof u (by simp [hu])), List.singleton_append]
    apply outcomes_cons_none
    rw [feed, skip_rests ht]
  | exhausted h =>
    rw [outcomes_restless h heof]
    rfl

lemma outcomes_part {part : Part} (h : part.Stands stop rest) (heof : ∀ t ∈ part.tokens, t.token ≠ .eof) :
    outcomes between (part.tokens ++ (rest ++ [⟨stop, .eof⟩])) =
      (outcome? part).toList ++ outcomes between (rest ++ [⟨stop, .eof⟩]) := by
  cases h with
  | @item i h =>
    rw [Part.tokens, outcomes_item h heof, outcome?]
    cases i.declaration? <;> rfl
  | unexpected h ht hpassed =>
    rw [Part.tokens] at heof ⊢
    rw [List.append_assoc, List.cons_append, outcomes_mismatched h (fun u hu => heof u (by simp [hu])) ht,
      outcomes_passed hpassed (fun u hu => heof u (by simp [hu]))]
    rfl
  | @incomplete brackets begun h hbegun hrest =>
    subst hrest
    rw [List.nil_append, Part.tokens, outcomes_unended h heof hbegun]
    cases brackets <;> rfl

/-- The splitter finds the declarations and the faults of the parts, and nothing else. -/
theorem outcomes_parted (h : Parted stop ts parts) (heof : ∀ t ∈ ts, t.token ≠ .eof) :
    outcomes between (ts ++ [⟨stop, .eof⟩]) = parts.filterMap outcome? := by
  induction h with
  | nil => rfl
  | @cons part parts rest hpart hrest ih =>
    rw [List.append_assoc, outcomes_part hpart (fun t ht => heof t (List.mem_append_left _ ht)),
      ih fun t ht => heof t (List.mem_append_right _ ht)]
    cases houtcome : outcome? part <;> simp [houtcome]

end Splitter

end Shading
