import Mathlib
import Shading.Proofs.Declaration.Brackets

/-!
# Divisions into declarations

A declaration ends at its first semicolon outside all brackets, or its first brace that leaves no
bracket open. Tokens can be divided into declarations and lone semicolons in at most one way; if
they cannot be divided at all, one fault comes first.
-/

namespace Shading

open Brackets

namespace Division

/-- A declaration that has come to `before` ends with `t`. -/
def Ends (before : List LocatedToken) (t : LocatedToken) : Prop :=
  (t.token = .punct .semicolon ∧ Balanced before) ∨
    (t.token = .punct .rightBrace ∧ Balanced (before ++ [t]))

/-- The tokens of one declaration. -/
structure IsDeclaration (ts : List LocatedToken) : Prop where
  start : ∀ t ∈ ts.head?, t.token ≠ .punct .semicolon
  balanced : Balanced ts
  ends : ∃ before t, ts = before ++ [t] ∧ Ends before t
  first : ∀ before t after, ts = before ++ t :: after → Ends before t → after = []

inductive Item
  | semicolon (location : Location)
  | declaration (ts : List LocatedToken)

def Item.tokens : Item → List LocatedToken
  | semicolon location => [⟨location, .punct .semicolon⟩]
  | declaration ts => ts

def Item.IsWellFormed : Item → Prop
  | semicolon _ => True
  | declaration ts => IsDeclaration ts

/-- The declaration of these tokens: all of them, at the place of the first. -/
def Item.declaration? : Item → Option Declaration
  | semicolon _ => none
  | declaration ts => ts.head?.map fun t => ⟨t.location, ts.map (·.token)⟩

end Division

/-- A way to divide tokens into declarations and lone semicolons. -/
structure Division (ts : List LocatedToken) where
  items : List Division.Item
  wellFormed : ∀ item ∈ items, item.IsWellFormed
  covers : items.flatMap Division.Item.tokens = ts

namespace Division

def declarations {ts : List LocatedToken} (d : Division ts) : List Declaration :=
  d.items.filterMap Item.declaration?

/-- The beginning of a declaration that has not ended, with its open brackets. -/
structure Unfinished (brackets : List OpenBracket) (ts : List LocatedToken) : Prop where
  start : ∀ t ∈ ts.head?, t.token ≠ .punct .semicolon
  opened : Open brackets ts
  unended : ∀ before t after, ts = before ++ t :: after → ¬Ends before t

/-- The first fault of tokens that end at `stop`, with the token that is shown for it: a closing
bracket without its partner, an open bracket, or a missing semicolon. -/
inductive FirstFault (stop : Location) : List LocatedToken → LocatedToken → SyntaxError → Prop
  | unexpected {complete begun rest : List LocatedToken} {brackets : List OpenBracket}
      {t : LocatedToken} {p : Punct} (d : Division complete) (h : Unfinished brackets begun)
      (ht : Mismatched brackets t p) :
      FirstFault stop (complete ++ (begun ++ t :: rest)) t (.unexpected p)
  | unclosed {complete begun : List LocatedToken} {b : OpenBracket}
      {outer : List OpenBracket} (d : Division complete) (h : Unfinished (b :: outer) begun) :
      FirstFault stop (complete ++ begun) ⟨b.location, .eof⟩ (.unclosed b.bracket)
  | missingSemicolon {complete begun : List LocatedToken} (d : Division complete)
      (h : Unfinished [] begun) (hbegun : begun ≠ []) :
      FirstFault stop (complete ++ begun) ⟨stop, .eof⟩ .missingSemicolon

lemma IsDeclaration.ne_nil {ts : List LocatedToken} (h : IsDeclaration ts) : ts ≠ [] := by
  obtain ⟨before, t, rfl, _⟩ := h.ends
  simp

lemma ends_iff {brackets : List OpenBracket} {ts : List LocatedToken} {t : LocatedToken}
    (h : Open brackets ts) :
    Ends ts t ↔ (t.token = .punct .semicolon ∧ brackets = []) ∨
      (t.token = .punct .rightBrace ∧ scanToken brackets t = some []) := by
  have hbefore : Balanced ts ↔ brackets = [] := by
    constructor
    · intro hts
      exact open_unique h (.none hts)
    · rintro rfl
      exact open_nil_iff.1 h
  have hthrough : Balanced (ts ++ [t]) ↔ scanToken brackets t = some [] := by
    constructor
    · intro hts
      have hscan := scan_balanced hts []
      rw [scan_append, scan_open h, Option.bind_some, scan] at hscan
      cases hnext : scanToken brackets t with
      | none => simp [hnext] at hscan
      | some next => simpa [hnext, scan] using hscan
    · intro hscan
      exact open_nil_iff.1 (open_scanToken h hscan)
  rw [Ends, hbefore, hthrough]

lemma unfinished_nil : Unfinished [] [] where
  start := by simp
  opened := .none .nil
  unended := by simp

lemma Unfinished.ne_nil {b : OpenBracket} {outer : List OpenBracket} {ts : List LocatedToken}
    (h : Unfinished (b :: outer) ts) : ts ≠ [] := by
  rintro rfl
  cases open_unique h.opened (.none .nil)

lemma start_append {ts : List LocatedToken} {t : LocatedToken}
    (h : ∀ u ∈ ts.head?, u.token ≠ .punct .semicolon)
    (ht : ts = [] → t.token ≠ .punct .semicolon) :
    ∀ u ∈ (ts ++ [t]).head?, u.token ≠ .punct .semicolon := by
  cases ts with
  | nil => simpa using ht
  | cons u ts => simpa using h

lemma split_append_singleton {ts before after : List LocatedToken} {t u : LocatedToken}
    (h : ts ++ [t] = before ++ u :: after) :
    (ts = before ∧ t = u ∧ after = []) ∨ ∃ after', ts = before ++ u :: after' := by
  rcases List.eq_nil_or_concat after with rfl | ⟨after', last, rfl⟩
  · obtain ⟨rfl, hu⟩ := List.append_inj' h rfl
    exact .inl ⟨rfl, by simpa using hu, rfl⟩
  · rw [List.concat_eq_append, ← List.cons_append, ← List.append_assoc] at h
    exact .inr ⟨after', (List.append_inj' h rfl).1⟩

lemma Unfinished.declaration {brackets : List OpenBracket} {ts : List LocatedToken}
    {t : LocatedToken} (h : Unfinished brackets ts) (hstart : ts = [] → t.token ≠ .punct .semicolon)
    (ht : Ends ts t) : IsDeclaration (ts ++ [t]) where
  start := start_append h.start hstart
  balanced := by
    rcases ht with ⟨hsemi, hts⟩ | ⟨_, hts⟩
    · refine balanced_append hts (.plain ?_ .nil)
      exact plain_of_not_bracket hsemi rfl rfl
    · exact hts
  ends := ⟨ts, t, rfl, ht⟩
  first := by
    intro before u after heq hu
    rcases split_append_singleton heq with ⟨_, _, hafter⟩ | ⟨after', hts⟩
    · exact hafter
    · exact absurd hu (h.unended before u after' hts)

lemma Unfinished.extend {brackets next : List OpenBracket} {ts : List LocatedToken}
    {t : LocatedToken} (h : Unfinished brackets ts) (hstart : ts = [] → t.token ≠ .punct .semicolon)
    (ht : ¬Ends ts t) (hscan : scanToken brackets t = some next) :
    Unfinished next (ts ++ [t]) where
  start := start_append h.start hstart
  opened := open_scanToken h.opened hscan
  unended := by
    intro before u after heq hu
    rcases split_append_singleton heq with ⟨rfl, rfl, _⟩ | ⟨after', hts⟩
    · exact ht hu
    · exact h.unended before u after' hts hu

lemma IsDeclaration.unfinished {ts after : List LocatedToken}
    (h : IsDeclaration (ts ++ after)) (hafter : after ≠ []) :
    ∃ brackets, Unfinished brackets ts := by
  obtain ⟨brackets, hopen, _⟩ := open_prefix (.none h.balanced)
  refine ⟨brackets, ?_, hopen, ?_⟩
  · intro t ht
    exact h.start t (List.mem_head?_append_of_mem_head? ht)
  · rintro before t rest rfl ht
    have hrest := h.first before t (rest ++ after) (by simp) ht
    exact hafter (List.append_eq_nil_iff.1 hrest).2

lemma Unfinished.retract {brackets : List OpenBracket} {ts : List LocatedToken}
    {t : LocatedToken} (h : Unfinished brackets (ts ++ [t])) :
    ∃ before, Unfinished before ts ∧ scanToken before t = some brackets ∧ ¬Ends ts t ∧
      (ts = [] → t.token ≠ .punct .semicolon) := by
  obtain ⟨before, hopen, hscan⟩ := open_prefix h.opened
  refine ⟨before, ⟨?_, hopen, ?_⟩, ?_, h.unended ts t [] rfl, ?_⟩
  · intro u hu
    exact h.start u (List.mem_head?_append_of_mem_head? hu)
  · rintro first u after rfl
    exact h.unended first u (after ++ [t]) (by simp)
  · simpa [scan] using hscan
  · rintro rfl
    exact h.start t rfl

/-! A division is unique. -/

lemma declaration_prefix_eq {a b a' b' : List LocatedToken} (ha : IsDeclaration a)
    (hb : IsDeclaration b) (h : a ++ a' = b ++ b') (hle : a.length ≤ b.length) : a = b := by
  obtain ⟨rest, rfl⟩ : a <+: b := by
    refine List.prefix_of_prefix_length_le (List.prefix_append a a') ?_ hle
    rw [h]
    exact List.prefix_append b b'
  obtain ⟨before, t, rfl, ht⟩ := ha.ends
  have hrest : rest = [] := hb.first before t rest (by simp) ht
  rw [hrest, List.append_nil]

lemma declaration_unique {a b a' b' : List LocatedToken} (ha : IsDeclaration a)
    (hb : IsDeclaration b) (h : a ++ a' = b ++ b') : a = b := by
  rcases Nat.le_total a.length b.length with hle | hle
  · exact declaration_prefix_eq ha hb h hle
  · exact (declaration_prefix_eq hb ha h.symm hle).symm

lemma item_tokens_ne_nil {item : Item} (h : item.IsWellFormed) : item.tokens ≠ [] := by
  cases item with
  | semicolon location => simp [Item.tokens]
  | declaration ts => exact IsDeclaration.ne_nil h

lemma item_unique {i j : Item} {a b : List LocatedToken} (hi : i.IsWellFormed)
    (hj : j.IsWellFormed) (h : i.tokens ++ a = j.tokens ++ b) : i = j := by
  have semicolon_start {location : Location} {ts a b : List LocatedToken}
      (hts : IsDeclaration ts) (h : ⟨location, .punct .semicolon⟩ :: a = ts ++ b) : False := by
    cases ts with
    | nil => exact hts.ne_nil rfl
    | cons t ts =>
      rw [List.cons_append, List.cons.injEq] at h
      exact hts.start t rfl (by rw [← h.1])
  cases i with
  | semicolon l =>
    cases j with
    | semicolon m =>
      simp only [Item.tokens, List.cons_append, List.cons.injEq, LocatedToken.mk.injEq] at h
      rw [h.1.1]
    | declaration ts => exact (semicolon_start hj h).elim
  | declaration ts =>
    cases j with
    | semicolon m => exact (semicolon_start hi h.symm).elim
    | declaration us => rw [declaration_unique hi hj h]

lemma items_unique {is js : List Item} (hi : ∀ i ∈ is, i.IsWellFormed)
    (hj : ∀ j ∈ js, j.IsWellFormed)
    (h : is.flatMap Item.tokens = js.flatMap Item.tokens) : is = js := by
  induction is generalizing js with
  | nil =>
    cases js with
    | nil => rfl
    | cons j js =>
      have hne := item_tokens_ne_nil (hj j List.mem_cons_self)
      simp [hne] at h
  | cons i is ih =>
    have hi' := hi i List.mem_cons_self
    cases js with
    | nil => simp [item_tokens_ne_nil hi'] at h
    | cons j js =>
      rw [List.flatMap_cons, List.flatMap_cons] at h
      obtain rfl := item_unique hi' (hj j List.mem_cons_self) h
      rw [ih (fun i hmem => hi i (List.mem_cons_of_mem _ hmem))
        (fun j hmem => hj j (List.mem_cons_of_mem _ hmem)) (List.append_cancel_left h)]

instance (ts : List LocatedToken) : Subsingleton (Division ts) where
  allEq d e := by
    obtain ⟨is, hi, his⟩ := d
    obtain ⟨js, hj, hjs⟩ := e
    obtain rfl := items_unique hi hj (his.trans hjs.symm)
    rfl

/-! Tokens can be divided, or have a first fault. -/

def nil : Division [] where
  items := []
  wellFormed := by simp
  covers := rfl

def snoc {ts : List LocatedToken} (d : Division ts) (item : Item) (h : item.IsWellFormed) :
    Division (ts ++ item.tokens) where
  items := d.items ++ [item]
  wellFormed := by
    intro i hi
    rcases List.mem_append.1 hi with hi | hi
    · exact d.wellFormed i hi
    · obtain rfl := List.mem_singleton.1 hi
      exact h
  covers := by
    rw [List.flatMap_append, d.covers, List.flatMap_singleton]

/-- Tokens whose brackets match so far are complete items and the beginning of one more. -/
inductive Progress (ts : List LocatedToken) : Prop
  | sound {complete begun : List LocatedToken} {brackets : List OpenBracket}
      (d : Division complete) (h : Unfinished brackets begun) (hts : ts = complete ++ begun)
  | faulty {t : LocatedToken} {cause : SyntaxError}
      (h : ∀ stop rest, FirstFault stop (ts ++ rest) t cause)

theorem progress (ts : List LocatedToken) : Progress ts := by
  induction ts using List.reverseRecOn with
  | nil => exact .sound nil unfinished_nil rfl
  | append_singleton ts t ih =>
    cases ih with
    | @faulty u cause h =>
      have hrest : ∀ stop rest, FirstFault stop (ts ++ [t] ++ rest) u cause := by
        intro stop rest
        rw [List.append_assoc]
        exact h stop _
      exact .faulty hrest
    | @sound complete begun brackets d h hts =>
      subst hts
      by_cases hlone : begun = [] ∧ t.token = .punct .semicolon
      · obtain ⟨rfl, ht⟩ := hlone
        have hitem : (Item.semicolon t.location).tokens = [t] := by
          simp only [Item.tokens, ← ht]
        refine .sound (d.snoc (.semicolon t.location) trivial) unfinished_nil ?_
        rw [hitem, List.append_nil, List.append_nil]
      · have hstart : begun = [] → t.token ≠ .punct .semicolon := fun h ht => hlone ⟨h, ht⟩
        by_cases hends : Ends begun t
        · refine .sound (d.snoc (.declaration _) (h.declaration hstart hends)) unfinished_nil ?_
          simp [Item.tokens]
        · cases hscan : scanToken brackets t with
          | some next =>
            exact .sound d (h.extend hstart hends hscan) (List.append_assoc _ _ _)
          | none =>
            obtain ⟨p, hp⟩ := scanToken_eq_none_iff.1 hscan
            have hrest : ∀ stop rest,
                FirstFault stop (complete ++ begun ++ [t] ++ rest) t (.unexpected p) := by
              intro stop rest
              rw [List.append_assoc, List.append_assoc]
              exact .unexpected d h hp
            exact .faulty hrest

theorem division_or_fault (stop : Location) (ts : List LocatedToken) :
    Nonempty (Division ts) ∨ ∃ t cause, FirstFault stop ts t cause := by
  cases progress ts with
  | faulty h =>
    have h := h stop []
    rw [List.append_nil] at h
    exact .inr ⟨_, _, h⟩
  | @sound complete begun brackets d h hts =>
    subst hts
    cases brackets with
    | cons b outer => exact .inr ⟨_, _, .unclosed d h⟩
    | nil =>
      by_cases hbegun : begun = []
      · subst hbegun
        rw [List.append_nil]
        exact .inl ⟨d⟩
      · exact .inr ⟨_, _, .missingSemicolon d h hbegun⟩

end Division

end Shading
