import Shading.Proofs.Declaration.Division

/-!
# The splitter divides tokens

A splitter between two declarations finds the items of a division one by one, and the first fault
of tokens that cannot be divided is the first that it fails with.
-/

namespace Shading.Splitter

open Brackets Division

/-- All that the tokens bring about, one after the other. -/
def outcomes (s : Splitter) : List LocatedToken → List Outcome
  | [] => []
  | t :: ts =>
    let fed := s.feed t
    (if fed.2 = .none then [] else [fed.2]) ++ outcomes fed.1 ts

def Outcome.declared? : Outcome → Option Declaration
  | declared d => some d
  | _ => .none

def Outcome.failed? : Outcome → Option (LocatedToken × SyntaxError)
  | failed t cause => some (t, cause)
  | _ => .none

/-- Where the splitter stands behind the beginning of a declaration. -/
def midway (brackets : List OpenBracket) : List LocatedToken → Splitter
  | [] => between
  | t :: ts => within t.location ((t :: ts).map (·.token)) brackets

def place (begun : List LocatedToken) (t : LocatedToken) : Location :=
  (begun.head?.getD t).location

lemma outcomes_cons_none {s next : Splitter} {t : LocatedToken} (ts : List LocatedToken)
    (h : s.feed t = (next, .none)) : outcomes s (t :: ts) = outcomes next ts := by
  simp [outcomes, h]

lemma outcomes_cons_some {s next : Splitter} {t : LocatedToken} {outcome : Outcome}
    (ts : List LocatedToken) (h : s.feed t = (next, outcome)) (hsome : outcome ≠ .none) :
    outcomes s (t :: ts) = outcome :: outcomes next ts := by
  simp [outcomes, h, hsome]

lemma feed_midway {brackets : List OpenBracket} {begun : List LocatedToken} {t : LocatedToken}
    (h : Unfinished brackets begun) (hstart : begun = [] → t.token ≠ .punct .semicolon)
    (ht : t.token ≠ .eof) :
    (midway brackets begun).feed t =
      extend (place begun t) (begun.map (·.token)) brackets t := by
  cases begun with
  | nil =>
    obtain rfl : brackets = [] := open_unique h.opened (.none .nil)
    simp [midway, feed, place, ht, hstart rfl]
  | cons first begun => rfl

lemma midway_append {brackets : List OpenBracket} (begun : List LocatedToken) (t : LocatedToken) :
    midway brackets (begun ++ [t]) =
      within (place begun t) (begun.map (·.token) ++ [t.token]) brackets := by
  cases begun with
  | nil => rfl
  | cons first begun => simp [midway, place]

lemma declaration?_append (begun : List LocatedToken) (t : LocatedToken) :
    (Item.declaration (begun ++ [t])).declaration? =
      some ⟨place begun t, begun.map (·.token) ++ [t.token]⟩ := by
  cases begun with
  | nil => rfl
  | cons first begun => simp [Item.declaration?, place]

/-! One more token within a declaration. -/

section Extend

variable {location : Location} {tokens : List Token} {brackets : List OpenBracket}
  {t : LocatedToken}

lemma extend_ends
    (h : (t.token = .punct .semicolon ∧ brackets = []) ∨
      (t.token = .punct .rightBrace ∧ scanToken brackets t = some [])) :
    extend location tokens brackets t = (between, .declared ⟨location, tokens ++ [t.token]⟩) := by
  rcases h with ⟨ht, rfl⟩ | ⟨ht, hscan⟩
  · simp [extend, ht, Punct.isCloser]
  · cases brackets with
    | nil => simp [scanToken, ht, Punct.closer?, Punct.isCloser] at hscan
    | cons innermost outer =>
      rw [scanToken_closer ht rfl] at hscan
      split at hscan
      next hpartner =>
        obtain rfl := Option.some.inj hscan
        simp [extend, close, ht, Punct.isCloser, hpartner]
      · simp at hscan

lemma extend_mismatched {p : Punct} (h : Mismatched brackets t p) :
    extend location tokens brackets t = (skipping 0, .failed t (.unexpected p)) := by
  obtain ⟨ht, hcloser, hb⟩ := h
  have hfailed : (⟨t.location, .punct p⟩ : LocatedToken) = t := by rw [← ht]
  unfold extend
  rw [ht]
  dsimp only
  rw [if_pos hcloser]
  unfold close
  cases brackets with
  | nil => simp [hfailed]
  | cons innermost outer => simp [hb innermost rfl, hfailed]

lemma extend_opener {p : Punct} (ht : t.token = .punct p) (hp : p.closer?.isSome = true) :
    extend location tokens brackets t =
      (within location (tokens ++ [t.token]) (⟨t.location, p⟩ :: brackets), .none) := by
  have hcloser : p.isCloser = false := by
    cases p <;> first | rfl | simp [Punct.closer?] at hp
  have hsemi : p ≠ .semicolon := by
    rintro rfl
    simp [Punct.closer?] at hp
  simp [extend, ht, hcloser, hsemi, hp]

lemma extend_closer {p : Punct} (ht : t.token = .punct p) (hp : p.isCloser = true)
    {next : List OpenBracket} (hscan : scanToken brackets t = some next)
    (hlast : ¬(p = .rightBrace ∧ next = [])) :
    extend location tokens brackets t = (within location (tokens ++ [t.token]) next, .none) := by
  cases brackets with
  | nil => simp [scanToken, ht, hp, closer?_of_isCloser hp] at hscan
  | cons innermost outer =>
    rw [scanToken_closer ht hp] at hscan
    split at hscan
    next hpartner =>
      obtain rfl := Option.some.inj hscan
      simpa [extend, close, ht, hp, hpartner] using hlast
    · simp at hscan

lemma extend_plain (ht : t.token ≠ .eof) (hplain : Plain t)
    (hlone : ¬(t.token = .punct .semicolon ∧ brackets = [])) :
    extend location tokens brackets t =
      (within location (tokens ++ [t.token]) brackets, .none) := by
  unfold extend
  cases htoken : t.token with
  | eof => exact absurd htoken ht
  | punct p =>
    obtain ⟨hopener, hcloser⟩ := hplain p htoken
    simpa [hopener, hcloser, htoken] using hlone
  | _ => rfl

lemma extend_continues {next : List OpenBracket} (ht : t.token ≠ .eof)
    (hends : ¬((t.token = .punct .semicolon ∧ brackets = []) ∨
      (t.token = .punct .rightBrace ∧ scanToken brackets t = some [])))
    (hscan : scanToken brackets t = some next) :
    extend location tokens brackets t = (within location (tokens ++ [t.token]) next, .none) := by
  obtain ⟨hlone, hbrace⟩ := not_or.1 hends
  by_cases hplain : Plain t
  · rw [scanToken_plain hplain] at hscan
    obtain rfl := Option.some.inj hscan
    exact extend_plain ht hplain hlone
  · obtain ⟨p, htoken, hbracket⟩ : ∃ p, t.token = .punct p ∧
        (p.closer?.isSome = true ∨ p.isCloser = true) := by
      simpa [Plain, Option.isSome_iff_ne_none, imp_iff_not_or, or_comm, and_comm] using hplain
    rcases hbracket with hopener | hcloser
    · rw [scanToken_opener htoken hopener] at hscan
      obtain rfl := Option.some.inj hscan
      exact extend_opener htoken hopener
    · apply extend_closer htoken hcloser hscan
      rintro ⟨rfl, rfl⟩
      exact hbrace ⟨htoken, hscan⟩

end Extend

/-! The splitter along a division. -/

lemma outcomes_unfinished {brackets : List OpenBracket} {begun : List LocatedToken}
    (h : Unfinished brackets begun) (heof : ∀ t ∈ begun, t.token ≠ .eof)
    (rest : List LocatedToken) :
    outcomes between (begun ++ rest) = outcomes (midway brackets begun) rest := by
  induction begun using List.reverseRecOn generalizing brackets rest with
  | nil => rfl
  | append_singleton begun t ih =>
    obtain ⟨before, hbefore, hscan, hends, hstart⟩ := h.retract
    have ht : t.token ≠ .eof := heof t (by simp)
    rw [List.append_assoc, ih hbefore (fun u hu => heof u (by simp [hu])), List.singleton_append]
    apply outcomes_cons_none
    rw [feed_midway hbefore hstart ht, midway_append]
    exact extend_continues ht (fun h => hends ((ends_iff hbefore.opened).2 h)) hscan

lemma outcomes_declaration {ts : List LocatedToken} (h : IsDeclaration ts)
    (heof : ∀ t ∈ ts, t.token ≠ .eof) (rest : List LocatedToken) :
    outcomes between (ts ++ rest) =
      (Item.declaration ts).declaration?.toList.map .declared ++ outcomes between rest := by
  obtain ⟨begun, t, rfl, hends⟩ := h.ends
  obtain ⟨brackets, hbegun⟩ := h.unfinished (by simp)
  have ht : t.token ≠ .eof := heof t (by simp)
  have hstart : begun = [] → t.token ≠ .punct .semicolon := by
    rintro rfl
    exact h.start t rfl
  rw [declaration?_append, List.append_assoc,
    outcomes_unfinished hbegun (fun u hu => heof u (by simp [hu])), List.singleton_append]
  apply outcomes_cons_some _ _ (by simp)
  rw [feed_midway hbegun hstart ht]
  exact extend_ends ((ends_iff hbegun.opened).1 hends)

lemma outcomes_item {item : Item} (h : item.IsWellFormed) (heof : ∀ t ∈ item.tokens, t.token ≠ .eof)
    (rest : List LocatedToken) :
    outcomes between (item.tokens ++ rest) =
      item.declaration?.toList.map .declared ++ outcomes between rest := by
  cases item with
  | semicolon location =>
    apply outcomes_cons_none
    rfl
  | declaration ts => exact outcomes_declaration h heof rest

lemma outcomes_items {items : List Item} (h : ∀ item ∈ items, item.IsWellFormed)
    (heof : ∀ t ∈ items.flatMap Item.tokens, t.token ≠ .eof) (rest : List LocatedToken) :
    outcomes between (items.flatMap Item.tokens ++ rest) =
      (items.filterMap Item.declaration?).map .declared ++ outcomes between rest := by
  induction items with
  | nil => rfl
  | cons item items ih =>
    rw [List.flatMap_cons] at heof
    have hitem : ∀ t ∈ item.tokens, t.token ≠ .eof := fun t ht => heof t (List.mem_append_left _ ht)
    rw [List.flatMap_cons, List.append_assoc, outcomes_item (h item List.mem_cons_self) hitem,
      ih (fun i hi => h i (List.mem_cons_of_mem _ hi)) (fun t ht => heof t (by simp_all))]
    cases hd : item.declaration? <;> simp [hd]

theorem outcomes_division {ts : List LocatedToken} (d : Division ts)
    (heof : ∀ t ∈ ts, t.token ≠ .eof) (rest : List LocatedToken) :
    outcomes between (ts ++ rest) = d.declarations.map .declared ++ outcomes between rest := by
  obtain ⟨items, h, rfl⟩ := d
  exact outcomes_items h heof rest

lemma outcomes_mismatched {brackets : List OpenBracket} {begun : List LocatedToken} {t : LocatedToken}
    {p : Punct} (h : Unfinished brackets begun) (heof : ∀ t ∈ begun, t.token ≠ .eof)
    (ht : Mismatched brackets t p) (rest : List LocatedToken) :
    outcomes between (begun ++ t :: rest) = .failed t (.unexpected p) :: outcomes (skipping 0) rest := by
  have htoken : t.token = .punct p := ht.1
  have hstart : begun = [] → t.token ≠ .punct .semicolon := by
    rintro - hsemi
    rw [htoken] at hsemi
    obtain rfl := Token.punct.inj hsemi
    cases ht.2.1
  rw [outcomes_unfinished h heof]
  apply outcomes_cons_some _ _ (by simp)
  rw [feed_midway h hstart (by rw [htoken]; simp)]
  exact extend_mismatched ht

lemma outcomes_unended {brackets : List OpenBracket} {begun : List LocatedToken}
    (h : Unfinished brackets begun) (heof : ∀ t ∈ begun, t.token ≠ .eof) (hbegun : begun ≠ [])
    (stop : Location) : outcomes between (begun ++ [⟨stop, .eof⟩]) = [atEnd stop brackets] := by
  rw [outcomes_unfinished h heof]
  cases begun with
  | nil => exact absurd rfl hbegun
  | cons first begun => cases brackets <;> rfl

/-- The first fault of the tokens is the first that the splitter fails with. -/
theorem outcomes_fault {stop : Location} {ts : List LocatedToken} {t : LocatedToken}
    {cause : SyntaxError} (h : FirstFault stop ts t cause) (heof : ∀ t ∈ ts, t.token ≠ .eof) :
    ∃ (ds : List Declaration) (later : List Outcome), outcomes between (ts ++ [⟨stop, .eof⟩]) =
      ds.map .declared ++ .failed t cause :: later := by
  cases h with
  | @unexpected complete begun rest brackets t p d hbegun ht =>
    refine ⟨d.declarations, outcomes (skipping 0) (rest ++ [⟨stop, .eof⟩]), ?_⟩
    rw [List.append_assoc, outcomes_division d (fun u hu => heof u (by simp [hu])),
      List.append_assoc, List.cons_append,
      outcomes_mismatched hbegun (fun u hu => heof u (by simp [hu])) ht]
  | @unclosed complete begun b outer d hbegun =>
    have hne := hbegun.ne_nil
    refine ⟨d.declarations, [], ?_⟩
    rw [List.append_assoc, outcomes_division d (fun u hu => heof u (by simp [hu])),
      outcomes_unended hbegun (fun u hu => heof u (by simp [hu])) hne]
    rfl
  | @missingSemicolon complete begun d hbegun hne =>
    refine ⟨d.declarations, [], ?_⟩
    rw [List.append_assoc, outcomes_division d (fun u hu => heof u (by simp [hu])),
      outcomes_unended hbegun (fun u hu => heof u (by simp [hu])) hne]
    rfl

end Shading.Splitter
