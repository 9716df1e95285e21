import Mathlib
import Shading.Declaration

/-!
# Nested brackets

Tokens are balanced if every bracket in them has its partner and no two pairs overlap. Behind any
tokens that can still become balanced some brackets are open, and these are unique: a scan that
keeps the open brackets on a stack finds them.
-/

namespace Shading.Brackets

/-- The token is no bracket. -/
def Plain (t : LocatedToken) : Prop :=
  ∀ p, t.token = .punct p → p.closer? = none ∧ p.isCloser = false

/-- The brackets are correctly nested and matched. -/
inductive Balanced : List LocatedToken → Prop
  | nil : Balanced []
  | plain {t : LocatedToken} {ts : List LocatedToken} (ht : Plain t) (hts : Balanced ts) :
      Balanced (t :: ts)
  | group {o c : LocatedToken} {p q : Punct} {inner ts : List LocatedToken}
      (ho : o.token = .punct p) (hc : c.token = .punct q) (hpq : p.closer? = some q)
      (hinner : Balanced inner) (hts : Balanced ts) : Balanced (o :: (inner ++ c :: ts))

/-- The brackets that are open behind the tokens, the innermost first. -/
inductive Open : List OpenBracket → List LocatedToken → Prop
  | none {ts : List LocatedToken} (hts : Balanced ts) : Open [] ts
  | more {brackets : List OpenBracket} {ts body : List LocatedToken} {o : LocatedToken}
      {p : Punct} (hts : Open brackets ts) (ho : o.token = .punct p)
      (hp : p.closer?.isSome = true) (hbody : Balanced body) :
      Open (⟨o.location, p⟩ :: brackets) (ts ++ o :: body)

/-- A closing bracket that is not the partner of the innermost open one. -/
def Mismatched (brackets : List OpenBracket) (t : LocatedToken) (p : Punct) : Prop :=
  t.token = .punct p ∧ p.isCloser = true ∧ ∀ b ∈ brackets.head?, b.bracket.closer? ≠ some p

lemma isCloser_of_closer? {p q : Punct} (h : p.closer? = some q) : q.isCloser = true := by
  cases p <;> simp only [Punct.closer?, Option.some.injEq, reduceCtorEq] at h <;> subst h <;> rfl

lemma closer?_of_isCloser {p : Punct} (h : p.isCloser = true) : p.closer? = none := by
  cases p <;> first | rfl | simp [Punct.isCloser] at h

lemma balanced_append {a b : List LocatedToken} (ha : Balanced a) (hb : Balanced b) :
    Balanced (a ++ b) := by
  induction ha with
  | nil => exact hb
  | plain ht _ ih => exact .plain ht ih
  | group ho hc hpq hinner _ _ ih =>
    rw [List.cons_append, List.append_assoc]
    exact .group ho hc hpq hinner ih

lemma open_append {brackets : List OpenBracket} {ts body : List LocatedToken}
    (h : Open brackets ts) (hbody : Balanced body) : Open brackets (ts ++ body) := by
  cases h with
  | none hts => exact .none (balanced_append hts hbody)
  | more hts ho hp hinner =>
    rw [List.append_assoc, List.cons_append]
    exact .more hts ho hp (balanced_append hinner hbody)

lemma open_nil_iff {ts : List LocatedToken} : Open [] ts ↔ Balanced ts := by
  constructor
  · intro h
    cases h with
    | none hts => exact hts
  · exact .none

/-- The open brackets behind one more token, unless it is a bracket without its partner. -/
def scanToken (brackets : List OpenBracket) (t : LocatedToken) : Option (List OpenBracket) :=
  match t.token with
  | .punct p =>
    if p.closer?.isSome then some (⟨t.location, p⟩ :: brackets)
    else if p.isCloser then
      match brackets with
      | [] => none
      | b :: outer => if b.bracket.closer? = some p then some outer else none
    else some brackets
  | _ => some brackets

def scan (brackets : List OpenBracket) : List LocatedToken → Option (List OpenBracket)
  | [] => some brackets
  | t :: ts => (scanToken brackets t).bind (scan · ts)

lemma scan_append (brackets : List OpenBracket) (a b : List LocatedToken) :
    scan brackets (a ++ b) = (scan brackets a).bind (scan · b) := by
  induction a generalizing brackets with
  | nil => rfl
  | cons t a ih =>
    rw [List.cons_append, scan, scan]
    cases scanToken brackets t with
    | none => rfl
    | some outer => exact ih outer

lemma scanToken_plain {t : LocatedToken} (ht : Plain t) (brackets : List OpenBracket) :
    scanToken brackets t = some brackets := by
  unfold scanToken
  split
  next p hp => simp [ht p hp]
  · rfl

lemma scanToken_opener {o : LocatedToken} {p : Punct} (ho : o.token = .punct p)
    (hp : p.closer?.isSome = true) (brackets : List OpenBracket) :
    scanToken brackets o = some (⟨o.location, p⟩ :: brackets) := by
  simp [scanToken, ho, hp]

lemma scanToken_closer {c : LocatedToken} {q : Punct} (hc : c.token = .punct q)
    (hq : q.isCloser = true) (b : OpenBracket) (outer : List OpenBracket) :
    scanToken (b :: outer) c = if b.bracket.closer? = some q then some outer else none := by
  simp [scanToken, hc, hq, closer?_of_isCloser hq]

lemma scan_balanced {ts : List LocatedToken} (h : Balanced ts) (brackets : List OpenBracket) :
    scan brackets ts = some brackets := by
  induction h generalizing brackets with
  | nil => rfl
  | plain ht _ ih =>
    rw [scan, scanToken_plain ht]
    exact ih brackets
  | group ho hc hpq _ _ ihInner ih =>
    rw [scan, scanToken_opener ho (by rw [hpq]; rfl), Option.bind_some, scan_append, ihInner,
      Option.bind_some, scan, scanToken_closer hc (isCloser_of_closer? hpq), if_pos hpq]
    exact ih brackets

lemma scan_open {brackets : List OpenBracket} {ts : List LocatedToken}
    (h : Open brackets ts) : scan [] ts = some brackets := by
  induction h with
  | none hts => exact scan_balanced hts []
  | more _ ho hp hbody ih =>
    rw [scan_append, ih, Option.bind_some, scan, scanToken_opener ho hp, Option.bind_some]
    exact scan_balanced hbody _

lemma open_unique {brackets brackets' : List OpenBracket} {ts : List LocatedToken}
    (h : Open brackets ts) (h' : Open brackets' ts) : brackets = brackets' := by
  have hscan := scan_open h
  rw [scan_open h'] at hscan
  exact (Option.some.inj hscan).symm

lemma plain_of_not_bracket {t : LocatedToken} {p : Punct} (ht : t.token = .punct p)
    (ho : p.closer? = none) (hc : p.isCloser = false) : Plain t := by
  intro q hq
  obtain rfl : p = q := by rw [ht] at hq; exact Token.punct.inj hq
  exact ⟨ho, hc⟩

lemma open_scanToken {brackets next : List OpenBracket} {ts : List LocatedToken}
    {t : LocatedToken} (h : Open brackets ts) (hscan : scanToken brackets t = some next) :
    Open next (ts ++ [t]) := by
  cases htoken : t.token with
  | punct p =>
    by_cases hp : p.closer?.isSome = true
    · rw [scanToken_opener htoken hp] at hscan
      obtain rfl := Option.some.inj hscan
      exact .more h htoken hp .nil
    · have hopen : p.closer? = none := by simpa using hp
      by_cases hc : p.isCloser = true
      · cases h with
        | none hts => simp [scanToken, htoken, hopen, hc] at hscan
        | more hts ho hq hbody =>
          rw [scanToken_closer htoken hc] at hscan
          split at hscan
          next hpartner =>
            obtain rfl := Option.some.inj hscan
            rw [List.append_assoc, List.cons_append]
            exact open_append hts (.group ho htoken hpartner hbody .nil)
          · simp at hscan
      · have hplain := plain_of_not_bracket htoken hopen (by simpa using hc)
        rw [scanToken_plain hplain] at hscan
        obtain rfl := Option.some.inj hscan
        exact open_append h (.plain hplain .nil)
  | _ =>
    have hplain : Plain t := by
      intro q hq
      rw [htoken] at hq
      cases hq
    rw [scanToken_plain hplain] at hscan
    obtain rfl := Option.some.inj hscan
    exact open_append h (.plain hplain .nil)

theorem open_iff_scan {brackets : List OpenBracket} {ts : List LocatedToken} :
    Open brackets ts ↔ scan [] ts = some brackets := by
  constructor
  · exact scan_open
  · intro h
    induction ts using List.reverseRecOn generalizing brackets with
    | nil =>
      obtain rfl := Option.some.inj h
      exact .none .nil
    | append_singleton ts t ih =>
      rw [scan_append] at h
      obtain ⟨before, hbefore, h⟩ := Option.bind_eq_some_iff.1 h
      rw [scan] at h
      obtain ⟨next, hnext, h⟩ := Option.bind_eq_some_iff.1 h
      obtain rfl := Option.some.inj h
      exact open_scanToken (ih hbefore) hnext

lemma open_prefix {brackets : List OpenBracket} {ts after : List LocatedToken}
    (h : Open brackets (ts ++ after)) :
    ∃ before, Open before ts ∧ scan before after = some brackets := by
  rw [open_iff_scan, scan_append] at h
  obtain ⟨before, hbefore, hafter⟩ := Option.bind_eq_some_iff.1 h
  exact ⟨before, open_iff_scan.2 hbefore, hafter⟩

/-- The scan stops exactly at a closing bracket without its partner. -/
theorem scanToken_eq_none_iff {brackets : List OpenBracket} {t : LocatedToken} :
    scanToken brackets t = none ↔ ∃ p, Mismatched brackets t p := by
  constructor
  · intro h
    unfold scanToken at h
    split at h
    next p hp =>
      split at h
      · simp at h
      split at h
      next hc =>
        refine ⟨p, hp, hc, ?_⟩
        intro b hb
        cases brackets with
        | nil => simp at hb
        | cons innermost outer =>
          obtain rfl : innermost = b := by simpa using hb
          intro hpartner
          simp [hpartner] at h
      · simp at h
    · simp at h
  · rintro ⟨p, hp, hc, hb⟩
    cases brackets with
    | nil => simp [scanToken, hp, hc, closer?_of_isCloser hc]
    | cons innermost outer =>
      rw [scanToken_closer hp hc, if_neg (hb innermost rfl)]

end Shading.Brackets
