import Shading.Preprocessor.Directive
import Shading.Proofs.Condition.Places
import Shading.Proofs.Lexeme.Place

/-!
# Directives further down

A directive that stands some lines further down means the same, and what it defines and why it is
refused stand as many lines further down.
-/

namespace Shading

def Rejection.lower (k : Nat) (r : Rejection) : Rejection :=
  { r with token := r.token.lower k }

def Definition.lower (k : Nat) (d : Definition) : Definition :=
  { d with body := d.body.map (·.lower k) }

lemma Definition.unplaced_lower (k : Nat) (d : Definition) : (d.lower k).unplaced = d.unplaced := by
  refine unplaced_eq (by rfl) ?_
  simp [lower, LocatedToken.lower, Function.comp_def]

namespace Directive

def lower (k : Nat) (d : Directive) : Directive :=
  { d with
    hash := d.hash.lower k
    location := d.location.lower k
    args := d.args.map (·.lower k) }

variable (k : Nat) (d : Directive)

lemma macroName_lower : (d.lower k).macroName = d.macroName.mapError (·.lower k) := by
  obtain ⟨hash, name, location, _ | ⟨⟨place, token⟩, args⟩⟩ := d
  · rfl
  · cases token <;> rfl

lemma tokens_lower (ts : List LocatedToken) :
    (ts.map (·.lower k)).map (·.token) = ts.map (·.token) := by
  simp [LocatedToken.lower, Function.comp_def]

lemma includedName_cons (hash location : Location) (name : String) (first : LocatedToken)
    {ts : List LocatedToken} (hts : ts ≠ []) :
    ((first.token = .punct .leftAngle ∧ (ts.getLast hts).token = .punct .rightAngle) →
      (Directive.mk hash name location (first :: ts)).includedName =
        .ok (false, String.join (ts.dropLast.map (·.token.text)))) ∧
    (¬(first.token = .punct .leftAngle ∧ (ts.getLast hts).token = .punct .rightAngle) →
      (Directive.mk hash name location (first :: ts)).includedName =
        .error (.directive location (.identifier "include") .malformedInclude)) := by
  obtain ⟨second, rest, rfl⟩ := List.exists_cons_of_ne_nil hts
  obtain ⟨place, token⟩ := first
  have hangles {p q : Prop} [Decidable p] [Decidable q] : (decide p && decide q) = true ↔ p ∧ q := by
    rw [Bool.and_eq_true, decide_eq_true_iff, decide_eq_true_iff]
  have hname : (Directive.mk hash name location (⟨place, token⟩ :: second :: rest)).includedName =
      if token = .punct .leftAngle && ((second :: rest).getLast hts).token = .punct .rightAngle then
        .ok (false, String.join ((second :: rest).dropLast.map (·.token.text)))
      else .error (.directive location (.identifier "include") .malformedInclude) := by
    cases token <;> rfl
  rw [hname]
  exact ⟨fun h => if_pos (hangles.2 h), fun h => if_neg (mt hangles.1 h)⟩

lemma includedName_lower : (d.lower k).includedName = d.includedName.mapError (·.lower k) := by
  obtain ⟨hash, name, location, args⟩ := d
  rcases args with _ | ⟨⟨place, token⟩, ts⟩
  · rfl
  · by_cases hts : ts = []
    · subst hts
      cases token <;> rfl
    · have hne : ts.map (LocatedToken.lower k) ≠ [] := by simpa using hts
      have hlast : ((ts.map (LocatedToken.lower k)).getLast hne).token = (ts.getLast hts).token := by
        rw [List.getLast_map]
        rfl
      have htexts : (ts.map (LocatedToken.lower k)).dropLast.map (·.token.text) =
          ts.dropLast.map (·.token.text) := by
        rw [← List.map_dropLast, List.map_map]
        rfl
      obtain ⟨hangled, hother⟩ := includedName_cons hash location name ⟨place, token⟩ hts
      obtain ⟨hangled', hother'⟩ := includedName_cons (hash.lower k) (location.lower k) name
        ⟨place.lower k, token⟩ hne
      rw [hlast] at hangled' hother'
      rw [htexts] at hangled'
      by_cases h : token = .punct .leftAngle ∧ (ts.getLast hts).token = .punct .rightAngle
      · rw [hangled h]
        exact hangled' h
      · rw [hother h]
        exact hother' h

lemma definition_lower : (d.lower k).definition =
    (d.definition.map (·.lower k)).mapError (·.lower k) := by
  obtain ⟨hash, name, location, args⟩ := d
  rcases args with _ | ⟨⟨place, token⟩, args⟩
  · rfl
  · cases token with
    | identifier name =>
      rcases args with _ | ⟨⟨second, token⟩, args⟩
      · rfl
      · by_cases htoken : token = .punct .leftParen
        · subst htoken
          have hplace : (second.lower k = (place.lower k).right name.utf8ByteSize) ↔
              second = place.right name.utf8ByteSize := by
            rw [Location.right_lower]
            exact (Location.lower_injective k).eq_iff
          simp only [definition, lower, macroName, List.map_cons, LocatedToken.lower, bind,
            Except.bind, List.drop_one, List.tail_cons]
          by_cases hsecond : second = place.right name.utf8ByteSize
          · rw [if_pos hsecond, if_pos (hplace.2 hsecond)]
            rfl
          · rw [if_neg hsecond, if_neg (mt hplace.1 hsecond)]
            rfl
        · cases token with
          | punct p => cases p <;> first | rfl | exact absurd rfl htoken
          | _ => rfl
    | _ => rfl

lemma asksForMacro_lower (table : DefineTable) (wanted : Bool) :
    (d.lower k).asksForMacro table wanted =
      (d.asksForMacro table wanted).mapError (·.lower k) := by
  unfold asksForMacro
  rw [macroName_lower]
  cases d.macroName <;> rfl

lemma asksForMacro_congr {table table' : DefineTable} (h : table'.unplaced = table.unplaced)
    (wanted : Bool) : d.asksForMacro table' wanted = d.asksForMacro table wanted := by
  unfold asksForMacro
  cases d.macroName with
  | error r => rfl
  | ok name =>
    have hcontains : table'.contains name = table.contains name := by
      rw [← DefineTable.contains_unplaced, h, DefineTable.contains_unplaced]
    simp only [bind, Except.bind, hcontains]

lemma asksForTruth_congr {table table' : DefineTable} (h : table'.unplaced = table.unplaced)
    (limit : Nat) : d.asksForTruth table' limit = d.asksForTruth table limit := by
  unfold asksForTruth
  rw [Condition.value_congr h]

lemma asksForTruth_lower (table : DefineTable) (limit : Nat) :
    (d.lower k).asksForTruth table limit =
      (d.asksForTruth table limit).mapError (·.lower k) := by
  unfold asksForTruth
  rw [show (d.lower k).args = d.args.map (·.lower k) from rfl, tokens_lower]
  cases Condition.value table limit (d.args.map (·.token)) <;> rfl

end Directive

lemma spaced_lower (k : Nat) (ts : List LocatedToken) : spaced (ts.map (·.lower k)) = spaced ts := by
  simp [spaced, LocatedToken.lower, Function.comp_def]

end Shading
