import Shading.Proofs.Lexeme.Place
import Shading.Proofs.Preprocessor.Line

/-!
# A text between others

A text stands between lines of another one, with a line break behind it. The lexemes of the whole are
those of the parts, further down, but for line breaks that two parts make together.
-/

namespace Shading

open Text

lemma Location.lower_lower (k n : Nat) (l : Location) : (l.lower k).lower n = l.lower (k + n) := by
  simp [lower, Nat.add_assoc]

lemma Lexeme.map_lower_lower (k n : Nat) (xs : List Lexeme) :
    (xs.map (·.lower k)).map (·.lower n) = xs.map (·.lower (k + n)) := by
  simp [lower, Location.lower_lower]

lemma EndsLine.of_lower {k : Nat} {xs : List Lexeme} (h : EndsLine (xs.map (·.lower k))) :
    EndsLine xs := by
  intro x hx
  exact h (x.lower k) (by simp [List.getLast?_map, Option.mem_def.1 hx])

lemma EndsLine.lower {xs : List Lexeme} (h : EndsLine xs) (k : Nat) : EndsLine (xs.map (·.lower k)) := by
  intro x hx
  rw [List.getLast?_map] at hx
  obtain ⟨y, hy, rfl⟩ := Option.map_eq_some_iff.1 hx
  exact h y hy

namespace Lexemes

variable {front back : List UInt8}

lemma ofBytes_append_lines (h : EndsLine (ofBytes front).list) (back : List UInt8) :
    ∃ n, (front ≠ [] → 0 < n) ∧ (ofBytes (front ++ back)).list =
      (ofBytes front).list ++ (ofBytes (behind front back)).list.map (·.lower n) := by
  have happend : ofBytes (front ++ back) = (ofBytes front).followedBy (behind front back) :=
    ofCursor_append_lines h back
  have hstop : ∃ n, (front ≠ [] → 0 < n) ∧ (ofBytes front).stop = ⟨n, 0⟩ := by
    by_cases hfront : front = []
    · subst hfront
      exact ⟨0, by simp, by rw [ofBytes, ofCursor_nil rfl]; rfl⟩
    · obtain ⟨n, hn⟩ := stop_newline h hfront
      exact ⟨n + 1, fun _ => n.succ_pos, hn⟩
  obtain ⟨n, hpos, hn⟩ := hstop
  refine ⟨n, hpos, ?_⟩
  rw [happend, followedBy, hn, ofCursor_line]
  rfl

/-- Behind a text without errors and a line break, which may be one with the last one of the text. -/
theorem ofBytes_append_break (hclean : ∀ x ∈ (ofBytes front).list, x.hasError = false)
    (hreturn : front.getLast? = some (ascii '\r') → EndsLine (ofBytes front).list)
    (back : List UInt8) :
    ∃ (joint : Option Lexeme) (n : Nat), (∀ x ∈ joint, x.token = .newline ∧ x.fault = none) ∧
      (joint = none → EndsLine (ofBytes front).list) ∧
      (ofBytes (front ++ ascii '\n' :: back)).list =
        (ofBytes front).list ++ (joint.toList ++ (ofBytes back).list.map (·.lower n)) := by
  by_cases hlast : front.getLast? = some (ascii '\r')
  · obtain ⟨n, -, happend⟩ := ofBytes_append_lines (hreturn hlast) (ascii '\n' :: back)
    have hbehind : behind front (ascii '\n' :: back) = back := if_pos ⟨hlast, rfl⟩
    rw [hbehind] at happend
    exact ⟨none, n, by simp, fun _ => hreturn hlast, happend⟩
  · have happend : ofBytes (front ++ ascii '\n' :: back) =
        (ofBytes front).followedBy (ascii '\n' :: back) :=
      ofCursor_append_break hclean rfl fun h => absurd h hlast
    have hbreak : ofCursor ⟨(ofBytes front).stop, ascii '\n' :: back⟩ =
        { list := { location := (ofBytes front).stop, token := .newline } ::
            (ofCursor ⟨(ofBytes front).stop.nextLine, back⟩).list
          stop := (ofCursor ⟨(ofBytes front).stop.nextLine, back⟩).stop } :=
      ofCursor_break rfl
    refine ⟨some { location := (ofBytes front).stop, token := .newline },
      (ofBytes front).stop.line + 1, by simp, by simp, ?_⟩
    rw [happend, followedBy, hbreak, Location.nextLine, ofCursor_line]
    rfl

lemma ofBytes_newline (rest : List UInt8) :
    (ofBytes (ascii '\n' :: rest)).list =
      { location := .start, token := .newline } :: (ofBytes rest).list.map (·.lower 1) := by
  have hbreak : ofBytes (ascii '\n' :: rest) =
      { list := { location := .start, token := .newline } :: (ofCursor ⟨⟨1, 0⟩, rest⟩).list
        stop := (ofCursor ⟨⟨1, 0⟩, rest⟩).stop } :=
    ofCursor_break rfl
  rw [hbreak, ofCursor_line]
  rfl

lemma ofBytes_tail_append_break {rest : List UInt8}
    (hclean : ∀ x ∈ (ofBytes (ascii '\n' :: rest)).list, x.hasError = false)
    (hreturn : (ascii '\n' :: rest).getLast? = some (ascii '\r') →
      EndsLine (ofBytes (ascii '\n' :: rest)).list)
    (back : List UInt8) :
    ∃ (joint : Option Lexeme) (n : Nat), (∀ x ∈ joint, x.token = .newline ∧ x.fault = none) ∧
      (joint = none → EndsLine (ofBytes rest).list) ∧
      (ofBytes (rest ++ ascii '\n' :: back)).list =
        (ofBytes rest).list ++ (joint.toList ++ (ofBytes back).list.map (·.lower n)) := by
  rw [ofBytes_newline] at hclean hreturn
  refine ofBytes_append_break ?_ ?_ back
  · exact fun x hx => hclean (x.lower 1) (List.mem_cons_of_mem _ (List.mem_map_of_mem hx))
  · intro hlast
    have hrest : rest ≠ [] := by
      rintro rfl
      cases hlast
    have hsame := getLast?_of_suffix (List.suffix_cons (ascii '\n') rest) hrest
    exact (hreturn (hsame ▸ hlast)).tail.of_lower

/-- A text between lines, with a line break behind it: its first line break may be one with that before
it. -/
theorem ofBytes_splice {text : List UInt8} (hfront : EndsLine (ofBytes front).list)
    (hclean : ∀ x ∈ (ofBytes text).list, x.hasError = false)
    (hreturn : text.getLast? = some (ascii '\r') → EndsLine (ofBytes text).list)
    (back : List UInt8) :
    ∃ (inner : List Lexeme) (joint : Option Lexeme) (m n : Nat),
      (∀ x ∈ joint, x.token = .newline ∧ x.fault = none) ∧ (joint = none → EndsLine inner) ∧
      (inner = (ofBytes text).list ∨
        ∃ x, x.token = .newline ∧ x.fault = none ∧ (ofBytes text).list = x :: inner) ∧
      (ofBytes (front ++ (text ++ ascii '\n' :: back))).list =
        (ofBytes front).list ++
          (inner.map (·.lower m) ++ (joint.toList ++ (ofBytes back).list.map (·.lower n))) := by
  obtain ⟨m, hpos, hwhole⟩ := ofBytes_append_lines hfront (text ++ ascii '\n' :: back)
  have hmoved {joint : Option Lexeme} (hjoint : ∀ x ∈ joint, x.token = .newline ∧ x.fault = none) :
      ∀ x ∈ joint.map (·.lower m), x.token = .newline ∧ x.fault = none := by
    intro x hx
    obtain ⟨y, hy, rfl⟩ := Option.map_eq_some_iff.1 hx
    exact hjoint y hy
  have hlist (joint : Option Lexeme) : joint.toList.map (·.lower m) = (joint.map (·.lower m)).toList := by
    cases joint <;> rfl
  by_cases hjoined : front.getLast? = some (ascii '\r') ∧
      (text ++ ascii '\n' :: back).head? = some (ascii '\n')
  · rw [behind, if_pos hjoined] at hwhole
    cases text with
    | nil =>
      refine ⟨[], none, 0, m, by simp, by simp [EndsLine], .inl ?_, hwhole⟩
      rw [ofBytes, ofCursor_nil rfl]
    | cons b rest =>
      obtain rfl : b = ascii '\n' := Option.some.inj hjoined.2
      have hne : front ≠ [] := by
        rintro rfl
        cases hjoined.1
      obtain ⟨joint, n, hjoint, hends, happend⟩ := ofBytes_tail_append_break hclean hreturn back
      refine ⟨(ofBytes rest).list.map (·.lower 1), joint.map (·.lower m), m - 1, n + m, hmoved hjoint,
        ?_, .inr ⟨_, rfl, rfl, ofBytes_newline rest⟩, ?_⟩
      · intro hnone
        exact (hends (by simpa using hnone)).lower 1
      · rw [hwhole, List.cons_append, List.tail_cons, happend, List.map_append, List.map_append, hlist,
          Lexeme.map_lower_lower, Lexeme.map_lower_lower, Nat.add_sub_cancel' (hpos hne)]
  · rw [behind, if_neg hjoined] at hwhole
    obtain ⟨joint, n, hjoint, hends, happend⟩ := ofBytes_append_break hclean hreturn back
    refine ⟨_, joint.map (·.lower m), m, n + m, hmoved hjoint, ?_, .inl rfl, ?_⟩
    · simpa using hends
    · rw [hwhole, happend, List.map_append, List.map_append, hlist, Lexeme.map_lower_lower]

section Line

variable {line : List UInt8} {l : Line}

lemma head?_ne_newline (hline : Line.split (ofBytes line).list = [l]) (hwords : l.words ≠ [])
    (back : List UInt8) : (line ++ back).head? ≠ some (ascii '\n') := by
  cases line with
  | nil =>
    rw [ofBytes, ofCursor_nil rfl] at hline
    cases hline
  | cons b rest =>
    intro hb
    obtain rfl : b = ascii '\n' := Option.some.inj hb
    rw [ofBytes_newline, Line.split, if_pos rfl] at hline
    have hl := (List.cons.inj hline).1
    exact hwords (by rw [← hl]; rfl)

lemma ofBytes_line_append (hline : Line.split (ofBytes line).list = [l])
    (hstop : l.stop = none → back = []) (hwhole : SplitsNoBreak line back) :
    ∃ n, (ofBytes (line ++ back)).list = l.lexemes ++ (ofBytes back).list.map (·.lower n) := by
  have hlexemes : (ofBytes line).list = l.lexemes := by
    rw [← Line.split_flatten (ofBytes line).list, hline, List.flatMap_singleton]
  cases hl : l.stop with
  | none =>
    rw [hstop hl, List.append_nil, hlexemes, ofBytes, ofCursor_nil rfl]
    exact ⟨0, by simp⟩
  | some x =>
    have hx : x.token = .newline := by
      have hmem : l ∈ Line.split (ofBytes line).list := by
        rw [hline]
        exact List.mem_singleton_self l
      have hisLine := Line.split_isLine (fun y hy => (ofCursor_proper _ y hy).2) l hmem
      exact (hisLine.stop x hl).1
    have hends : EndsLine (ofBytes line).list := by
      intro y hy
      rw [hlexemes, Line.lexemes, hl] at hy
      obtain rfl : x = y := by simpa using hy
      exact hx
    obtain ⟨n, -, happend⟩ := ofBytes_append_lines hends back
    have hsame : behind line back = back := if_neg fun h => hwhole h.1 h.2
    rw [hsame, hlexemes] at happend
    exact ⟨n, happend⟩

lemma ofBytes_around (hfront : EndsLine (ofBytes front).list)
    (hline : Line.split (ofBytes line).list = [l]) (hwords : l.words ≠ [])
    (hstop : l.stop = none → back = []) (hwhole : SplitsNoBreak line back) :
    ∃ m n, (ofBytes (front ++ (line ++ back))).list =
      (ofBytes front).list ++ (l.lexemes.map (·.lower m) ++ (ofBytes back).list.map (·.lower n)) := by
  obtain ⟨m, -, hall⟩ := ofBytes_append_lines hfront (line ++ back)
  have hbehind : behind front (line ++ back) = line ++ back :=
    if_neg fun h => head?_ne_newline hline hwords back h.2
  obtain ⟨n, hn⟩ := ofBytes_line_append hline hstop hwhole
  refine ⟨m, n + m, ?_⟩
  rw [hall, hbehind, hn, List.map_append, Lexeme.map_lower_lower]

end Line

end Lexemes

end Shading
