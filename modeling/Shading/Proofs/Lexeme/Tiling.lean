import Shading.Proofs.Lexeme.Place

/-!
# Readings tile the source

Each reading takes a piece of the source that begins where the one before it ended, and the place moves
on with the piece. Where nothing is left, the end of the source is read again and again.
-/

namespace Shading

namespace Location

variable {l m n : Location}

lemma compare_eq_lt :
    compare l m = .lt ↔ l.line < m.line ∨ l.line = m.line ∧ l.column < m.column := by
  change (compare l.line m.line).then (compare l.column m.column) = .lt ↔ _
  rw [Ordering.then_eq_lt, Nat.compare_eq_lt, Nat.compare_eq_eq, Nat.compare_eq_lt]

lemma isLE_compare : (compare l m).isLE = true ↔ Precedes l m := by
  change ((compare l.line m.line).then (compare l.column m.column)).isLE = true ↔ _
  rw [Ordering.isLE_then_iff_or, Nat.compare_eq_lt, Nat.compare_eq_eq, Nat.isLE_compare]
  rfl

lemma Precedes.of_lt (h : compare l m = .lt) : Precedes l m := by
  rw [← isLE_compare, h]
  rfl

lemma compare_lt_of_precedes (h : compare l m = .lt) (h' : Precedes m n) : compare l n = .lt := by
  rw [compare_eq_lt] at *
  unfold Precedes at h'
  omega

lemma compare_right (l : Location) {k : Nat} (hk : 0 < k) : compare l (l.right k) = .lt := by
  rw [compare_eq_lt]
  exact .inr ⟨rfl, Nat.lt_add_of_pos_right hk⟩

lemma compare_nextLine (l : Location) : compare l l.nextLine = .lt := by
  rw [compare_eq_lt]
  exact .inl (Nat.lt_succ_self _)

lemma compare_after (l : Location) {bs : List UInt8} (hbs : bs ≠ []) :
    compare l (l.after bs) = .lt := by
  induction bs generalizing l with
  | nil => exact absurd rfl hbs
  | cons b bs ih =>
    rw [after]
    split
    next hcrlf =>
      refine ih l ?_
      rintro rfl
      simp at hcrlf
    · split
      · exact compare_lt_of_precedes l.compare_nextLine (precedes_after _ bs)
      · exact compare_lt_of_precedes (l.compare_right Nat.one_pos) (precedes_after _ bs)

lemma line_lt_after (l : Location) {bs : List UInt8} (h : bs.any Text.isBreak = true) :
    l.line < (l.after bs).line := by
  induction bs generalizing l with
  | nil => cases h
  | cons b bs ih =>
    rw [after]
    split
    next hcrlf =>
      have hhead : bs.head? = some (ascii '\n') := by simpa using (Bool.and_eq_true_iff.1 hcrlf).2
      exact ih l (List.any_eq_true.2 ⟨ascii '\n', List.mem_of_mem_head? hhead, rfl⟩)
    · split
      · have hnext : l.nextLine.line ≤ (l.nextLine.after bs).line :=
          (precedes_after l.nextLine bs).elim le_of_lt fun h => h.1.le
        exact (Nat.lt_succ_self _).trans_le hnext
      next hb =>
        rw [List.any_cons, Bool.or_eq_true] at h
        exact ih (l.right 1) (h.resolve_left hb)

end Location

namespace Cursor

/-- The bytes that the next reading takes. -/
def taken (c : Cursor) : List UInt8 :=
  c.rest.take (c.rest.length - c.read.2.rest.length)

/-- The cursor behind this many readings. -/
def afterReads (c : Cursor) (n : Nat) : Cursor :=
  (fun c => c.read.2)^[n] c

variable {c : Cursor}

lemma read_nil (hc : c.rest = []) : c.read = ({ location := c.location, token := .eof }, c) := by
  unfold read
  rw [hc]

lemma read_location (c : Cursor) : c.read.1.location = c.location := by
  unfold read
  split <;> rfl

lemma rest_eq_taken (c : Cursor) : c.rest = c.taken ++ c.read.2.rest := by
  by_cases hc : c.rest = []
  · simp [taken, read_nil hc, hc]
  · obtain ⟨front, hfront⟩ := read_suffix hc
    rw [taken, ← hfront]
    simp

lemma taken_ne_nil (hc : c.rest ≠ []) : c.taken ≠ [] := by
  intro hnil
  have hrest := c.rest_eq_taken
  have hshorter := read_rest_length_lt hc
  rw [hnil, List.nil_append] at hrest
  rw [← hrest] at hshorter
  exact lt_irrefl _ hshorter

/-- The place behind a reading is the one that the taken bytes lead to, with or without the line breaks
in them. -/
theorem location_read (hc : c.rest ≠ []) :
    c.read.2.location = c.location.after c.taken ∨
      c.read.2.location = c.location.right c.taken.length := by
  obtain ⟨location, _ | ⟨b, bs⟩⟩ := c
  · exact absurd rfl hc
  have hend : (read ⟨location, b :: bs⟩).2.location = endOf location (b :: bs) (Reading.read b bs) := rfl
  have htaken : taken ⟨location, b :: bs⟩ =
      (b :: bs).take ((b :: bs).length - (Reading.read b bs).rest.length) := rfl
  rw [hend, htaken]
  unfold endOf
  dsimp only
  split
  · exact .inl rfl
  · exact .inr rfl

lemma compare_read (hc : c.rest ≠ []) : compare c.location c.read.2.location = .lt := by
  have hne := taken_ne_nil hc
  rcases location_read hc with h | h
  · rw [h]
    exact c.location.compare_after hne
  · rw [h]
    exact c.location.compare_right (List.length_pos_iff.2 hne)

lemma column_read (hc : c.rest ≠ []) (hline : c.read.2.location.line = c.location.line) :
    c.read.2.location.column = c.location.column + c.taken.length := by
  rcases location_read hc with h | h
  · have hinline : c.taken.any Text.isBreak = false := by
      by_contra hbreak
      have hlater := c.location.line_lt_after (Bool.eq_true_of_not_eq_false hbreak)
      rw [h] at hline
      omega
    rw [h, Location.after_inline hinline]
    rfl
  · rw [h]
    rfl

lemma afterReads_nil (hc : c.rest = []) (n : Nat) : c.afterReads n = c := by
  refine Function.iterate_fixed ?_ n
  rw [read_nil hc]

/-- The readings from a cursor take non-empty pieces until nothing is left, and from then on read the
end. -/
theorem tiles_rest (c : Cursor) :
    ∃ pieces : List (List UInt8), pieces.flatten = c.rest ∧ pieces.length ≤ c.rest.length ∧
      (∀ n (hn : n < pieces.length),
        (c.afterReads n).rest ≠ [] ∧ pieces[n] = (c.afterReads n).taken ∧
          c.rest = (pieces.take n).flatten ++ (c.afterReads n).rest) ∧
      ∃ stop : Location, ∀ n, pieces.length ≤ n → c.afterReads n = { location := stop, rest := [] } := by
  induction h : c.rest.length using Nat.strong_induction_on generalizing c with
  | _ length ih =>
    subst h
    by_cases hc : c.rest = []
    · refine ⟨[], by rw [hc]; rfl, Nat.zero_le _, by simp, c.location, fun n _ => ?_⟩
      rw [afterReads_nil hc, ← hc]
    · have hshorter := read_rest_length_lt hc
      obtain ⟨pieces, hflatten, hlength, hpieces, stop, hstop⟩ := ih _ hshorter c.read.2 rfl
      refine ⟨c.taken :: pieces, ?_, ?_, ?_, stop, ?_⟩
      · rw [List.flatten_cons, hflatten, ← rest_eq_taken]
      · rw [List.length_cons]
        omega
      · intro n hn
        cases n with
        | zero => exact ⟨hc, rfl, rfl⟩
        | succ n =>
          obtain ⟨hrest, hpiece, hjoined⟩ := hpieces n (Nat.lt_of_succ_lt_succ hn)
          refine ⟨hrest, hpiece, ?_⟩
          rw [List.take_succ_cons, List.flatten_cons, List.append_assoc]
          exact c.rest_eq_taken.trans (congrArg _ hjoined)
      · intro n hn
        cases n with
        | zero => simp at hn
        | succ n => exact hstop n (Nat.le_of_succ_le_succ hn)

/-- The readings of any bytes divide them into pieces. Each reading takes the next piece, which is not
empty, its token begins where the cursor stands, and the cursor moves on to a later place, on one line
by as many columns as the piece has bytes. The end is read exactly when all pieces have been taken, and
then again and again, at one place and without a fault. -/
theorem readings_tile (content : List UInt8) :
    ∃ (pieces : List (List UInt8)) (stop : Location),
      pieces.flatten = content ∧ pieces.length ≤ content.length ∧
      (∀ n (hn : n < pieces.length), let c := afterReads { rest := content } n
        c.read.1.token ≠ .eof ∧ c.read.1.location = c.location ∧ pieces[n] ≠ [] ∧
        content = (pieces.take n).flatten ++ c.rest ∧ c.rest = pieces[n] ++ c.read.2.rest ∧
        compare c.location c.read.2.location = .lt ∧
        (c.read.2.location.line = c.location.line →
          c.read.2.location.column = c.location.column + pieces[n].length)) ∧
      ∀ n, pieces.length ≤ n → let c := afterReads { rest := content } n
        c = { location := stop, rest := [] } ∧
        c.read = ({ location := stop, token := .eof, fault := none }, c) := by
  obtain ⟨pieces, hflatten, hlength, hpieces, stop, hstop⟩ := tiles_rest { rest := content }
  refine ⟨pieces, stop, hflatten, hlength, ?_, ?_⟩
  · intro n hn c
    obtain ⟨hrest, hpiece, hjoined⟩ := hpieces n hn
    rw [hpiece]
    exact ⟨(read_proper hrest).1, read_location _, taken_ne_nil hrest, hjoined, rest_eq_taken _,
      compare_read hrest, column_read hrest⟩
  · intro n hn c
    have hc : c = { location := stop, rest := [] } := hstop n hn
    rw [hc]
    exact ⟨rfl, read_nil rfl⟩

end Cursor

namespace Lexemes

/-- The places of all lexemes and of the end. -/
def places (xs : Lexemes) : List Location :=
  xs.list.map (·.location) ++ [xs.stop]

variable {c : Cursor}

lemma places_nil (hc : c.rest = []) : (ofCursor c).places = [c.location] := by
  rw [ofCursor_nil hc]
  rfl

lemma places_read (hc : c.rest ≠ []) : (ofCursor c).places = c.location :: (ofCursor c.read.2).places := by
  rw [ofCursor_read hc, places, List.map_cons, c.read_location]
  rfl

lemma location_mem_places (c : Cursor) : c.location ∈ (ofCursor c).places := by
  by_cases hc : c.rest = []
  · rw [places_nil hc]
    exact List.mem_singleton_self _
  · rw [places_read hc]
    exact List.mem_cons_self

lemma precedes_places (c : Cursor) : ∀ l ∈ (ofCursor c).places, c.location.Precedes l := by
  fun_induction ofCursor c with
  | case1 c hc => simp [places, Location.precedes_refl]
  | case2 c hc reading following ih =>
    intro l hl
    rcases List.mem_cons.1 hl with hl | hl
    · rw [hl.trans c.read_location]
      exact c.location.precedes_refl
    · exact (Location.Precedes.of_lt (Cursor.compare_read hc)).trans (ih l hl)

/-- Each lexeme begins behind the one before it. -/
theorem pairwise_places (c : Cursor) :
    (ofCursor c).places.Pairwise fun l m => compare l m = .lt := by
  induction h : c.rest.length using Nat.strong_induction_on generalizing c with
  | _ length ih =>
    subst h
    by_cases hc : c.rest = []
    · rw [places_nil hc]
      exact List.pairwise_singleton _ _
    · rw [places_read hc]
      refine .cons ?_ (ih _ (Cursor.read_rest_length_lt hc) c.read.2 rfl)
      intro l hl
      exact Location.compare_lt_of_precedes (Cursor.compare_read hc) (precedes_places _ l hl)

end Lexemes

end Shading
