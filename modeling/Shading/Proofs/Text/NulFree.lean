import Shading.Proofs.Text.Encoding
import Shading.Location
import Shading.Text.Pad

/-!
# Texts without NUL

A foreign listener takes texts up to their first NUL. No text that is joined from others without NUL has
one, and neither has the text of bytes without NUL, well-formed or not.
-/

namespace Shading

namespace Text

/-- No character of the text is NUL. -/
def NulFree (s : String) : Prop :=
  '\x00' ∉ s.toList

instance (s : String) : Decidable (NulFree s) :=
  inferInstanceAs (Decidable ('\x00' ∉ s.toList))

@[simp]
lemma nulFree_append {s t : String} : NulFree (s ++ t) ↔ NulFree s ∧ NulFree t := by
  simp [NulFree, not_or]

lemma nulFree_ofList {cs : List Char} : NulFree (String.ofList cs) ↔ ∀ c ∈ cs, c ≠ '\x00' := by
  rw [NulFree, String.toList_ofList]
  exact ⟨fun h c hc he => h (he ▸ hc), fun h hmem => h _ hmem rfl⟩

lemma nulFree_join {ss : List String} (h : ∀ s ∈ ss, NulFree s) : NulFree (String.join ss) := by
  rw [NulFree, String.toList_join, List.mem_flatMap]
  rintro ⟨s, hs, hmem⟩
  exact h s hs hmem

lemma nulFree_intercalate {separator : String} {ss : List String} (hseparator : NulFree separator)
    (h : ∀ s ∈ ss, NulFree s) : NulFree (separator.intercalate ss) := by
  induction ss with
  | nil => simp [NulFree]
  | cons s ss ih =>
    obtain ⟨hs, hss⟩ := List.forall_mem_cons.1 h
    cases ss with
    | nil => simpa using hs
    | cons t ss =>
      rw [String.intercalate_cons_cons, nulFree_append, nulFree_append]
      exact ⟨⟨hs, hseparator⟩, ih hss⟩

/-! Numbers -/

lemma ne_nul_of_mem_toDigits {n : Nat} {c : Char} (h : c ∈ Nat.toDigits 10 n) : c ≠ '\x00' := by
  rintro rfl
  have hdigit := Nat.isDigit_of_mem_toDigits (by decide) (by decide) h
  revert hdigit
  decide

@[simp]
lemma nulFree_nat (n : Nat) : NulFree n.repr := by
  rw [Nat.repr_eq_ofList_toDigits, nulFree_ofList]
  exact fun c hc => ne_nul_of_mem_toDigits hc

@[simp]
lemma nulFree_int (n : Int) : NulFree n.repr := by
  have hminus : NulFree "-" := by decide
  rw [Int.repr_eq_if]
  split
  · exact nulFree_nat _
  · exact nulFree_append.2 ⟨hminus, nulFree_nat _⟩

lemma nulFree_padLeft {s : String} (width : Nat) (h : NulFree s) : NulFree (padLeft width s) := by
  rw [padLeft, nulFree_append, blanks, nulFree_ofList]
  refine ⟨?_, h⟩
  intro c hc
  rw [(List.mem_replicate.1 hc).2]
  decide

lemma nulFree_hexByte (b : UInt8) : NulFree (hexByte b) := by
  have hdigit : ∀ d < 16, Nat.digitChar d ≠ '\x00' := by decide
  have hhigh : b.toNat / 16 < 16 := Nat.div_lt_of_lt_mul b.toNat_lt
  have hlow : b.toNat % 16 < 16 := Nat.mod_lt _ (by decide)
  rw [hexByte, nulFree_ofList, List.forall_mem_cons, List.forall_mem_singleton]
  exact ⟨hdigit _ hhigh, hdigit _ hlow⟩

lemma nulFree_describe {l : Location} {message : String} :
    NulFree (l.describe message) ↔ NulFree message := by
  have hlabel : NulFree l.label := by
    simp only [Location.label, nulFree_append]
    exact ⟨⟨nulFree_padLeft _ (nulFree_nat _), by decide⟩, nulFree_padLeft _ (nulFree_nat _)⟩
  have hcolon : NulFree ": " := by decide
  simp [Location.describe, hlabel, hcolon]

/-! Bytes -/

lemma nulFree_iff_bytes {s : String} : NulFree s ↔ 0 ∉ bytes s :=
  (not_congr (ascii_mem_bytes (by decide) s)).symm

lemma matching_cons {low high : UInt8} {ranges : List (UInt8 × UInt8)} {bs : List UInt8}
    (h : matching ((low, high) :: ranges) bs = ranges.length + 1) :
    ∃ c rest, bs = c :: rest ∧ low.toNat ≤ c.toNat ∧ c.toNat ≤ high.toNat ∧
      matching ranges rest = ranges.length := by
  cases bs with
  | nil => cases h
  | cons c rest =>
    rw [matching] at h
    split at h
    next hrange =>
      obtain ⟨hlow, hhigh⟩ : low ≤ c ∧ c ≤ high := by simpa using hrange
      exact ⟨c, rest, rfl, UInt8.le_iff_toNat_le.1 hlow, UInt8.le_iff_toNat_le.1 hhigh,
        Nat.succ.inj h⟩
    · cases h

lemma ofNat_ne_nul {n : Nat} (hvalid : n.isValidChar) (hn : n ≠ 0) : Char.ofNat n ≠ '\x00' := by
  intro h
  have hnat := congrArg Char.toNat h
  rw [Char.toNat_ofNat, if_pos hvalid] at hnat
  exact hn hnat

/-- Bytes that are all there are a character, and NUL only if the first of them is zero. -/
lemma codePoint_valid {b : UInt8} {ranges : List (UInt8 × UInt8)} {bs : List UInt8}
    (hb : b ≠ 0) (hranges : followers b = some ranges) (hfull : matching ranges bs = ranges.length) :
    (codePoint b (bs.take ranges.length)).isValidChar ∧ codePoint b (bs.take ranges.length) ≠ 0 := by
  have hzero : b.toNat ≠ 0 := fun h => hb (UInt8.toNat_inj.1 h)
  have hlt (n : UInt8) : b < n ↔ b.toNat < n.toNat := UInt8.lt_iff_toNat_lt
  have heq (n : UInt8) : b = n ↔ b.toNat = n.toNat := UInt8.toNat_inj.symm
  have hbyte := b.toNat_lt
  unfold Nat.isValidChar
  unfold followers at hranges
  simp only [codePoint, hlt, heq, UInt8.reduceToNat] at hranges ⊢
  repeat' split at hranges
  all_goals cases hranges
  · simp [*]
    omega
  · obtain ⟨c, -, rfl, hc, hc', -⟩ := matching_cons hfull
    simp [*] at hc hc' ⊢
    omega
  all_goals
    obtain ⟨c, cs, rfl, hc, hc', hrest⟩ := matching_cons hfull
    obtain ⟨d, ds, rfl, hd, hd', hrest'⟩ := matching_cons hrest
  iterate 3
    · simp [*] at hc hc' hd hd' ⊢
      omega
  all_goals
    obtain ⟨e, es, rfl, he, he', -⟩ := matching_cons hrest'
    simp [*] at hc hc' hd hd' he he' ⊢
    omega

lemma decodeLossy_ne_nul {bs : List UInt8} (h : 0 ∉ bs) : ∀ c ∈ decodeLossy bs, c ≠ '\x00' := by
  fun_induction decodeLossy bs with
  | case1 => simp
  | case2 b bs hnone ih =>
    rw [List.mem_cons, not_or] at h
    exact List.forall_mem_cons.2 ⟨by decide, ih h.2⟩
  | case3 b bs ranges hranges n c ih =>
    rw [List.mem_cons, not_or] at h
    refine List.forall_mem_cons.2 ⟨?_, ih fun hmem => h.2 (List.mem_of_mem_drop hmem)⟩
    simp only [c]
    split
    next hfull =>
      obtain ⟨hvalid, hne⟩ := codePoint_valid (Ne.symm h.1) hranges hfull
      rw [hfull]
      exact ofNat_ne_nul hvalid hne
    · decide

/-- The text of bytes without NUL holds none. -/
theorem nulFree_decode {bs : List UInt8} (h : 0 ∉ bs) : NulFree (decode bs) := by
  cases hdecode : decode? bs with
  | none =>
    rw [decode, hdecode, Option.getD_none, nulFree_ofList]
    exact decodeLossy_ne_nul h
  | some s =>
    rw [decode, hdecode, Option.getD_some, nulFree_iff_bytes, bytes_of_decode? hdecode]
    exact h

end Text

end Shading
