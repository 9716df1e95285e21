import Mathlib
import Shading.Text.Ascii
import Shading.Text.Utf8

/-!
# Texts and their bytes

An ASCII character is one byte, and the bytes of any other character are none of ASCII. So the bytes of
a text are those of two texts on both sides of every ASCII byte.
-/

namespace Shading

namespace Text

lemma bytes_append (s t : String) : bytes (s ++ t) = bytes s ++ bytes t := by
  simp [bytes]

lemma length_bytes (s : String) : (bytes s).length = s.utf8ByteSize :=
  rfl

lemma decode_bytes (s : String) : decode (bytes s) = s := by
  have hbytes : (bytes s).toByteArray = s.toByteArray := by
    apply ByteArray.ext
    rw [List.data_toByteArray, bytes]
  rw [decode, decode?, hbytes, String.fromUTF8?, dif_pos s.isValidUTF8]
  rfl

lemma bytes_of_decode? {bs : List UInt8} {s : String} (h : decode? bs = some s) : bytes s = bs := by
  unfold decode? String.fromUTF8? at h
  split at h
  · rw [← Option.some.inj h, bytes, String.fromUTF8, List.toList_data_toByteArray]
  · cases h

lemma bytes_ofList (cs : List Char) :
    bytes (String.ofList cs) = cs.flatMap String.utf8EncodeChar := by
  rw [bytes, String.toByteArray_ofList, List.utf8Encode, List.data_toByteArray]

lemma bytes_cons (c : Char) (cs : List Char) :
    bytes (String.ofList (c :: cs)) = String.utf8EncodeChar c ++ bytes (String.ofList cs) := by
  rw [bytes_ofList, bytes_ofList, List.flatMap_cons]

lemma bytes_singleton (c : Char) : bytes (String.ofList [c]) = String.utf8EncodeChar c := by
  rw [bytes_ofList, List.flatMap_singleton]

/-- Whether the byte is a character of its own. -/
def isAscii (b : UInt8) : Bool :=
  b < 0x80

lemma isAscii_ascii {c : Char} (hc : c.toNat < 0x80) : isAscii (ascii c) = true := by
  have hbyte : (ascii c).toNat = c.toNat % 256 := UInt8.toNat_ofNat'
  simp only [isAscii, decide_eq_true_eq, UInt8.lt_iff_toNat_lt, hbyte]
  exact (Nat.mod_le _ _).trans_lt hc

lemma exists_ascii_text {bs : List UInt8} (h : ∀ b ∈ bs, isAscii b = true) : ∃ s, bytes s = bs := by
  have hbyte : ∀ b, isAscii b = true → String.utf8EncodeChar (Char.ofNat b.toNat) = [b] := by
    decide +kernel
  refine ⟨String.ofList (bs.map fun b => Char.ofNat b.toNat), ?_⟩
  rw [bytes_ofList]
  induction bs with
  | nil => rfl
  | cons b bs ih =>
    obtain ⟨hb, hbs⟩ := List.forall_mem_cons.1 h
    rw [List.map_cons, List.flatMap_cons, hbyte b hb, ih hbs]
    rfl

lemma encoded_cases (c : Char) :
    (c.toNat < 0x80 ∧ String.utf8EncodeChar c = [ascii c]) ∨
      (0x80 ≤ c.toNat ∧ ∀ b ∈ String.utf8EncodeChar c, isAscii b = false) := by
  have hhigh {n : Nat} (h : n < 0x80) : isAscii (UInt8.ofNat (n + 0x80)) = false := by
    simp only [isAscii, decide_eq_false_iff_not, UInt8.lt_iff_toNat_lt, UInt8.toNat_ofNat',
      UInt8.reduceToNat]
    omega
  unfold String.utf8EncodeChar
  dsimp only
  split
  next h => exact .inl ⟨Nat.lt_succ_of_le h, rfl⟩
  next h =>
    have hvalue : 0x80 ≤ c.toNat := Nat.lt_of_not_le h
    refine .inr ⟨hvalue, ?_⟩
    split
    · simp only [List.forall_mem_cons]
      exact ⟨hhigh (n := c.val.toNat / 64 % 0x20 + 0x40) (by omega), hhigh (by omega), by simp⟩
    · split
      · simp only [List.forall_mem_cons]
        exact ⟨hhigh (n := c.val.toNat / 4096 % 0x10 + 0x60) (by omega), hhigh (by omega),
          hhigh (by omega), by simp⟩
      · simp only [List.forall_mem_cons]
        exact ⟨hhigh (n := c.val.toNat / 262144 % 0x08 + 0x70) (by omega), hhigh (by omega),
          hhigh (by omega), hhigh (by omega), by simp⟩

lemma ascii_mem_bytes {c : Char} (hc : c.toNat < 0x80) (s : String) :
    ascii c ∈ bytes s ↔ c ∈ s.toList := by
  have hascii := isAscii_ascii hc
  obtain ⟨cs, rfl⟩ : ∃ cs, s = String.ofList cs := ⟨s.toList, String.ofList_toList.symm⟩
  rw [bytes_ofList, String.toList_ofList, List.mem_flatMap]
  constructor
  · rintro ⟨d, hd, hmem⟩
    rcases encoded_cases d with ⟨hdlow, hencoded⟩ | ⟨-, hhigh⟩
    · rw [hencoded, List.mem_singleton] at hmem
      have hsame : c.toNat = d.toNat := by
        have hbytes := congrArg UInt8.toNat hmem
        simp only [ascii, Nat.toUInt8, UInt8.toNat_ofNat'] at hbytes
        omega
      rwa [Char.toNat_inj.1 hsame]
    · rw [hhigh _ hmem] at hascii
      cases hascii
  · intro hmem
    refine ⟨c, hmem, ?_⟩
    rcases encoded_cases c with ⟨-, hencoded⟩ | ⟨hhigh, -⟩
    · rw [hencoded]
      exact List.mem_singleton_self _
    · omega

/-- An ASCII byte or nothing stands on one side. -/
def BesideAscii (front back : List UInt8) : Prop :=
  front.getLast?.all isAscii = true ∨ back.head?.all isAscii = true

lemma besideAscii_of_all {front : List UInt8} (h : ∀ b ∈ front, isAscii b = true)
    (back : List UInt8) : BesideAscii front back := by
  left
  rw [Option.all_eq_true]
  exact fun b hb => h b (List.mem_of_getLast? hb)

/-- No byte of a character that is divided is one of ASCII. -/
lemma not_besideAscii {c : Char} {front rest : List UInt8} (hchar : String.utf8EncodeChar c = front ++ rest)
    (hfront : front ≠ []) (hrest : rest ≠ []) (back : List UInt8) : ¬BesideAscii front (rest ++ back) := by
  have hlong : 1 < (String.utf8EncodeChar c).length := by
    have := List.length_pos_iff.2 hfront
    have := List.length_pos_iff.2 hrest
    rw [hchar, List.length_append]
    omega
  have hhigh : ∀ b ∈ front ++ rest, isAscii b = false := by
    rw [← hchar]
    refine (encoded_cases c).elim (fun hlow => ?_) And.right
    rw [hlow.2] at hlong
    exact absurd hlong (by simp)
  rintro (hlast | hhead)
  · rw [List.getLast?_eq_some_getLast hfront, Option.all_some,
      hhigh _ (List.mem_append_left _ (List.getLast_mem hfront))] at hlast
    cases hlast
  · rw [List.head?_append_of_ne_nil _ hrest, List.head?_eq_some_head hrest, Option.all_some,
      hhigh _ (List.mem_append_right _ (List.head_mem hrest))] at hhead
    cases hhead

/-- Beside an ASCII byte no character is divided. -/
theorem exists_texts {s : String} {front back : List UInt8} (h : bytes s = front ++ back)
    (hjoint : BesideAscii front back) :
    ∃ t u : String, s = t ++ u ∧ bytes t = front ∧ bytes u = back := by
  obtain ⟨cs, rfl⟩ : ∃ cs, s = String.ofList cs := ⟨s.toList, String.ofList_toList.symm⟩
  induction cs generalizing front with
  | nil =>
    obtain ⟨rfl, rfl⟩ : front = [] ∧ back = [] := List.append_eq_nil_iff.1 h.symm
    exact ⟨"", "", rfl, rfl, rfl⟩
  | cons c cs ih =>
    by_cases hfront : front = []
    · subst hfront
      exact ⟨"", _, by simp, rfl, h⟩
    rw [bytes_cons] at h
    rcases List.append_eq_append_iff.1 h with ⟨rest, rfl, hrest⟩ | ⟨rest, hchar, rfl⟩
    · have hjoint' : BesideAscii rest back := by
        by_cases hnil : rest = []
        · exact .inl (by simp [hnil])
        · rwa [BesideAscii, List.getLast?_append_of_ne_nil _ hnil] at hjoint
      obtain ⟨t, u, hsplit, ht, hu⟩ := ih hjoint' hrest
      refine ⟨String.ofList [c] ++ t, u, ?_, ?_, hu⟩
      · rw [String.append_assoc, ← hsplit, ← String.ofList_append]
        rfl
      · rw [bytes_append, bytes_singleton, ht]
    · by_cases hnil : rest = []
      · subst hnil
        rw [List.append_nil] at hchar
        refine ⟨String.ofList [c], String.ofList cs, ?_, ?_, by simp⟩
        · rw [← String.ofList_append]
          rfl
        · rw [bytes_singleton, hchar]
      · exact absurd hjoint (not_besideAscii hchar hfront hnil _)

end Text

end Shading
