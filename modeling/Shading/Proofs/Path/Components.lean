import Mathlib.Data.List.DropRight
import Shading.Path

/-!
# Directories and names

What the last component of a path, its directory and a path seen from another are in terms of components.
The text of a path is only looked at here.
-/

namespace Shading

namespace Path

variable {p q r : Path} {piece : List Char}

/-! ### Pieces -/

lemma anchor_append_drop (cs : List Char) : anchor cs ++ cs.drop (anchor cs).length = cs := by
  unfold anchor
  split <;> rfl

lemma anchor_idem (cs : List Char) : anchor (anchor cs) = anchor cs := by
  have hcases : anchor cs = ['/'] ∨ anchor cs = ['.'] ∨ anchor cs = [] := by
    unfold anchor
    split <;> simp
  rcases hcases with h | h | h <;> rw [h] <;> rfl

lemma length_anchor_le (cs : List Char) : (anchor cs).length ≤ cs.length := by
  have hlength := congrArg List.length (anchor_append_drop cs)
  rw [List.length_append] at hlength
  omega

lemma anchor_cons (c : Char) (cs : List Char) :
    anchor (c :: cs) = if c = '/' ∨ c = '.' ∧ cs.head?.getD '/' = '/' then [c] else [] := by
  by_cases hslash : c = '/'
  · rw [hslash]
    rfl
  by_cases hdot : c = '.'
  · subst hdot
    cases cs with
    | nil => rfl
    | cons d cs => by_cases hd : d = '/' <;> simp [anchor, hd]
  · simp [anchor, hslash, hdot]

lemma anchor_append_slash {cs : List Char} (h : cs ≠ []) (rest : List Char) :
    anchor (cs ++ '/' :: rest) = anchor cs := by
  obtain ⟨c, cs, rfl⟩ := List.exists_cons_of_ne_nil h
  have hhead : (cs ++ '/' :: rest).head?.getD '/' = cs.head?.getD '/' := by
    cases cs <;> rfl
  rw [List.cons_append, anchor_cons, anchor_cons, hhead]

lemma intercalate_pieces (p : Path) : anchor p.text.toList ++ ['/'].intercalate p.pieces = p.text.toList := by
  rw [pieces, List.intercalate_splitOn, anchor_append_drop]

lemma slash_notMem (h : piece ∈ p.pieces) : '/' ∉ piece := by
  unfold pieces at h
  dsimp only at h
  generalize p.text.toList.drop (anchor p.text.toList).length = cs at h
  induction cs generalizing piece with
  | nil =>
    rw [List.splitOn_nil, List.mem_singleton] at h
    rw [h]
    exact List.not_mem_nil
  | cons c cs ih =>
    obtain ⟨head, tail, hsplit⟩ := List.exists_cons_of_ne_nil (List.splitOn_ne_nil '/' cs)
    rw [List.splitOn_cons_eq_if_modifyHead, hsplit] at h
    rw [hsplit] at ih
    by_cases hc : c = '/'
    · simp only [hc, beq_self_eq_true, ↓reduceIte, List.mem_cons (b := [])] at h
      rcases h with rfl | h
      · exact List.not_mem_nil
      · exact ih h
    · simp only [beq_iff_eq, hc, ↓reduceIte, List.modifyHead_cons, List.mem_cons] at h
      rcases h with rfl | h
      · rw [List.mem_cons, not_or]
        exact ⟨Ne.symm hc, ih List.mem_cons_self⟩
      · exact ih (List.mem_cons_of_mem _ h)

lemma intercalate_append {front back : List (List Char)} (hfront : front ≠ []) (hback : back ≠ []) :
    ['/'].intercalate (front ++ back) = ['/'].intercalate front ++ '/' :: ['/'].intercalate back := by
  induction front with
  | nil => contradiction
  | cons piece front ih =>
    by_cases hnil : front = []
    · rw [hnil, List.singleton_append, List.intercalate_cons_of_ne_nil hback, List.intercalate_singleton,
        List.append_assoc, List.singleton_append]
    · rw [List.cons_append, List.intercalate_cons_of_ne_nil (by simp [hnil]), ih hnil,
        List.intercalate_cons_of_ne_nil hnil, List.append_assoc, List.append_assoc, List.append_assoc]

lemma pieces_eq {ps : List (List Char)} (h : p.text.toList = anchor p.text.toList ++ ['/'].intercalate ps)
    (hne : ps ≠ []) (hslash : ∀ piece ∈ ps, '/' ∉ piece) : p.pieces = ps := by
  have hbody : p.text.toList.drop (anchor p.text.toList).length = ['/'].intercalate ps := by
    nth_rewrite 2 [h]
    exact List.drop_left
  rw [pieces, hbody, List.splitOn_intercalate '/' hslash hne]

lemma append_slash {rest : List Char} (hp : p.text ≠ "") (h : r.text.toList = p.text.toList ++ '/' :: rest) :
    anchor r.text.toList = anchor p.text.toList ∧ r.pieces = p.pieces ++ rest.splitOn '/' := by
  have hne : p.text.toList ≠ [] := by
    rw [Ne, String.toList_eq_nil_iff]
    exact hp
  have hanchor : anchor r.text.toList = anchor p.text.toList := by
    rw [h]
    exact anchor_append_slash hne rest
  refine ⟨hanchor, ?_⟩
  unfold pieces
  dsimp only
  rw [hanchor, h, List.drop_append_of_le_length (length_anchor_le _), List.splitOn_append_cons_self]

/-! ### Trimming -/

lemma trim_concat (pieces : List (List Char)) (last : List Char) :
    trim (pieces ++ [last]) = if isVoid last then trim pieces else pieces ++ [last] :=
  List.rdropWhile_concat isVoid pieces last

lemma filter_trim (pieces : List (List Char)) :
    (trim pieces).filter (!isVoid ·) = pieces.filter (!isVoid ·) := by
  induction pieces using List.reverseRecOn with
  | nil => rfl
  | append_singleton pieces last ih =>
    rw [trim_concat]
    cases hvoid : isVoid last with
    | true => simp [hvoid, ih]
    | false => simp

lemma isVoid_last_trim {pieces front : List (List Char)} {last : List Char}
    (h : trim pieces = front ++ [last]) : isVoid last = false := by
  have hne : pieces.rdropWhile isVoid ≠ [] := by
    change trim pieces ≠ []
    simp [h]
  have hlast := List.rdropWhile_last_not isVoid pieces hne
  change ¬isVoid ((trim pieces).getLast hne) = true at hlast
  simpa [h] using hlast

lemma getLast?_trim (pieces : List (List Char)) :
    (trim pieces).getLast? = (pieces.filter (!isVoid ·)).getLast? := by
  induction pieces using List.reverseRecOn with
  | nil => rfl
  | append_singleton pieces last ih =>
    rw [trim_concat]
    cases hvoid : isVoid last with
    | true => simpa [List.filter_append, hvoid] using ih
    | false => simp [List.filter_append, hvoid]

/-! ### Components -/

/-- The last component is the name of the file, unless it leads to the parent directory. -/
theorem fileName?_eq (p : Path) : p.fileName? = p.components.getLast?.filter (· ≠ "..") := by
  have hdots (piece : List Char) : String.ofList piece = ".." ↔ piece = ['.', '.'] := by
    rw [← String.toList_inj, String.toList_ofList]
    rfl
  rw [components, List.getLast?_map, fileName?, getLast?_trim]
  cases (p.pieces.filter (!isVoid ·)).getLast? with
  | none => rfl
  | some piece => by_cases hpiece : piece = ['.', '.'] <;> simp [hdots, hpiece, Option.filter]

/-- The directory of a file keeps the pieces in front of the last component, up to the one that is the last
component then. -/
lemma exists_directory (h : p.fileName?.isSome) : ∃ dirs rest,
    p.parent? = some ⟨String.ofList (anchor p.text.toList ++ ['/'].intercalate dirs)⟩ ∧
      p.pieces = dirs ++ rest ∧ dirs ≠ [[]] ∧ rest ≠ [] ∧
      (dirs.filter (!isVoid ·)).map String.ofList = p.components.dropLast := by
  rcases List.eq_nil_or_concat (trim p.pieces) with htrim | ⟨front, last, htrim⟩
  · rw [fileName?, htrim] at h
    cases h
  · rw [List.concat_eq_append] at htrim
    obtain ⟨voids, hvoids⟩ : trim p.pieces <+: p.pieces := List.rdropWhile_prefix isVoid p.pieces
    obtain ⟨back, hback⟩ : trim front <+: front := List.rdropWhile_prefix isVoid front
    refine ⟨trim front, back ++ last :: voids, ?_, ?_, ?_, by simp, ?_⟩
    · rw [parent?]
      split
      next hnil => simp [htrim] at hnil
      next => rw [htrim, List.dropLast_concat]
    · rw [← hvoids, htrim, ← List.append_assoc, hback, List.append_assoc, List.singleton_append]
    · intro hempty
      rw [← List.nil_append [[]]] at hempty
      cases isVoid_last_trim hempty
    · rw [components, ← filter_trim p.pieces, htrim, filter_trim front]
      simp [isVoid_last_trim htrim]

/-- The directory of a file has its components but the last. -/
theorem components_parent (h : p.fileName?.isSome) : ∃ dir, p.parent? = some dir ∧
    anchor dir.text.toList = anchor p.text.toList ∧ dir.components = p.components.dropLast := by
  obtain ⟨dirs, rest, hparent, hpieces, hdirs, hrest, hcomponents⟩ := exists_directory h
  refine ⟨_, hparent, ?_⟩
  rw [← hcomponents]
  by_cases hnil : dirs = []
  · simp [hnil, components, pieces, anchor_idem, isVoid]
  · have hslash (piece : List Char) (hpiece : piece ∈ dirs) : '/' ∉ piece :=
      slash_notMem (hpieces ▸ List.mem_append_left rest hpiece)
    have hne : ['/'].intercalate dirs ≠ [] := by
      intro hempty
      rw [← List.splitOn_intercalate '/' hslash hnil, hempty] at hdirs
      exact hdirs (List.splitOn_nil '/')
    have hanchor : anchor p.text.toList = anchor (anchor p.text.toList ++ ['/'].intercalate dirs) := by
      nth_rewrite 1 [← intercalate_pieces p]
      rw [hpieces, intercalate_append hnil hrest, ← List.append_assoc,
        anchor_append_slash (List.append_ne_nil_of_right_ne_nil _ hne)]
    refine ⟨by rw [String.toList_ofList, ← hanchor], ?_⟩
    rw [components, pieces_eq _ hnil hslash]
    rw [String.toList_ofList, ← hanchor]

lemma pieces_of_anchor_nil (hq : anchor q.text.toList = []) : q.pieces = q.text.toList.splitOn '/' := by
  rw [pieces, hq]
  rfl

lemma components_slash (hp : p.text ≠ "") (hq : anchor q.text.toList = [])
    (h : r.text.toList = p.text.toList ++ '/' :: q.text.toList) :
    anchor r.text.toList = anchor p.text.toList ∧ r.components = p.components ++ q.components := by
  obtain ⟨hanchor, hpieces⟩ := append_slash hp h
  refine ⟨hanchor, ?_⟩
  rw [components, hpieces, ← pieces_of_anchor_nil hq, List.filter_append, List.map_append, components, components]

/-- A path without an anchor is added component by component. -/
theorem components_join (p : Path) (hq : anchor q.text.toList = []) :
    anchor (p.join q).text.toList = anchor p.text.toList ∧
      (p.join q).components = p.components ++ q.components := by
  have hrelative : q.isAbsolute = false := by
    rw [isAbsolute, hq]
    rfl
  by_cases hempty : p.text = ""
  · have hjoin : p.join q = q := by
      simp [join, hrelative, hempty]
    rw [hjoin, hq, hempty]
    refine ⟨rfl, ?_⟩
    simp [components, pieces, hempty, anchor, isVoid]
  by_cases hslash : p.text.toList.getLast? = some '/'
  · obtain ⟨cs, hcs⟩ := List.getLast?_eq_some_iff.1 hslash
    have hjoin : (p.join q).text.toList = cs ++ '/' :: q.text.toList := by
      simp [join, hrelative, hcs]
    by_cases hroot : cs = []
    · rw [hroot, List.nil_append] at hcs hjoin
      refine ⟨by rw [hcs, hjoin]; rfl, ?_⟩
      rw [components, components, components, pieces_of_anchor_nil hq]
      simp [pieces, hcs, hjoin, anchor, isVoid]
    · have hne : (⟨String.ofList cs⟩ : Path).text ≠ "" := by
        simpa using hroot
      obtain ⟨hanchor, hcomponents⟩ :=
        components_slash (p := ⟨String.ofList cs⟩) (r := p.join q) hne hq (by simpa using hjoin)
      obtain ⟨hanchor', hcomponents'⟩ :=
        components_slash (p := ⟨String.ofList cs⟩) (r := p) (q := ⟨""⟩) hne rfl (by simpa using hcs)
      have hnone : (⟨""⟩ : Path).components = [] := rfl
      rw [hnone, List.append_nil] at hcomponents'
      exact ⟨hanchor.trans hanchor'.symm, by rw [hcomponents, hcomponents']⟩
  · exact components_slash hempty hq (by simp [join, hrelative, hempty, hslash])

/-! ### Ordinary components -/

/-- A component that names a file or a directory: no slash, and no dots with a meaning of their own. -/
structure IsOrdinary (part : String) : Prop where
  ne_empty : part ≠ ""
  ne_dot : part ≠ "."
  ne_dots : part ≠ ".."
  slash : '/' ∉ part.toList

instance : DecidablePred IsOrdinary := fun part =>
  decidable_of_iff (part ≠ "" ∧ part ≠ "." ∧ part ≠ ".." ∧ '/' ∉ part.toList)
    ⟨fun ⟨hempty, hdot, hdots, hslash⟩ => ⟨hempty, hdot, hdots, hslash⟩,
      fun h => ⟨h.ne_empty, h.ne_dot, h.ne_dots, h.slash⟩⟩

lemma IsOrdinary.isVoid {part : String} (h : IsOrdinary part) : isVoid part.toList = false := by
  have hdot : part.toList ≠ ['.'] := fun hpart => h.ne_dot (String.toList_inj.1 hpart)
  simp [Path.isVoid, h.ne_empty, hdot]

lemma IsOrdinary.anchor {part : String} (h : IsOrdinary part) : anchor part.toList = [] := by
  cases hpart : part.toList with
  | nil => rfl
  | cons c cs =>
    have hslash : c ≠ '/' := fun hc => h.slash (by simp [hpart, hc])
    have hdot : ¬(c = '.' ∧ cs.head?.getD '/' = '/') := by
      rintro ⟨rfl, hhead⟩
      cases cs with
      | nil => exact h.ne_dot (String.toList_inj.1 hpart)
      | cons d cs => exact h.slash (by simp_all)
    rw [anchor_cons, if_neg (not_or.2 ⟨hslash, hdot⟩)]

lemma components_intercalate {parts : List String} (hne : parts ≠ []) (h : ∀ part ∈ parts, IsOrdinary part)
    (hq : q.text = "/".intercalate parts) : Path.anchor q.text.toList = [] ∧ q.components = parts := by
  have htext : q.text.toList = ['/'].intercalate (parts.map String.toList) := by
    rw [hq, String.toList_intercalate]
    rfl
  have hanchor : Path.anchor q.text.toList = [] := by
    obtain ⟨part, parts, rfl⟩ := List.exists_cons_of_ne_nil hne
    have hpart : IsOrdinary part := h part List.mem_cons_self
    rw [htext, List.map_cons]
    by_cases hnil : parts = []
    · rw [hnil, List.map_nil, List.intercalate_singleton, hpart.anchor]
    · rw [List.intercalate_cons_of_ne_nil (by simpa using hnil), List.append_assoc, List.singleton_append,
        anchor_append_slash (by simpa using hpart.ne_empty), hpart.anchor]
  refine ⟨hanchor, ?_⟩
  have hpieces : q.pieces = parts.map String.toList := by
    refine pieces_eq ?_ (by simpa using hne) ?_
    · rw [hanchor, htext, List.nil_append]
    · simp only [List.mem_map, forall_exists_index, and_imp, forall_apply_eq_imp_iff₂]
      exact fun part hpart => (h part hpart).slash
  have hkept : ∀ piece ∈ parts.map String.toList, (!isVoid piece) = true := by
    simp only [List.mem_map, forall_exists_index, and_imp, forall_apply_eq_imp_iff₂]
    intro part hpart
    rw [(h part hpart).isVoid, Bool.not_false]
  rw [components, hpieces, List.filter_eq_self.2 hkept, List.map_map]
  exact List.map_id'' (fun _ => String.ofList_toList) parts

end Path

end Shading
