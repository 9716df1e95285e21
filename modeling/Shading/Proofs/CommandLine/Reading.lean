import Shading.Proofs.CommandLine.Number

/-!
# Reading structured output

A reader for structured output that knows nothing of its writer: it takes any blanks between the parts of
a value, and fields in any order. What is written is read back, with the fields of objects in order of
their keys.
-/

namespace Shading.CommandLine.Json

/-! ### The reader -/

/-- What may stand between the parts of a value. -/
def isBlank (c : Char) : Bool :=
  c = ' ' || c = '\n' || c = '\r' || c = '\t'

/-- A text from its first character that is no blank. -/
def skip (cs : List Char) : List Char :=
  cs.dropWhile isBlank

/-- What a hexadecimal digit stands for. -/
def hexValue? (c : Char) : Option Nat :=
  if c.isDigit then some (c.toNat - '0'.toNat)
  else if 'a' ≤ c && c ≤ 'f' then some (c.toNat - 'a'.toNat + 10)
  else if 'A' ≤ c && c ≤ 'F' then some (c.toNat - 'A'.toNat + 10)
  else none

/-- The character that four hexadecimal digits stand for. -/
def numbered? (digits : List Char) : Option Char := do
  let values ← digits.mapM hexValue?
  let n := values.foldl (fun n value => 16 * n + value) 0
  if h : n.isValidChar then some (Char.ofNatAux n h) else none

/-- The character that a letter behind a backslash stands for. -/
def named? : Char → Option Char
  | '"' => some '"'
  | '\\' => some '\\'
  | '/' => some '/'
  | 'b' => some '\x08'
  | 'f' => some '\x0c'
  | 'n' => some '\n'
  | 'r' => some '\r'
  | 't' => some '\t'
  | _ => none

/-- The characters of a string up to its closing quote, and what stands behind that. -/
def readString : List Char → Option (List Char × List Char)
  | [] => none
  | '"' :: rest => some ([], rest)
  | '\\' :: 'u' :: a :: b :: c :: d :: rest => do
    let first ← numbered? [a, b, c, d]
    let (cs, rest) ← readString rest
    return (first :: cs, rest)
  | '\\' :: letter :: rest => do
    let first ← named? letter
    let (cs, rest) ← readString rest
    return (first :: cs, rest)
  | c :: rest =>
    if c.toNat < 0x20 then none
    else do
      let (cs, rest) ← readString rest
      return (c :: cs, rest)

mutual

/-- A value, and what stands behind it. -/
def readValue : Nat → List Char → Option (Json × List Char)
  | 0, _ => none
  | fuel + 1, cs =>
    match skip cs with
    | 'n' :: 'u' :: 'l' :: 'l' :: rest => some (null, rest)
    | 't' :: 'r' :: 'u' :: 'e' :: rest => some (bool true, rest)
    | 'f' :: 'a' :: 'l' :: 's' :: 'e' :: rest => some (bool false, rest)
    | '"' :: rest => (readString rest).map fun (cs, rest) => (string (String.ofList cs), rest)
    | '[' :: rest =>
      match skip rest with
      | ']' :: rest => some (array [], rest)
      | _ => (readItems fuel rest).map fun (items, rest) => (array items, rest)
    | '\x7b' :: rest =>
      match skip rest with
      | '\x7d' :: rest => some (object [], rest)
      | _ => (readFields fuel rest).map fun (fields, rest) => (object fields, rest)
    | cs => readNumber cs

/-- The values up to the end of an array, and what stands behind that. -/
def readItems : Nat → List Char → Option (List Json × List Char)
  | 0, _ => none
  | fuel + 1, cs => do
    let (item, rest) ← readValue fuel cs
    match skip rest with
    | ',' :: rest =>
      let (items, rest) ← readItems fuel rest
      return (item :: items, rest)
    | ']' :: rest => return ([item], rest)
    | _ => none

/-- The fields up to the end of an object, and what stands behind that. -/
def readFields : Nat → List Char → Option (List (String × Json) × List Char)
  | 0, _ => none
  | fuel + 1, cs =>
    match skip cs with
    | '"' :: rest => do
      let (key, rest) ← readString rest
      match skip rest with
      | ':' :: rest =>
        let (value, rest) ← readValue fuel rest
        match skip rest with
        | ',' :: rest =>
          let (fields, rest) ← readFields fuel rest
          return ((String.ofList key, value) :: fields, rest)
        | '\x7d' :: rest => return ([(String.ofList key, value)], rest)
        | _ => none
      | _ => none
    | _ => none

end

/-- The value that a text consists of, if it is one value between blanks. A value is read in no more than two
steps for each character. -/
def read? (s : String) : Option Json :=
  match readValue (2 * s.toList.length) s.toList with
  | some (value, rest) => if skip rest = [] then some value else none
  | none => none

/-- The value that an object has under a key. -/
def field? (key : String) : Json → Option Json
  | object fields => fields.lookup key
  | _ => none

lemma sizeOf_item_lt {item : Json} {items : List Json} (h : item ∈ items) :
    sizeOf item < sizeOf (array items) := by
  have hsize := List.sizeOf_lt_of_mem h
  rw [array.sizeOf_spec]
  omega

lemma sizeOf_field_lt {f : String × Json} {fields : List (String × Json)} (h : f ∈ fields) :
    sizeOf f.2 < sizeOf (object fields) := by
  have hsize := List.sizeOf_lt_of_mem h
  have hpair : sizeOf f = 1 + sizeOf f.1 + sizeOf f.2 := rfl
  rw [object.sizeOf_spec]
  omega

/-- A value with the fields of its objects in order of their keys, and with normal decimals. -/
def canonical : Json → Json
  | null => null
  | bool b => bool b
  | number n => number n
  | decimal d => decimal d.normal
  | string s => string s
  | array items => array (items.map canonical)
  | object fields =>
    object ((fields.map fun f => (f.1, canonical f.2)).mergeSort fun f g => f.1 ≤ g.1)
decreasing_by
  · exact sizeOf_item_lt ‹_›
  · exact sizeOf_field_lt ‹_›

/-- What is true of a value if it is true of its parts is true of every value. -/
theorem parts_induction {P : Json → Prop} (null : P null) (bool : ∀ b, P (bool b))
    (number : ∀ n, P (number n)) (decimal : ∀ d, P (decimal d)) (string : ∀ s, P (string s))
    (array : ∀ items, (∀ item ∈ items, P item) → P (array items))
    (object : ∀ fields, (∀ f ∈ fields, P f.2) → P (object fields)) : ∀ value, P value
  | .null => null
  | .bool b => bool b
  | .number n => number n
  | .decimal d => decimal d
  | .string s => string s
  | .array items => array items fun item _ => parts_induction null bool number decimal string array object item
  | .object fields => object fields fun f _ => parts_induction null bool number decimal string array object f.2
decreasing_by
  · exact sizeOf_item_lt ‹_›
  · exact sizeOf_field_lt ‹_›

/-! ### Strings -/

lemma numbered?_fourDigits : ∀ n < 0x20,
    (fourDigits n).length = 4 ∧ numbered? (fourDigits n) = some (Char.ofNat n) := by
  decide +kernel

lemma readString_named {letter c : Char} (h : named? letter = some c) (rest : List Char) :
    readString ('\\' :: letter :: rest) = (readString rest).map fun (cs, rest) => (c :: cs, rest) := by
  have hletter : letter ≠ 'u' := by
    rintro rfl
    cases h
  rw [readString, h]
  · cases readString rest <;> rfl
  · intro a b c d rest hu
    exact absurd hu hletter

lemma readString_numbered {digits : List Char} {c : Char} (hlength : digits.length = 4)
    (h : numbered? digits = some c) (rest : List Char) :
    readString ('\\' :: 'u' :: (digits ++ rest)) =
      (readString rest).map fun (cs, rest) => (c :: cs, rest) := by
  obtain ⟨d₁, d₂, d₃, d₄, rfl⟩ := List.length_eq_four.1 hlength
  rw [List.cons_append, List.cons_append, List.cons_append, List.cons_append, List.nil_append, readString, h]
  cases readString rest <;> rfl

lemma readString_plain {c : Char} (hquote : c ≠ '"') (hslash : c ≠ '\\') (hcontrol : ¬c.toNat < 0x20)
    (rest : List Char) :
    readString (c :: rest) = (readString rest).map fun (cs, rest) => (c :: cs, rest) := by
  rw [readString, if_neg hcontrol]
  · cases readString rest <;> rfl
  · exact hquote
  · exact fun _ _ _ _ _ h => absurd h hslash
  · exact fun _ _ h => absurd h hslash

lemma readString_escape (c : Char) (rest : List Char) :
    readString (escape c ++ rest) = (readString rest).map fun (cs, rest) => (c :: cs, rest) := by
  unfold escape
  split_ifs with hquote hb hf hn hr ht hcontrol
  · simp only [Bool.or_eq_true, decide_eq_true_eq] at hquote
    rcases hquote with rfl | rfl
    · exact readString_named rfl rest
    · exact readString_named rfl rest
  · exact readString_named (hb ▸ rfl) rest
  · exact readString_named (hf ▸ rfl) rest
  · exact readString_named (hn ▸ rfl) rest
  · exact readString_named (hr ▸ rfl) rest
  · exact readString_named (ht ▸ rfl) rest
  · obtain ⟨hlength, hdigits⟩ := numbered?_fourDigits c.toNat hcontrol
    rw [Char.ofNat_toNat] at hdigits
    exact readString_numbered hlength hdigits rest
  · simp only [Bool.or_eq_true, decide_eq_true_eq, not_or] at hquote
    exact readString_plain hquote.1 hquote.2 hcontrol rest

lemma readString_quoted (cs rest : List Char) :
    readString (cs.flatMap escape ++ '"' :: rest) = some (cs, rest) := by
  induction cs with
  | nil => rfl
  | cons c cs ih =>
    rw [List.flatMap_cons, List.append_assoc, readString_escape, ih]
    rfl

/-! ### Blanks -/

lemma skip_of_isBlank {c : Char} (h : isBlank c = true) (cs : List Char) : skip (c :: cs) = skip cs :=
  List.dropWhile_cons_of_pos h

lemma skip_of_not_isBlank {c : Char} (h : isBlank c = false) (cs : List Char) : skip (c :: cs) = c :: cs :=
  List.dropWhile_cons_of_neg (by simp [h])

/-- The blanks in front of a line. -/
def indent (n : Nat) : List Char :=
  List.replicate (2 * n) ' '

lemma skip_indent (n : Nat) (cs : List Char) : skip ('\n' :: (indent n ++ cs)) = skip cs := by
  rw [skip_of_isBlank rfl]
  refine List.dropWhile_append_of_pos fun c hc => ?_
  rw [List.eq_of_mem_replicate hc]
  rfl

lemma readValue_skip {cs cs' : List Char} (h : skip cs = skip cs') (fuel : Nat) :
    readValue fuel cs = readValue fuel cs' := by
  cases fuel with
  | zero => rfl
  | succ fuel => rw [readValue, readValue, h]

/-! ### The first character of a value -/

section First

variable (fuel : Nat) (rest : List Char)

lemma readValue_null : readValue (fuel + 1) ('n' :: 'u' :: 'l' :: 'l' :: rest) = some (null, rest) :=
  rfl

lemma readValue_true : readValue (fuel + 1) ('t' :: 'r' :: 'u' :: 'e' :: rest) = some (bool true, rest) :=
  rfl

lemma readValue_false :
    readValue (fuel + 1) ('f' :: 'a' :: 'l' :: 's' :: 'e' :: rest) = some (bool false, rest) :=
  rfl

lemma readValue_string : readValue (fuel + 1) ('"' :: rest) =
    (readString rest).map fun (cs, rest) => (string (String.ofList cs), rest) :=
  rfl

lemma readValue_array : readValue (fuel + 1) ('[' :: rest) =
    match skip rest with
    | ']' :: rest => some (array [], rest)
    | _ => (readItems fuel rest).map fun (items, rest) => (array items, rest) :=
  rfl

lemma readValue_object : readValue (fuel + 1) ('\x7b' :: rest) =
    match skip rest with
    | '\x7d' :: rest => some (object [], rest)
    | _ => (readFields fuel rest).map fun (fields, rest) => (object fields, rest) :=
  rfl

lemma ne_of_isDigit {c d : Char} (hc : c.isDigit = true) (hd : d.isDigit = false) : c ≠ d := by
  rintro rfl
  exact Bool.false_ne_true (hd.symm.trans hc)

lemma isBlank_of_isDigit {c : Char} (h : c.isDigit = true) : isBlank c = false := by
  simp [isBlank, ne_of_isDigit h (d := ' ') rfl, ne_of_isDigit h (d := '\n') rfl,
    ne_of_isDigit h (d := '\r') rfl, ne_of_isDigit h (d := '\t') rfl]

lemma continuesNumber_of_isBlank {c : Char} (h : isBlank c = true) : continuesNumber c = false := by
  simp only [isBlank, Bool.or_eq_true, decide_eq_true_eq] at h
  rcases h with ((rfl | rfl) | rfl) | rfl <;> rfl

lemma readValue_number {c : Char} (h : c.isDigit = true) (cs : List Char) :
    readValue (fuel + 1) (c :: cs) = readNumber (c :: cs) := by
  rw [readValue, skip_of_not_isBlank (isBlank_of_isDigit h)]
  split
  next hc => exact absurd (List.cons.inj hc).1 (ne_of_isDigit h rfl)
  next hc => exact absurd (List.cons.inj hc).1 (ne_of_isDigit h rfl)
  next hc => exact absurd (List.cons.inj hc).1 (ne_of_isDigit h rfl)
  next hc => exact absurd (List.cons.inj hc).1 (ne_of_isDigit h rfl)
  next hc => exact absurd (List.cons.inj hc).1 (ne_of_isDigit h rfl)
  next hc => exact absurd (List.cons.inj hc).1 (ne_of_isDigit h rfl)
  next => rfl

end First

/-! ### Parts between brackets -/

/-- What is written behind the first part between brackets. -/
def tail (closing : Char) (depth : Nat) (parts : List String) : List Char :=
  parts.flatMap (fun part => ',' :: '\n' :: (indent (depth + 1) ++ part.toList)) ++
    '\n' :: (indent depth ++ [closing])

lemma toList_enclose_nil (opening closing : Char) (depth : Nat) :
    (enclose (String.singleton opening) (String.singleton closing) depth []).toList = [opening, closing] := by
  simp [enclose]

lemma tail_cons (closing : Char) (depth : Nat) (part : String) (parts : List String) :
    tail closing depth (part :: parts) =
      ',' :: '\n' :: (indent (depth + 1) ++ (part.toList ++ tail closing depth parts)) := by
  simp [tail]

lemma intercalate_cons (separator part : List Char) (parts : List (List Char)) :
    separator.intercalate (part :: parts) = part ++ parts.flatMap (separator ++ ·) := by
  induction parts generalizing part with
  | nil => simp
  | cons next parts ih => simp [List.intercalate_cons_cons, ih]

lemma toList_enclose (opening closing : Char) (depth : Nat) (part : String) (parts : List String) :
    (enclose (String.singleton opening) (String.singleton closing) depth (part :: parts)).toList =
      opening :: '\n' :: (indent (depth + 1) ++ (part.toList ++ tail closing depth parts)) := by
  have hsep : (",\n" : String).toList = [',', '\n'] := rfl
  have hline : ("\n" : String).toList = ['\n'] := rfl
  rw [enclose]
  simp [String.toList_intercalate, hsep, hline, intercalate_cons, tail, indent, List.flatMap_map]

/-! ### What is written is read -/

/-- A value is read back from its text at any depth, in front of anything that does not go on with a
number. -/
def ReadsBack (value : Json) : Prop :=
  ∀ depth fuel (rest : List Char), (∀ c ∈ rest.head?, continuesNumber c = false) →
    2 * ((value.render depth).toList ++ rest).length ≤ fuel →
      readValue fuel ((value.render depth).toList ++ rest) = some (value.canonical, rest)

lemma tail_head (closing : Char) (depth : Nat) (parts : List String) (rest : List Char) :
    ∀ c ∈ (tail closing depth parts ++ rest).head?, continuesNumber c = false := by
  cases parts <;> simp [tail, continuesNumber]

lemma skip_tail_nil {closing : Char} (h : isBlank closing = false) (depth : Nat) (rest : List Char) :
    skip (tail closing depth [] ++ rest) = closing :: rest := by
  have htail : tail closing depth [] ++ rest = '\n' :: (indent depth ++ closing :: rest) := by
    simp [tail]
  rw [htail, skip_indent, skip_of_not_isBlank h]

lemma skip_tail_cons (closing : Char) (depth : Nat) (part : String) (parts : List String) (rest : List Char) :
    skip (tail closing depth (part :: parts) ++ rest) =
      ',' :: '\n' :: (indent (depth + 1) ++ (part.toList ++ (tail closing depth parts ++ rest))) := by
  rw [tail_cons, List.cons_append, skip_of_not_isBlank rfl]
  simp

lemma readItems_parts (item : Json) {items : List Json} (hitems : ∀ i ∈ item :: items, ReadsBack i)
    (depth fuel : Nat) (rest : List Char)
    (hfuel : 2 * ('\n' :: (indent (depth + 1) ++ ((item.render (depth + 1)).toList ++
      (tail ']' depth (items.map (render (depth + 1))) ++ rest)))).length + 1 ≤ fuel) :
    readItems fuel ('\n' :: (indent (depth + 1) ++ ((item.render (depth + 1)).toList ++
      (tail ']' depth (items.map (render (depth + 1))) ++ rest)))) =
      some ((item :: items).map canonical, rest) := by
  induction items generalizing item fuel with
  | nil =>
    obtain ⟨fuel, rfl⟩ : ∃ n, fuel = n + 1 := ⟨fuel - 1, by omega⟩
    have hvalue := hitems item List.mem_cons_self (depth + 1) fuel _ (tail_head ']' depth [] rest) (by
      simp at hfuel ⊢
      omega)
    rw [readItems, readValue_skip (skip_indent (depth + 1) _), List.map_nil, hvalue]
    simp only [Option.bind_eq_bind, Option.bind_some]
    rw [skip_tail_nil rfl]
    rfl
  | cons next items ih =>
    obtain ⟨fuel, rfl⟩ : ∃ n, fuel = n + 1 := ⟨fuel - 1, by omega⟩
    have hvalue := hitems item List.mem_cons_self (depth + 1) fuel _
      (tail_head ']' depth ((next :: items).map (render (depth + 1))) rest) (by
        simp at hfuel ⊢
        omega)
    have hitems' := ih next (fun i hi => hitems i (List.mem_cons_of_mem _ hi)) fuel (by
      simp [tail] at hfuel ⊢
      omega)
    rw [readItems, readValue_skip (skip_indent (depth + 1) _), hvalue]
    simp only [Option.bind_eq_bind, Option.bind_some]
    rw [List.map_cons, skip_tail_cons]
    simp only [hitems', Option.bind_some]
    rfl

lemma toList_number (n depth : Nat) : ((number n).render depth).toList = Nat.toDigits 10 n := by
  rw [render, Nat.toString_eq_ofList_toDigits, String.toList_ofList]

lemma toList_quote (s : String) : (quote s).toList = '"' :: (s.toList.flatMap escape ++ ['"']) := by
  have hquote : ("\"" : String).toList = ['"'] := rfl
  simp [quote, hquote]

/-- The text of a field. -/
def fieldText (depth : Nat) (f : String × Json) : String :=
  quote f.1 ++ ": " ++ f.2.render depth

lemma toList_fieldText (depth : Nat) (f : String × Json) : (fieldText depth f).toList =
    '"' :: (f.1.toList.flatMap escape ++ '"' :: ':' :: ' ' :: (f.2.render depth).toList) := by
  have hcolon : (": " : String).toList = [':', ' '] := rfl
  simp [fieldText, toList_quote, hcolon]

lemma readFields_field {fuel depth : Nat} {f : String × Json} {value : Json} {rest rest' : List Char}
    (hvalue : readValue fuel ((f.2.render depth).toList ++ rest) = some (value, rest')) :
    readFields (fuel + 1) ('\n' :: (indent depth ++ ((fieldText depth f).toList ++ rest))) =
      match skip rest' with
      | ',' :: rest => (readFields fuel rest).map fun (fields, rest) => ((f.1, value) :: fields, rest)
      | '\x7d' :: rest => some ([(f.1, value)], rest)
      | _ => none := by
  have hblank : skip (' ' :: ((f.2.render depth).toList ++ rest)) = skip ((f.2.render depth).toList ++ rest) :=
    skip_of_isBlank rfl _
  rw [readFields, skip_indent, toList_fieldText, List.cons_append, skip_of_not_isBlank rfl]
  simp only [List.append_assoc, List.cons_append, readString_quoted, Option.bind_eq_bind, Option.bind_some]
  rw [skip_of_not_isBlank rfl]
  simp only [readValue_skip hblank, hvalue, Option.bind_some, String.ofList_toList]
  split
  · rename_i rest _
    cases readFields fuel rest <;> rfl
  · rfl
  · rfl

lemma readFields_parts (f : String × Json) {fields : List (String × Json)}
    (hfields : ∀ g ∈ f :: fields, ReadsBack g.2) (depth fuel : Nat) (rest : List Char)
    (hfuel : 2 * ('\n' :: (indent (depth + 1) ++ ((fieldText (depth + 1) f).toList ++
      (tail '\x7d' depth (fields.map (fieldText (depth + 1))) ++ rest)))).length + 1 ≤ fuel) :
    readFields fuel ('\n' :: (indent (depth + 1) ++ ((fieldText (depth + 1) f).toList ++
      (tail '\x7d' depth (fields.map (fieldText (depth + 1))) ++ rest)))) =
      some ((f :: fields).map fun g => (g.1, g.2.canonical), rest) := by
  induction fields generalizing f fuel with
  | nil =>
    obtain ⟨fuel, rfl⟩ : ∃ n, fuel = n + 1 := ⟨fuel - 1, by omega⟩
    have hvalue := hfields f List.mem_cons_self (depth + 1) fuel _ (tail_head '\x7d' depth [] rest) (by
      simp [toList_fieldText] at hfuel ⊢
      omega)
    rw [List.map_nil, readFields_field hvalue, skip_tail_nil rfl]
    rfl
  | cons next fields ih =>
    obtain ⟨fuel, rfl⟩ : ∃ n, fuel = n + 1 := ⟨fuel - 1, by omega⟩
    have hvalue := hfields f List.mem_cons_self (depth + 1) fuel _
      (tail_head '\x7d' depth ((next :: fields).map (fieldText (depth + 1))) rest) (by
        simp [toList_fieldText] at hfuel ⊢
        omega)
    have hfields' := ih next (fun g hg => hfields g (List.mem_cons_of_mem _ hg)) fuel (by
      simp [tail] at hfuel ⊢
      omega)
    rw [readFields_field hvalue, List.map_cons, skip_tail_cons]
    simp only [hfields', Option.map_some]
    rfl

lemma renderItems_eq (depth : Nat) (items : List Json) :
    renderItems depth items = items.map (render depth) := by
  induction items with
  | nil => rfl
  | cons item items ih => rw [renderItems, ih, List.map_cons]

lemma renderFields_eq (depth : Nat) (fields : List (String × Json)) :
    renderFields depth fields = fields.map fun f => (f.1, f.2.render depth) := by
  induction fields with
  | nil => rfl
  | cons f fields ih => rw [renderFields, ih, List.map_cons]

/-- The fields of an object in order of their keys. -/
def sorted (fields : List (String × Json)) : List (String × Json) :=
  fields.mergeSort fun f g => f.1 ≤ g.1

lemma map_sorted {α : Type} (change : String × Json → String × α) (hkey : ∀ f, (change f).1 = f.1)
    (fields : List (String × Json)) :
    (fields.map change).mergeSort (fun f g => f.1 ≤ g.1) = (sorted fields).map change := by
  refine (List.map_mergeSort ?_).symm
  intro f _ g _
  rw [hkey, hkey]

lemma render_array (depth : Nat) (items : List Json) : (array items).render depth =
    enclose (String.singleton '[') (String.singleton ']') depth (items.map (render (depth + 1))) := by
  rw [render, renderItems_eq]
  rfl

lemma render_object (depth : Nat) (fields : List (String × Json)) : (object fields).render depth =
    enclose (String.singleton '\x7b') (String.singleton '\x7d') depth
      ((sorted fields).map (fieldText (depth + 1))) := by
  rw [render, renderFields_eq]
  rw [map_sorted (fun f => (f.1, f.2.render (depth + 1))) (fun _ => rfl), List.map_map]
  rfl

lemma canonical_object (fields : List (String × Json)) :
    (object fields).canonical = object ((sorted fields).map fun f => (f.1, f.2.canonical)) := by
  rw [canonical, map_sorted (fun f => (f.1, f.2.canonical)) fun _ => rfl]

lemma mem_sorted {f : String × Json} {fields : List (String × Json)} : f ∈ sorted fields ↔ f ∈ fields :=
  List.mem_mergeSort

lemma exists_render (value : Json) (depth : Nat) : ∃ c cs, (value.render depth).toList = c :: cs ∧
    isBlank c = false ∧ c ≠ ']' := by
  cases value with
  | null => exact ⟨'n', ['u', 'l', 'l'], by rw [render]; rfl, rfl, by decide⟩
  | bool b =>
    cases b with
    | true => exact ⟨'t', ['r', 'u', 'e'], by rw [render]; rfl, rfl, by decide⟩
    | false => exact ⟨'f', ['a', 'l', 's', 'e'], by rw [render]; rfl, rfl, by decide⟩
  | number n =>
    obtain ⟨c, cs, hdigits, hc⟩ := (isWhole_toDigits n).exists_cons
    exact ⟨c, cs, by rw [toList_number, hdigits], isBlank_of_isDigit hc, ne_of_isDigit hc rfl⟩
  | decimal d =>
    obtain ⟨c, cs, htext, hc⟩ := exists_decimalText_cons d
    exact ⟨c, cs, by rw [render, htext], isBlank_of_isDigit hc, ne_of_isDigit hc rfl⟩
  | string s => exact ⟨'"', _, by rw [render, toList_quote], rfl, by decide⟩
  | array items =>
    rw [render_array]
    cases items with
    | nil => exact ⟨'[', _, toList_enclose_nil _ _ _, rfl, by decide⟩
    | cons item items => exact ⟨'[', _, toList_enclose _ _ _ _ _, rfl, by decide⟩
  | object fields =>
    rw [render_object]
    cases sorted fields with
    | nil => exact ⟨'\x7b', _, toList_enclose_nil _ _ _, rfl, by decide⟩
    | cons f fields => exact ⟨'\x7b', _, toList_enclose _ _ _ _ _, rfl, by decide⟩

lemma readsBack_of_succ {value : Json}
    (h : ∀ depth fuel (rest : List Char), (∀ c ∈ rest.head?, continuesNumber c = false) →
      2 * ((value.render depth).toList ++ rest).length ≤ fuel + 1 →
        readValue (fuel + 1) ((value.render depth).toList ++ rest) = some (value.canonical, rest)) :
    ReadsBack value := by
  intro depth fuel rest hrest hfuel
  cases fuel with
  | zero =>
    obtain ⟨c, cs, htext, -⟩ := exists_render value depth
    simp [htext] at hfuel
  | succ fuel => exact h depth fuel rest hrest hfuel

lemma readsBack_array {items : List Json} (h : ∀ item ∈ items, ReadsBack item) : ReadsBack (array items) := by
  refine readsBack_of_succ fun depth fuel rest _ hfuel => ?_
  rw [render_array] at hfuel ⊢
  rw [canonical]
  cases items with
  | nil =>
    rw [List.map_nil, toList_enclose_nil, List.cons_append, List.singleton_append, readValue_array,
      skip_of_not_isBlank rfl]
    rfl
  | cons item items =>
    rw [List.map_cons, toList_enclose] at hfuel ⊢
    have hitems := readItems_parts item h depth fuel rest (by simp at hfuel ⊢; omega)
    obtain ⟨c, cs, hitem, hblank, hclosing⟩ := exists_render item (depth + 1)
    rw [List.cons_append, readValue_array]
    simp only [List.cons_append, List.append_assoc] at hitems ⊢
    rw [hitems, skip_indent, hitem, List.cons_append, skip_of_not_isBlank hblank]
    split
    next hc => exact absurd (List.cons.inj hc).1 hclosing
    next => rfl

lemma readsBack_object {fields : List (String × Json)} (h : ∀ f ∈ fields, ReadsBack f.2) :
    ReadsBack (object fields) := by
  refine readsBack_of_succ fun depth fuel rest _ hfuel => ?_
  rw [render_object] at hfuel ⊢
  rw [canonical_object]
  generalize hsorted : sorted fields = parts at hfuel ⊢
  have hparts : ∀ f ∈ parts, ReadsBack f.2 := fun f hf => h f (mem_sorted.1 (hsorted ▸ hf))
  cases parts with
  | nil =>
    rw [List.map_nil, toList_enclose_nil, List.cons_append, List.singleton_append, readValue_object,
      skip_of_not_isBlank rfl]
    rfl
  | cons f parts =>
    rw [List.map_cons, toList_enclose] at hfuel ⊢
    have hfields := readFields_parts f hparts depth fuel rest (by simp at hfuel ⊢; omega)
    rw [List.cons_append, readValue_object]
    simp only [List.cons_append, List.append_assoc] at hfields ⊢
    rw [hfields, skip_indent, toList_fieldText, List.cons_append, skip_of_not_isBlank rfl]
    rfl

lemma readsBack_of_readNumber {value : Json}
    (hfirst : ∀ depth, ∃ c cs, (value.render depth).toList = c :: cs ∧ c.isDigit = true)
    (hread : ∀ depth (rest : List Char), (∀ c ∈ rest.head?, continuesNumber c = false) →
      readNumber ((value.render depth).toList ++ rest) = some (value.canonical, rest)) :
    ReadsBack value := by
  refine readsBack_of_succ fun depth fuel rest hrest _ => ?_
  obtain ⟨c, cs, htext, hc⟩ := hfirst depth
  have hnumber := hread depth rest hrest
  rw [htext, List.cons_append] at hnumber ⊢
  rw [readValue_number fuel hc, hnumber]

lemma readsBack_number (n : Nat) : ReadsBack (number n) := by
  refine readsBack_of_readNumber (fun depth => ?_) fun depth rest hrest => ?_
  · rw [toList_number]
    exact (isWhole_toDigits n).exists_cons
  · rw [toList_number, canonical, readNumber_toDigits n hrest]

lemma readsBack_decimal (d : Decimal) : ReadsBack (decimal d) := by
  refine readsBack_of_readNumber (fun depth => ?_) fun depth rest hrest => ?_
  · rw [render]
    exact exists_decimalText_cons d
  · rw [render, canonical, readNumber_decimalText d hrest]

/-- What is written is read back in canonical form. -/
theorem readsBack (value : Json) : ReadsBack value := by
  induction value using parts_induction with
  | null =>
    refine readsBack_of_succ fun depth fuel rest _ _ => ?_
    rw [render, canonical]
    exact readValue_null fuel rest
  | bool b =>
    refine readsBack_of_succ fun depth fuel rest _ _ => ?_
    rw [render, canonical]
    cases b with
    | true => exact readValue_true fuel rest
    | false => exact readValue_false fuel rest
  | number n => exact readsBack_number n
  | decimal d => exact readsBack_decimal d
  | string s =>
    refine readsBack_of_succ fun depth fuel rest _ _ => ?_
    rw [render, toList_quote, List.cons_append, List.append_assoc, List.singleton_append, readValue_string,
      readString_quoted, canonical]
    simp
  | array items ih => exact readsBack_array ih
  | object fields ih => exact readsBack_object ih

/-- A reader gets what has been written, and nothing but blanks may stand behind it. -/
theorem read?_render (value : Json) (depth : Nat) {blanks : List Char} (h : ∀ c ∈ blanks, isBlank c = true) :
    read? (value.render depth ++ String.ofList blanks) = some value.canonical := by
  have hdigit : ∀ c ∈ blanks.head?, continuesNumber c = false := by
    intro c hc
    exact continuesNumber_of_isBlank (h c (List.mem_of_mem_head? hc))
  have hskip : skip blanks = [] := by
    rw [skip, ← List.append_nil blanks, List.dropWhile_append_of_pos h]
    rfl
  have hread := readsBack value depth _ blanks hdigit (Nat.le_refl _)
  rw [read?, String.toList_append, String.toList_ofList, hread]
  simp [hskip]

end Shading.CommandLine.Json
