/-!
# UTF-8

Bytes are read as text. Well-formed bytes are the text they encode; otherwise every malformed
piece, taken as long as it could still have begun a character, is replaced by U+FFFD.
-/
namespace Shading.Text

/-- The bytes of a text. -/
def bytes (s : String) : List UInt8 :=
  s.toByteArray.data.toList

/-- The least and the greatest value of each byte that has to follow `lead` in a character;
`none` if no character begins with `lead`. -/
def followers (lead : UInt8) : Option (List (UInt8 × UInt8)) :=
  if lead < 0x80 then some []
  else if lead < 0xC2 then none
  else if lead < 0xE0 then some [(0x80, 0xBF)]
  else if lead = 0xE0 then some [(0xA0, 0xBF), (0x80, 0xBF)]
  else if lead = 0xED then some [(0x80, 0x9F), (0x80, 0xBF)]
  else if lead < 0xF0 then some [(0x80, 0xBF), (0x80, 0xBF)]
  else if lead = 0xF0 then some [(0x90, 0xBF), (0x80, 0xBF), (0x80, 0xBF)]
  else if lead < 0xF4 then some [(0x80, 0xBF), (0x80, 0xBF), (0x80, 0xBF)]
  else if lead = 0xF4 then some [(0x80, 0x8F), (0x80, 0xBF), (0x80, 0xBF)]
  else none

/-- How many bytes in front lie in the ranges, one after the other. -/
def matching : List (UInt8 × UInt8) → List UInt8 → Nat
  | (low, high) :: ranges, b :: bs =>
    if low ≤ b && b ≤ high then matching ranges bs + 1 else 0
  | _, _ => 0

/-- The code point of a lead byte with its followers, each of which adds six bits. -/
def codePoint (lead : UInt8) (rest : List UInt8) : Nat :=
  let top := if lead < 0x80 then lead.toNat
    else if lead < 0xE0 then lead.toNat % 0x20
    else if lead < 0xF0 then lead.toNat % 0x10
    else lead.toNat % 0x08
  rest.foldl (fun code b => code * 0x40 + b.toNat % 0x40) top

/-- Characters of a byte sequence, with U+FFFD for each malformed piece. -/
def decodeLossy : List UInt8 → List Char
  | [] => []
  | b :: bs =>
    match followers b with
    | none => '\uFFFD' :: decodeLossy bs
    | some ranges =>
      let n := matching ranges bs
      let c := if n = ranges.length then Char.ofNat (codePoint b (bs.take n)) else '\uFFFD'
      c :: decodeLossy (bs.drop n)
termination_by bs => bs.length
decreasing_by all_goals simp only [List.length_cons, List.length_drop]; omega

/-- The text that the bytes encode, if they are well-formed. -/
def decode? (bs : List UInt8) : Option String :=
  String.fromUTF8? bs.toByteArray

/-- The text of the bytes, with U+FFFD for each malformed piece. -/
def decode (bs : List UInt8) : String :=
  (decode? bs).getD (String.ofList (decodeLossy bs))

end Shading.Text
