/-!
# Padding

A text is widened with blanks to a least width, on the left for numbers and on the right for
words. A text that is wide enough stays as it is.
-/
namespace Shading.Text

/-- The blanks that bring `s` to `width` characters. -/
def blanks (width : Nat) (s : String) : String :=
  String.ofList (List.replicate (width - s.length) ' ')

/-- `s`, moved right until it ends at `width`. -/
def padLeft (width : Nat) (s : String) : String :=
  blanks width s ++ s

/-- `s`, followed by blanks up to `width`. -/
def padRight (width : Nat) (s : String) : String :=
  s ++ blanks width s

end Shading.Text
