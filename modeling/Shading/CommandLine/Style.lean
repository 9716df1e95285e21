/-!
# Styles of a terminal

A styled text stands between a code that turns the style on and one that turns all styles off.
-/
namespace Shading.CommandLine

/-- How a word is shown. -/
inductive Style
  | bold | dimmed | failure | caution | success
  deriving DecidableEq, Repr

namespace Style

/-- The code of a style: bold, faint, bold red, bold yellow, green. -/
def code : Style → String
  | bold => "1"
  | dimmed => "2"
  | failure => "1;31"
  | caution => "1;33"
  | success => "32"

/-- The sequence that turns a style on. -/
def on (style : Style) : String :=
  "\x1b[" ++ style.code ++ "m"

/-- The sequence that turns all styles off. -/
def off : String := "\x1b[0m"

/-- A text in a style, if colours are used. Where the text itself turns styles off, its own is
turned on again. -/
def paint (useColor : Bool) (style : Style) (s : String) : String :=
  if useColor then style.on ++ s.replace off (off ++ style.on) ++ off else s

end Style

end Shading.CommandLine
