/-!
# Limits

How deep a compilation may go.
-/
namespace Shading

/-- How many expansions of macros may be open at once, and how many includes. -/
structure Limits where
  expansion : Nat := 128
  includeDepth : Nat := 32
  deriving DecidableEq, Repr

/-- The settings of a compiler: its limits, and whether somebody listens to diagnostics. -/
structure Config where
  limits : Limits := {}
  listening : Bool := false
  deriving DecidableEq, Repr

/-- The settings in words. -/
def Config.text (c : Config) : String :=
  "CompilerConfig \x7b recursion_limit: " ++ toString c.limits.expansion ++
    ", max_include_depth: " ++ toString c.limits.includeDepth ++
    ", diagnostic_handler: " ++ toString c.listening ++ " \x7d"

end Shading
