import Shading.Condition.Arithmetic
import Shading.Condition.Defined
import Shading.Condition.Expansion

/-!
# Conditions

A condition is a list of tokens. Questions for macros are answered first, then macros are
expanded, and what results is computed.
-/
namespace Shading.Condition

/-- The value of a condition in the presence of these macros. -/
def value (table : DefineTable) (expansionLimit : Nat) (ts : List Token) :
    Except CompileError Int64 := do
  let resolved ← (resolveDefined table.contains ts).mapError (.directive <| .condition ·)
  let expanded ← expand table expansionLimit resolved
  (evaluate expanded).mapError (.directive <| .condition ·)

end Shading.Condition
