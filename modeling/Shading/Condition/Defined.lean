import Shading.Error
import Shading.Token

/-!
# The operator that asks for a macro

In a condition, `defined` with a name, which may stand in parentheses, is one if there is a macro
of that name and zero if there is none. The name is taken as it is written.
-/
namespace Shading.Condition

/-- The constant for an answer. -/
def answer (isDefined : Bool) : Token :=
  .int (if isDefined then 1 else 0)

/-- The tokens with every question for a macro answered, from left to right. -/
def resolveDefined (isDefined : String → Bool) :
    List Token → Except ConditionError (List Token)
  | [] => .ok []
  | t :: ts =>
    if t = .identifier "defined" then
      match ts with
      | .identifier name :: rest =>
        (resolveDefined isDefined rest).map (answer (isDefined name) :: ·)
      | .punct .leftParen :: .identifier name :: .punct .rightParen :: rest =>
        (resolveDefined isDefined rest).map (answer (isDefined name) :: ·)
      | .punct .leftParen :: .identifier _ :: _ => .error .definedUnclosed
      | .punct .leftParen :: _ => .error .definedParenthesisWithoutName
      | _ => .error .definedWithoutName
    else (resolveDefined isDefined ts).map (t :: ·)

end Shading.Condition
