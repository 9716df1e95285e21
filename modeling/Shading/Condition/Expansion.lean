import Shading.DefineTable
import Shading.Error

/-!
# Macros in conditions

The macros of a condition are expanded all at once. Within the expansion of a macro its own name
stands for itself. Expansions may be nested up to a limit.
-/
namespace Shading.Condition

/-- The macro that a token calls for, unless its name is disabled. -/
def calledMacro? (table : DefineTable) (disabled : List String) : Token → Option Definition
  | .identifier name => if disabled.contains name then none else table.get? name
  | _ => none

/-- What the tokens become, one after the other, up to the first error. -/
def replaceEach (replace : Token → Except CompileError (List Token)) :
    List Token → Except CompileError (List Token)
  | [] => .ok []
  | t :: ts =>
    match replace t with
    | .error e => .error e
    | .ok out => (replaceEach replace ts).map (out ++ ·)

/-- What a token becomes with room for this many nested expansions, of `limit` in all. -/
def expandToken (table : DefineTable) (limit : Nat) :
    (room : Nat) → (disabled : List String) → Token → Except CompileError (List Token)
  | room, disabled, t =>
    match calledMacro? table disabled t with
    | none => .ok [t]
    | some d =>
      match room with
      | 0 => .error (.expansionTooDeep d.name limit)
      | room + 1 => replaceEach (expandToken table limit room (d.name :: disabled)) d.words

/-- The tokens with their macros expanded. -/
def expand (table : DefineTable) (limit : Nat) (ts : List Token) :
    Except CompileError (List Token) :=
  replaceEach (expandToken table limit limit []) ts

end Shading.Condition
