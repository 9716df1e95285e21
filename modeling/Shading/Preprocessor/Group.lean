/-!
# Groups of conditional text

A group begins with a condition and ends with its `#endif`; between them it has branches, of
which at most one is selected. Groups are nested, and a group within text that is left out
selects nothing.
-/
namespace Shading

/-- An open group: whether the text around it counts, whether the current branch does, whether
a branch has been selected, and whether the last branch has begun. -/
structure Group where
  enclosing : Bool
  active : Bool
  taken : Bool
  elseSeen : Bool := false
  deriving DecidableEq, Repr

namespace Group

/-- A group whose first branch has this condition. -/
def opened (enclosing condition : Bool) : Group :=
  { enclosing, active := enclosing && condition, taken := enclosing && condition }

/-- Whether the condition of a further branch is asked for. -/
def isOpenToBranch (g : Group) : Bool :=
  g.enclosing && !g.taken

/-- The group in a further branch, selected or not. -/
def branch (g : Group) (selected : Bool) : Group :=
  { g with active := selected, taken := g.taken || selected }

/-- The group in its last branch, which is selected if no other was. -/
def lastBranch (g : Group) : Group :=
  { g with active := g.isOpenToBranch, taken := true, elseSeen := true }

end Group

end Shading
