import Shading.Proofs.Preprocessor.Line

/-!
# Nested groups

Sections of a source whose groups are well nested are trees. The first branch of a group whose
condition holds is selected, or else the last one; the lines of the other branches are passed
over.
-/

namespace Shading

mutual

/-- Lines of a source with well nested groups. -/
inductive Section
  | nil
  | line (l : Line) (h : l.isPlain = true) (following : Section)
  | group (opener : Line) (h : opener.opens = true) (body : Section) (branches : Branches)
      (following : Section)

/-- The lines of a group behind its first branch. -/
inductive Branches
  | endIf (l : Line) (h : l.keyword? = some .endIf)
  | otherwise (l : Line) (h : l.keyword? = some .otherwise) (body : Section) (last : Line)
      (hlast : last.keyword? = some .endIf)
  | elseIf (l : Line) (h : l.keyword? = some .elseIf) (body : Section) (branches : Branches)

end

mutual

def Section.lines : Section → List Line
  | .nil => []
  | .line l _ following => l :: following.lines
  | .group opener _ body branches following =>
    opener :: (body.lines ++ (branches.lines ++ following.lines))

def Branches.lines : Branches → List Line
  | .endIf l _ => [l]
  | .otherwise l _ body last _ => l :: (body.lines ++ [last])
  | .elseIf l _ body branches => l :: (body.lines ++ branches.lines)

end

/-- What happens to a line: with these macros before it it counts, or its condition is asked for; or
it is passed over. -/
inductive Fate
  | kept (table : DefineTable)
  | asked (table : DefineTable)
  | passed
  deriving DecidableEq, Repr

def Fate.counts : Fate → Bool
  | kept _ => true
  | _ => false

def passOver (ls : List Line) : List (Line × Fate) :=
  ls.map fun l => (l, .passed)

mutual

/-- The fates of the lines of a section that counts, and the macros behind it. -/
def Section.select (limit : Nat) (table : DefineTable) :
    Section → List (Line × Fate) × DefineTable
  | .nil => ([], table)
  | .line l _ following =>
    let later := following.select limit (l.redefine table)
    ((l, .kept table) :: later.1, later.2)
  | .group opener _ body branches following =>
    let inside :=
      if opener.holds limit table then
        let selected := body.select limit table
        (selected.1 ++ passOver branches.lines, selected.2)
      else
        let selected := branches.select limit table
        (passOver body.lines ++ selected.1, selected.2)
    let later := following.select limit inside.2
    ((opener, .asked table) :: (inside.1 ++ later.1), later.2)

/-- The fates of the lines of a group behind a branch that is not selected, if no other was. -/
def Branches.select (limit : Nat) (table : DefineTable) :
    Branches → List (Line × Fate) × DefineTable
  | .endIf l _ => ([(l, .passed)], table)
  | .otherwise l _ body last _ =>
    let selected := body.select limit table
    ((l, .passed) :: (selected.1 ++ [(last, .passed)]), selected.2)
  | .elseIf l _ body branches =>
    if l.holds limit table then
      let selected := body.select limit table
      ((l, .asked table) :: (selected.1 ++ passOver branches.lines), selected.2)
    else
      let selected := branches.select limit table
      ((l, .asked table) :: (passOver body.lines ++ selected.1), selected.2)

end

/-- What is left of a line: all of it if it counts, and otherwise only its line break. -/
def Line.remainder (fated : Line × Fate) : Line :=
  match fated.2 with
  | .kept _ => fated.1
  | _ => fated.1.blank

/-- The tokens that a line delivers. -/
def Line.delivered (limit : Nat) (fated : Line × Fate) : List LocatedToken :=
  match fated.2 with
  | .kept table => fated.1.tokens limit table
  | _ => []

/-- What is reported of a line: if it is passed over only its faults, and if its condition is asked
for also that there is no answer. -/
def Line.reported (source : String) (limit : Nat) (fated : Line × Fate) : List Diagnostic :=
  match fated.2 with
  | .kept table => fated.1.reports source limit table
  | .asked table =>
    fated.1.faults source ++ fated.1.conditionReports source limit table
  | .passed => fated.1.faults source

end Shading
