import Shading.Token

/-!
# Macros

A macro is a name that stands for tokens. A table holds at most one macro for each name; what is
defined last counts.
-/
namespace Shading

/-- A macro: its name, and the tokens it stands for with their places in the definition. -/
structure Definition where
  name : String
  body : List LocatedToken
  deriving DecidableEq, Repr

/-- The tokens of a macro's body without line breaks. -/
def Definition.words (d : Definition) : List Token :=
  (d.body.map (·.token)).filter (· != .newline)

/-- Macros by name. -/
structure DefineTable where
  entries : List (String × Definition) := []
  deriving DecidableEq, Repr

namespace DefineTable

/-- The table without macros. -/
def empty : DefineTable := {}

/-- The macro of this name. -/
def get? (t : DefineTable) (name : String) : Option Definition :=
  t.entries.lookup name

/-- Whether there is a macro of this name. -/
def contains (t : DefineTable) (name : String) : Bool :=
  (t.get? name).isSome

/-- The table without the macro of this name. -/
def erase (t : DefineTable) (name : String) : DefineTable :=
  { entries := t.entries.filter (·.1 != name) }

/-- The table with this macro under the name, in place of any other. -/
def insert (t : DefineTable) (name : String) (d : Definition) : DefineTable :=
  { entries := (name, d) :: (t.erase name).entries }

/-- The number of macros. -/
def size (t : DefineTable) : Nat :=
  t.entries.length

/-- The length of the longest body. -/
def longestBody (t : DefineTable) : Nat :=
  t.entries.foldr (fun e longest => max e.2.body.length longest) 0

/-- All macros, ordered by name. -/
def toSortedList (t : DefineTable) : List (String × Definition) :=
  t.entries.mergeSort fun a b => a.1 ≤ b.1

theorem length_body_le_longestBody {t : DefineTable} {name : String} {d : Definition}
    (h : t.get? name = some d) : d.body.length ≤ t.longestBody := by
  obtain ⟨entries⟩ := t
  simp only [get?, longestBody] at *
  induction entries with
  | nil => simp at h
  | cons e rest ih =>
    obtain ⟨key, m⟩ := e
    rw [List.lookup_cons] at h
    rw [List.foldr_cons]
    split at h
    · obtain rfl : m = d := by simpa using h
      exact Nat.le_max_left _ _
    · exact Nat.le_trans (ih h) (Nat.le_max_right _ _)

end DefineTable

end Shading
