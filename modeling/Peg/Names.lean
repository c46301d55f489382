/-
  Names for values, as scripts give them.
-/

namespace Peg

/-- An association of names with values, in which the last value given for a name counts. -/
abbrev Names (α : Type) : Type := List (String × α)

namespace Names

variable {α : Type}

def put (names : Names α) (name : String) (a : α) : Names α := (name, a) :: names

def erase (names : Names α) (name : String) : Names α := names.filter (·.1 != name)

end Names

end Peg
