import Peg.Describe
import Peg.Input

/-
  Locations: line and column of an offset in text, both counted from one, columns in characters.
-/

namespace Peg

structure Location where
  line : Nat
  column : Nat
deriving DecidableEq

namespace Location

/-- The location just past the given text. -/
def past (text : List Char) : Location :=
  ⟨text.count '\n' + 1, (text.reverse.takeWhile (· ≠ '\n')).length + 1⟩

/-- The location of an offset; that of the end where the offset is no boundary. -/
def of (input : Input Char) (offset : Nat) : Location :=
  past ((input.slice? 0 offset).getD input.units)

def display (location : Location) : String :=
  "line " ++ describe location.line ++ ", column " ++ describe location.column

end Location

end Peg
