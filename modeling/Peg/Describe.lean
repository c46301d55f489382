/-
  The short text by which a value is named in messages and log lines.
-/

namespace Peg

/-- How a value is written in messages. -/
class Describe (α : Type) where
  describe : α → String

export Describe (describe)

instance : Describe Nat := ⟨Nat.repr⟩

instance : Describe String := ⟨id⟩

instance {α : Type} [Describe α] : Describe (Option α) where
  describe
    | none => "None"
    | some a => "Some(" ++ describe a ++ ")"

end Peg
