import Peg.Describe

/-
  Faults: uses of nodes, trees and trials that are never right. A fault breaks off whatever is
  going on, and whoever reports one has changed nothing.
-/

namespace Peg

inductive Fault
  /-- A node is to be completed, and none is open. -/
  | nothingToComplete
  /-- A node is to be abandoned, and none is open. -/
  | nothingToAbandon
  /-- The innermost open node has another label than the one to complete. -/
  | completedOther
  /-- The innermost open node has another label than the one to abandon. -/
  | abandonedOther
  /-- A tree is finished while nodes are open. -/
  | openNodes
  /-- Nodes of a finished tree do not come after their parents. -/
  | notPreorder
  /-- What leads up to the rule of a trial did not match. -/
  | leadNotMatched
  /-- A trial ended with a node open. -/
  | nodeLeftOpen
  /-- There is no index past the given one. -/
  | indexOverflow
  /-- A tree of the given length has no node of the given index. -/
  | indexOutOfBounds (length index : Nat)
deriving DecidableEq

namespace Fault

def message : Fault → String
  | nothingToComplete => "no open node to complete"
  | nothingToAbandon => "no open node to abandon"
  | completedOther => "completed node label mismatch"
  | abandonedOther => "abandoned node label mismatch"
  | openNodes => "finished tree has open nodes"
  | notPreorder => "nodes are not in pre-order"
  | leadNotMatched => "prefix must match"
  | nodeLeftOpen => "a node was left open"
  | indexOverflow => "attempt to add with overflow"
  | indexOutOfBounds length index =>
    "index out of bounds: the len is " ++ describe length ++ " but the index is " ++ describe index

end Fault

end Peg
