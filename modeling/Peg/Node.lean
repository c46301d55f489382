/-
  Nodes: labelled stretches of input. A store holds its nodes in the order they were opened, and a
  node names its parent by index in that store.
-/

namespace Peg

structure Node (L : Type) where
  label : L
  /-- Offset of the first unit covered. -/
  start : Nat
  /-- Offset just past the last unit covered; equal to `start` while the node is open. -/
  stop : Nat
  /-- The node that was open when this one was opened. -/
  parent : Option Nat
deriving DecidableEq

namespace Node

/-- How many offsets the node covers; none if it stops before it starts. -/
def extent {L : Type} (node : Node L) : Nat := node.stop - node.start

end Node

end Peg
