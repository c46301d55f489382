import Peg.Input
import Peg.NodeTree

/-
  Finished parse trees: the nodes of a match in the order they were opened, so that a parent comes
  before its children and what is inside a node follows it.
-/

namespace Peg

/-- Whether every parent is an earlier node. -/
def parentsFirst {L : Type} (nodes : Array (Node L)) : Bool :=
  nodes.toList.zipIdx.all fun (node, i) => node.parent.all (· < i)

/-- The nodes of a finished tree, with parents before children. -/
structure ParseTree (L : Type) where
  nodes : Array (Node L)
  parentsFirst : parentsFirst nodes = true

namespace ParseTree

variable {L : Type}

def ofNodes (nodes : Array (Node L)) : Except Fault (ParseTree L) :=
  if h : Peg.parentsFirst nodes = true then .ok ⟨nodes, h⟩ else .error .notPreorder

instance [DecidableEq L] : DecidableEq (ParseTree L) := fun a b =>
  decidable_of_iff (a.nodes = b.nodes) (by cases a; cases b; simp)

def length (tree : ParseTree L) : Nat := tree.nodes.size

def isEmpty (tree : ParseTree L) : Bool := tree.length == 0

def get? (tree : ParseTree L) (id : Nat) : Option (Node L) := tree.nodes[id]?

/-- The node of an id that is known to be in the tree; a fault if it is not. -/
def get (tree : ParseTree L) (id : Nat) : Except Fault (Node L) :=
  match tree.get? id with
  | some node => .ok node
  | none => .error (.indexOutOfBounds tree.length id)

/-- Parents in order: none comes first, then by index. -/
def parentLE : Option Nat → Option Nat → Bool
  | none, _ => true
  | some _, none => false
  | some p, some q => p ≤ q

/-- The nodes from the given index on that have the given parent, up to the first whose parent
comes earlier. -/
def childrenFrom (tree : ParseTree L) (first : Nat) (parent : Option Nat) : List Nat :=
  (((tree.nodes.toList.zipIdx.drop first).takeWhile fun (node, _) =>
    parentLE parent node.parent).filter fun (node, _) => node.parent = parent).map (·.2)

/-- The nodes without a parent. -/
def roots (tree : ParseTree L) : List Nat := tree.childrenFrom 0 none

/-- The largest index there is. -/
def maxIndex : Nat := UInt64.size - 1

/-- The nodes directly inside the given one; a fault if no index lies past it. -/
def children (tree : ParseTree L) (id : Nat) : Except Fault (List Nat) :=
  if id < maxIndex then .ok (tree.childrenFrom (id + 1) (some id)) else .error .indexOverflow

/-- The part of the input that the node spans. -/
def slice? {U : Type} [InputUnit U] (tree : ParseTree L) (id : Nat) (input : Input U) :
    Option (List U) :=
  (tree.get? id).bind fun node => input.slice? node.start node.stop

def text? (tree : ParseTree L) (id : Nat) (input : Input Char) : Option String :=
  (tree.slice? id input).map String.ofList

end ParseTree

/-- The tree of the recorded nodes; a fault if some are open. -/
def TrailTree.finish {L : Type} (tree : TrailTree L) : Except Fault (ParseTree L) :=
  if tree.arena.openDepth? = some 0 then ParseTree.ofNodes tree.arena.slots else .error .openNodes

end Peg
