import Peg.Arena

/-
  Node trees: what a cursor records nodes in. There are three: an arena, an arena that also keeps
  the trail of labels a hard failure passed through, and a counter that records no node and only
  knows how many are open.
-/

namespace Peg

/-- A store of nodes under construction, with marks to go back to. -/
class NodeTree (T : Type) (L M : outParam Type) where
  mark : T → M
  /-- Undo every change made since the mark was taken. -/
  rewind : T → M → T
  /-- Open a node that starts at an offset; none if there is no room. -/
  openNode? : T → L → Nat → Option T
  /-- Close the innermost open node at an offset. -/
  complete : T → L → Nat → Except Fault T
  /-- Drop the innermost open node and all inside it. -/
  abandon : T → L → Except Fault T
  /-- A hard failure passes through the node of this label, which was just abandoned. -/
  unwind : T → L → T := fun tree _ => tree

/-- A node tree whose nodes can be looked at. -/
class NodeView (T : Type) (L : outParam Type) where
  nodes : T → List (Node L)
  get? : T → Nat → Option (Node L)
  /-- How many nodes are open; none if the chain of open nodes does not end. -/
  openDepth? : T → Option Nat

variable {S L : Type}

instance [Slots S L] [DecidableEq L] : NodeTree (Arena S) L Mark where
  mark := Arena.mark
  rewind := Arena.rewind
  openNode? := Arena.openNode?
  complete := Arena.complete
  abandon := Arena.abandon

instance [Slots S L] : NodeView (Arena S) L where
  nodes := Arena.toList
  get? := Arena.get?
  openDepth? := Arena.openDepth?

/-- An arena over a fixed row of slots. -/
abbrev RowTree (L : Type) : Type := Arena (SlotRow L)

/-- An arena without limit. -/
abbrev ArrayTree (L : Type) : Type := Arena (Array (Node L))

/-- An arena without limit and the labels of the nodes that a hard failure passed through,
innermost first. Going back to a mark ends the failure, so it clears the trail. -/
structure TrailTree (L : Type) where
  arena : ArrayTree L
  trail : List L
deriving DecidableEq

namespace TrailTree

def empty : TrailTree L := ⟨.ofSlots #[], []⟩

variable [DecidableEq L]

instance : NodeTree (TrailTree L) L Mark where
  mark tree := tree.arena.mark
  rewind tree mark := ⟨tree.arena.rewind mark, []⟩
  openNode? tree label start := (tree.arena.openNode? label start).map (⟨·, tree.trail⟩)
  complete tree label stop := (tree.arena.complete label stop).map (⟨·, tree.trail⟩)
  abandon tree label := (tree.arena.abandon label).map (⟨·, tree.trail⟩)
  unwind tree label := ⟨tree.arena, tree.trail ++ [label]⟩

instance : NodeView (TrailTree L) L where
  nodes tree := tree.arena.toList
  get? tree := tree.arena.get?
  openDepth? tree := tree.arena.openDepth?

end TrailTree

/-- How many nodes are open, for matching that records none. -/
structure DepthTree (L : Type) where
  depth : Nat
deriving DecidableEq

namespace DepthTree

def empty : DepthTree L := ⟨0⟩

def complete (tree : DepthTree L) : Except Fault (DepthTree L) :=
  match tree.depth with
  | 0 => .error .nothingToComplete
  | depth + 1 => .ok ⟨depth⟩

def abandon (tree : DepthTree L) : Except Fault (DepthTree L) :=
  match tree.depth with
  | 0 => .error .nothingToAbandon
  | depth + 1 => .ok ⟨depth⟩

instance : NodeTree (DepthTree L) L Nat where
  mark := depth
  rewind _ mark := ⟨mark⟩
  openNode? tree _ _ := some ⟨tree.depth + 1⟩
  complete tree _ _ := tree.complete
  abandon tree _ := tree.abandon

/-- There are no nodes to look at. -/
instance : NodeView (DepthTree L) L where
  nodes _ := []
  get? _ _ := none
  openDepth? tree := some tree.depth

end DepthTree

end Peg
