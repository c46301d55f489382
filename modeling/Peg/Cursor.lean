import Peg.Input
import Peg.NodeTree

/-
  The cursor: where in the input a match is, and the tree it records nodes in. A position is a
  snapshot of both; to move back to one undoes the nodes recorded since.
-/

namespace Peg

/-- An offset in the input and the mark of the tree there. -/
structure Position (M : Type) where
  offset : Nat
  mark : M
deriving DecidableEq

namespace Position

variable {M : Type}

/-- The position as a message names it. -/
def display (position : Position M) : String := "offset " ++ Peg.describe position.offset

instance [Describe M] : Describe (Position M) where
  describe position := "Position \x7b offset: " ++ Peg.describe position.offset ++ ", mark: " ++
    Peg.describe position.mark ++ " \x7d"

end Position

structure Cursor (T : Type) where
  offset : Nat
  tree : T
deriving DecidableEq

namespace Cursor

variable {T L M U : Type}

def start (tree : T) : Cursor T := ⟨0, tree⟩

section Reading

variable [InputUnit U] (input : Input U)

def atEnd (cursor : Cursor T) : Bool := input.length ≤ cursor.offset

def peek? (cursor : Cursor T) : Option U := input.unitAt? cursor.offset

/-- Go past the unit at the cursor; stay where no unit starts. -/
def advance (cursor : Cursor T) : Cursor T :=
  match cursor.peek? input with
  | some u => { cursor with offset := cursor.offset + InputUnit.width u }
  | none => cursor

/-- Go past the unit at the cursor if there is one with the property. -/
def take? (p : U → Bool) (cursor : Cursor T) : Option (Cursor T) :=
  match cursor.peek? input with
  | some u => if p u then some (cursor.advance input) else none
  | none => none

/-- Go past the given units, in order. -/
def takeAll? [DecidableEq U] : List U → Cursor T → Option (Cursor T)
  | [], cursor => some cursor
  | u :: us, cursor => (cursor.take? input (· = u)).bind (takeAll? us)

end Reading

variable [NodeTree T L M]

def position (cursor : Cursor T) : Position M := ⟨cursor.offset, NodeTree.mark cursor.tree⟩

def moveTo (cursor : Cursor T) (position : Position M) : Cursor T :=
  ⟨position.offset, NodeTree.rewind cursor.tree position.mark⟩

def openNode? (cursor : Cursor T) (label : L) : Option (Cursor T) :=
  (NodeTree.openNode? cursor.tree label cursor.offset).map (⟨cursor.offset, ·⟩)

def complete (cursor : Cursor T) (label : L) : Except Fault (Cursor T) :=
  (NodeTree.complete cursor.tree label cursor.offset).map (⟨cursor.offset, ·⟩)

def abandon (cursor : Cursor T) (label : L) : Except Fault (Cursor T) :=
  (NodeTree.abandon cursor.tree label).map (⟨cursor.offset, ·⟩)

def unwind (cursor : Cursor T) (label : L) : Cursor T :=
  { cursor with tree := NodeTree.unwind cursor.tree label }

end Cursor

/-- How much of a cursor's tree a match heeds. -/
structure Policy where
  /-- A repetition goes on after a round that changed the nodes and consumed nothing. -/
  nodesAreProgress : Bool
  /-- The tree is told of the nodes that a hard failure passes through. -/
  keepsTrail : Bool
deriving DecidableEq

namespace Policy

/-- Only consumed input is progress, and the trail is kept. -/
def text : Policy := ⟨false, true⟩

/-- Any change of position is progress, and no trail is kept. -/
def plain : Policy := ⟨true, false⟩

variable {T L M : Type} [NodeTree T L M] [DecidableEq M]

/-- Whether the cursor made progress since the position was taken. -/
def progressed (policy : Policy) (before : Position M) (cursor : Cursor T) : Bool :=
  if policy.nodesAreProgress then cursor.position != before else cursor.offset != before.offset

end Policy

end Peg
