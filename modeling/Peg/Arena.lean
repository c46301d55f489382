import Peg.Describe
import Peg.Fault
import Peg.Slots

/-
  An arena: nodes under construction, kept in the order they were opened. A node names its parent
  by index and the arena keeps the index of the innermost open node, so the open nodes are the
  chain of parents from there. What was opened later is stored later; to undo is to truncate.
-/

namespace Peg

/-- How far an arena had come: how many nodes it held, and the innermost open one. -/
structure Mark where
  size : Nat
  innermost : Option Nat
deriving DecidableEq

instance : Describe Mark where
  describe mark := "ArenaMark \x7b len: " ++ describe mark.size ++ ", open: " ++
    describe mark.innermost ++ " \x7d"

structure Arena (S : Type) where
  slots : S
  innermost : Option Nat
deriving DecidableEq

namespace Arena

variable {S L : Type} [Slots S L]

/-- An arena with no node open, over slots that should be empty. -/
def ofSlots (slots : S) : Arena S := ⟨slots, none⟩

def size (arena : Arena S) : Nat := Slots.size arena.slots

def isEmpty (arena : Arena S) : Bool := arena.size == 0

def get? (arena : Arena S) (i : Nat) : Option (Node L) := Slots.get? arena.slots i

def toList (arena : Arena S) : List (Node L) := Slots.toList arena.slots

/-- The index of the node's parent; none for a root and for an index without a node. -/
def parent? (arena : Arena S) (i : Nat) : Option Nat := (arena.get? i).bind (·.parent)

/-- The nodes from the given one outwards; none if there are more than the given number. -/
def outwards? (arena : Arena S) : Nat → Option Nat → Option (List Nat)
  | _, none => some []
  | 0, some _ => none
  | n + 1, some i => (arena.outwards? n (arena.parent? i)).map (i :: ·)

/-- The open nodes, innermost first. A chain longer than the arena goes round in a circle. -/
def openNodes? (arena : Arena S) : Option (List Nat) :=
  arena.outwards? (arena.size + 1) arena.innermost

def openDepth? (arena : Arena S) : Option Nat := arena.openNodes?.map List.length

def mark (arena : Arena S) : Mark := ⟨arena.size, arena.innermost⟩

def rewind (arena : Arena S) (mark : Mark) : Arena S :=
  ⟨Slots.truncate arena.slots mark.size, mark.innermost⟩

/-- Open a node at an offset; none if there is no room. -/
def openNode? (arena : Arena S) (label : L) (start : Nat) : Option (Arena S) :=
  (Slots.push? arena.slots ⟨label, start, start, arena.innermost⟩).map (⟨·, some arena.size⟩)

variable [DecidableEq L]

/-- Close the innermost open node, which must have the given label, at an offset. -/
def complete (arena : Arena S) (label : L) (stop : Nat) : Except Fault (Arena S) :=
  match arena.innermost with
  | none => .error .nothingToComplete
  | some i =>
    match arena.get? i with
    | none => .error .nothingToComplete
    | some node =>
      if node.label = label then
        .ok ⟨Slots.modify arena.slots i ({ · with stop := stop }), node.parent⟩
      else .error .completedOther

/-- Drop the innermost open node, which must have the given label, and all that came after it. -/
def abandon (arena : Arena S) (label : L) : Except Fault (Arena S) :=
  match arena.innermost with
  | none => .error .nothingToAbandon
  | some i =>
    match arena.get? i with
    | none => .ok ⟨Slots.truncate arena.slots i, none⟩
    | some node =>
      if node.label = label then .ok ⟨Slots.truncate arena.slots i, node.parent⟩
      else .error .abandonedOther

end Arena

end Peg
