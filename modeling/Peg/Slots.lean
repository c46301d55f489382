import Peg.Node

/-
  Slots: where nodes are kept, in the order they were opened. An array takes any number of nodes; a
  row of slots takes as many as it has slots, and the slots it frees are used again.
-/

namespace Peg

/-- A sequence of nodes that may be limited in room. -/
class Slots (S : Type) (L : outParam Type) where
  size : S → Nat
  /-- Append a node; none if there is no room. -/
  push? : S → Node L → Option S
  /-- Drop the nodes from the given index on. -/
  truncate : S → Nat → S
  get? : S → Nat → Option (Node L)
  modify : S → Nat → (Node L → Node L) → S

variable {L : Type}

/-- The stored nodes in order. -/
def Slots.toList {S : Type} [Slots S L] (s : S) : List (Node L) :=
  (List.range (Slots.size s)).filterMap (Slots.get? s)

instance : Slots (Array (Node L)) L where
  size := Array.size
  push? nodes node := some (nodes.push node)
  truncate := Array.shrink
  get? nodes i := nodes[i]?
  modify nodes i f := nodes.modify i f

/-- A row of slots, of which the first `used` hold nodes. -/
structure SlotRow (L : Type) where
  cells : Array (Option (Node L))
  used : Nat
deriving DecidableEq

namespace SlotRow

/-- Take over a row whatever it holds, and empty it. -/
def reuse (cells : Array (Option (Node L))) : SlotRow L := ⟨cells.map fun _ => none, 0⟩

/-- An empty row of the given number of slots. -/
def ofCapacity (capacity : Nat) : SlotRow L := ⟨Array.replicate capacity none, 0⟩

def capacity (row : SlotRow L) : Nat := row.cells.size

def push? (row : SlotRow L) (node : Node L) : Option (SlotRow L) :=
  if row.used < row.capacity then
    some ⟨row.cells.setIfInBounds row.used (some node), row.used + 1⟩
  else none

/-- Empty the given number of slots from an index on. -/
def vacate (cells : Array (Option (Node L))) (first : Nat) : Nat → Array (Option (Node L))
  | 0 => cells
  | count + 1 => vacate (cells.setIfInBounds first none) (first + 1) count

def truncate (row : SlotRow L) (size : Nat) : SlotRow L :=
  if size < row.used then ⟨vacate row.cells size (row.used - size), size⟩ else row

/-- What the slot holds, wherever the stored nodes end. -/
def get? (row : SlotRow L) (i : Nat) : Option (Node L) := (row.cells[i]?).join

def modify (row : SlotRow L) (i : Nat) (f : Node L → Node L) : SlotRow L :=
  { row with cells := row.cells.modify i (Option.map f) }

end SlotRow

instance : Slots (SlotRow L) L where
  size := SlotRow.used
  push? := SlotRow.push?
  truncate := SlotRow.truncate
  get? := SlotRow.get?
  modify := SlotRow.modify

end Peg
