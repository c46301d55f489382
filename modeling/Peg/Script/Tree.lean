import Peg.Names
import Peg.NodeTree

/-
  Scripts of calls on a node tree alone, one answer a call. Marks are saved under names.
-/

namespace Peg.Script

inductive TreeCall (L : Type)
  | openNode (label : L) (start : Nat)
  | complete (label : L) (stop : Nat)
  | abandon (label : L)
  | unwind (label : L)
  | mark (name : String)
  | rewind (name : String)
  | same (name : String)
  | get (i : Nat)
  | fork (label : L) (start : Nat)
deriving DecidableEq

inductive TreeAnswer (T L M : Type)
  | done
  | holds (b : Bool)
  | mark (mark : M)
  | node (node? : Option (Node L))
  | tree (tree : T)
  | exhausted
  | fault (fault : Fault)

/-- A tree and the marks saved so far. -/
structure TreeState (T M : Type) where
  tree : T
  marks : Names M

namespace TreeState

variable {T L M : Type} [NodeTree T L M] [NodeView T L] [DecidableEq M]

def changed (state : TreeState T M) : Except Fault T → TreeAnswer T L M × TreeState T M
  | .ok tree => (.done, { state with tree := tree })
  | .error fault => (.fault fault, state)

/-- Make a call on the tree; none if it names a mark that was never saved. -/
def call? (state : TreeState T M) : TreeCall L → Option (TreeAnswer T L M × TreeState T M)
  | .openNode label start =>
    match NodeTree.openNode? state.tree label start with
    | some tree => some (.holds true, { state with tree := tree })
    | none => some (.exhausted, state)
  | .complete label stop => some (state.changed (NodeTree.complete state.tree label stop))
  | .abandon label => some (state.changed (NodeTree.abandon state.tree label))
  | .unwind label => some (.done, { state with tree := NodeTree.unwind state.tree label })
  | .mark name =>
    let mark := NodeTree.mark state.tree
    some (.mark mark, { state with marks := state.marks.put name mark })
  | .rewind name => (state.marks.lookup name).map fun mark =>
    (.done, { state with tree := NodeTree.rewind state.tree mark })
  | .same name => (state.marks.lookup name).map fun mark =>
    (.holds (NodeTree.mark state.tree = mark), state)
  | .get i => some (.node (NodeView.get? state.tree i), state)
  | .fork label start =>
    some (.tree ((NodeTree.openNode? state.tree label start).getD state.tree), state)

end TreeState

end Peg.Script
