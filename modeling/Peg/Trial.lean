import Peg.Matching

/-
  Trials: match one rule on a tree that is empty and is empty again afterwards. A trial may lead up
  to the rule with another one, which must match, so that the rule starts from some later offset
  with some nodes already there.
-/

namespace Peg

/-- What happened when the rule was matched; positions are reduced to offsets. -/
structure TrialReport (L : Type) where
  outcome : Outcome Nat
  beforeOffset : Nat
  beforeNodes : List (Node L)
  offset : Nat
  nodes : List (Node L)
deriving DecidableEq

namespace TrialReport

variable {L : Type}

/-- Whether the match left the cursor as it was. -/
def unchanged [DecidableEq L] (report : TrialReport L) : Bool :=
  report.offset = report.beforeOffset && report.nodes = report.beforeNodes

def spans (report : TrialReport L) : List (L × Nat × Nat) :=
  report.nodes.map fun node => (node.label, node.start, node.stop)

end TrialReport

/-- The report of a trial, the tree after it, and the events on the way. -/
structure Trial (T L M : Type) where
  report : Except Fault (TrialReport L)
  tree : T
  events : List (Event L M)

namespace Trial

variable {U T L M : Type} [InputUnit U] [DecidableEq U] [NodeTree T L M] [NodeView T L]
  [DecidableEq M]

/-- Report a match that started where another one ended, and empty the tree. -/
def ofResults (empty : M) (before after : Result T L M) : Trial T L M :=
  let events := before.events ++ after.events
  let tree := after.cursor.tree
  match after.outcome with
  | .faulted fault => ⟨.error fault, tree, events⟩
  | outcome =>
    if NodeView.openDepth? tree = some 0 then
      let report := {
        outcome := outcome.map Position.offset
        beforeOffset := before.cursor.offset
        beforeNodes := NodeView.nodes before.cursor.tree
        offset := after.cursor.offset
        nodes := NodeView.nodes tree }
      ⟨.ok report, NodeTree.rewind tree empty, events⟩
    else ⟨.error .nodeLeftOpen, tree, events⟩

/-- Match a rule after another one, from the start of the input; none if the bound is too small. -/
def runAfter (setting : Setting U L) (bound : Nat) (lead rule : Rule U L) (tree : T) :
    Option (Trial T L M) :=
  (Matching.run setting bound lead (.start tree)).bind fun before =>
    match before.outcome with
    | .matched =>
      (Matching.run setting bound rule before.cursor).map (ofResults (NodeTree.mark tree) before)
    | .faulted fault => some ⟨.error fault, before.cursor.tree, before.events⟩
    | _ => some ⟨.error .leadNotMatched, before.cursor.tree, before.events⟩

/-- Match a rule from the start of the input; none if the bound is too small. -/
def run (setting : Setting U L) (bound : Nat) (rule : Rule U L) (tree : T) :
    Option (Trial T L M) :=
  runAfter setting bound .succeed rule tree

end Trial

end Peg
