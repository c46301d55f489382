import Peg.Forward

/-
  Scripts of calls on a workspace of forward rules, one answer a call. Rules are matched at the
  start of an input on an empty tree.
-/

namespace Peg.Script

inductive ForwardCall (L : Type) (U : Type := Char) [InputUnit U]
  | declare (name : String)
  | define (name : String) (rule : Rule U L) (keep? : Option String)
  | isDefined (name : String)
  | describe (name : String)
  | handle (name handle : String)
  | copy (handle other : String)
  | drop (name : String)
  | tryNamed (name : String) (input : Input U)
  | tryRule (input : Input U) (rule : Rule U L)

inductive ForwardAnswer (L : Type)
  | done
  | holds (b : Bool)
  | text (s : String)
  | result (result : Result (TrailTree L) L Mark)

namespace ForwardAnswer

variable {L : Type}

def events : ForwardAnswer L → List (Event L Mark)
  | result r => r.events
  | _ => []

end ForwardAnswer

variable {L U : Type} [InputUnit U] [DecidableEq U] [DecidableEq L]

/-- Match a rule at the start of an input on an empty tree. -/
def tryAlone (space : Workspace U L) (bound : Nat) (input : Input U) (rule : Rule U L) :
    Option (Result (TrailTree L) L Mark) :=
  Matching.run ⟨input, space.registry.lookup, .text⟩ bound rule (.start .empty)

/-- Make a call on a workspace; none if the bound is too small for the match, or if there is nothing
of the name called. -/
def callForward? (bound : Nat) (space : Workspace U L) :
    ForwardCall L U → Option (ForwardAnswer L × Workspace U L)
  | .declare name => some (.done, space.declare name)
  | .define name rule keep? =>
    (space.define? name rule keep?).map fun (isNew, space) => (.holds isNew, space)
  | .isDefined name => (space.isDefined? name).map fun b => (.holds b, space)
  | .describe name => (space.describe? name).map fun s => (.text s, space)
  | .handle name handle => (space.handle? name handle).map fun space => (.done, space)
  | .copy handle other => (space.copy? handle other).map fun space => (.done, space)
  | .drop name =>
    let (found, space) := space.drop name
    some (.holds found, space)
  | .tryNamed name input =>
    (space.resolve? name).bind fun i =>
      (tryAlone space bound input (.ref i)).map fun r => (.result r, space)
  | .tryRule input rule => (tryAlone space bound input rule).map fun r => (.result r, space)

end Peg.Script
