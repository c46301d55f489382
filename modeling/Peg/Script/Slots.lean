import Peg.Slots

/-
  Scripts of calls on slots, one answer a call.
-/

namespace Peg.Script

inductive SlotsCall (L : Type)
  | push (node : Node L)
  | truncate (size : Nat)
  | get (i : Nat)
  | setStop (i stop : Nat)
deriving DecidableEq

inductive SlotsAnswer (L : Type)
  | done
  | found (isThere : Bool)
  | node (node? : Option (Node L))
  | exhausted
deriving DecidableEq

/-- Make a call on slots. -/
def callSlots {S L : Type} [Slots S L] (s : S) : SlotsCall L → SlotsAnswer L × S
  | .push node =>
    match Slots.push? s node with
    | some s => (.found true, s)
    | none => (.exhausted, s)
  | .truncate size => (.done, Slots.truncate s size)
  | .get i => (.node (Slots.get? s i), s)
  | .setStop i stop =>
    ((.found (Slots.get? s i).isSome), Slots.modify s i ({ · with stop := stop }))

end Peg.Script
