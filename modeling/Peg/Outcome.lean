import Peg.Describe
import Peg.Fault

/-
  What comes of a match: the rule matched, it did not, or a hard failure ended the match, to be
  caught by a recovering rule or by nothing. A fault ends it too and is caught by nothing.
-/

namespace Peg

/-- Why matching stopped; the type of positions is the cursor's. -/
inductive HardFailure (P : Type)
  /-- A mandatory rule did not match here. -/
  | mandatory (position : P)
  /-- There was no room for a node. -/
  | exhausted
deriving DecidableEq

namespace HardFailure

variable {P Q : Type}

def position? : HardFailure P → Option P
  | mandatory position => some position
  | exhausted => none

def map (f : P → Q) : HardFailure P → HardFailure Q
  | mandatory position => mandatory (f position)
  | exhausted => exhausted

/-- The message for a reader, with the position written as given. -/
def message (display : P → String) : HardFailure P → String
  | mandatory position => "mandatory rule failed to match at " ++ display position
  | exhausted => "node storage exhausted"

/-- The failure with all it holds. -/
instance [Describe P] : Describe (HardFailure P) where
  describe
    | mandatory position => "Mandatory(" ++ describe position ++ ")"
    | exhausted => "FailedAlloc(AllocExhausted)"

end HardFailure

inductive Outcome (P : Type)
  | matched
  | unmatched
  | failed (failure : HardFailure P)
  | faulted (fault : Fault)
deriving DecidableEq

namespace Outcome

variable {P Q : Type}

def map (f : P → Q) : Outcome P → Outcome Q
  | matched => matched
  | unmatched => unmatched
  | failed failure => failed (failure.map f)
  | faulted fault => faulted fault

end Outcome

end Peg
