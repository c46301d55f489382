import Peg.CharClass
import Peg.Describe
import Peg.Input

/-
  Rules of a parsing expression grammar over units `U`, with nodes labelled by `L`. Rules hold no
  state; a rule that refers to itself does so by the number of a reference. The terminals for text
  and the rules that commit to what follows a guard are written in terms of the others.
-/

namespace Peg

inductive Rule (U L : Type)
  /-- A single unit with the property. -/
  | unit (p : U → Bool)
  /-- The given units in order. -/
  | units (us : List U)
  /-- No input is left. -/
  | atEnd
  | succeed
  | fail
  /-- All in order, or nothing. -/
  | seq (rules : List (Rule U L))
  /-- The first that matches. -/
  | or (rules : List (Rule U L))
  /-- As often as it matches and makes progress. -/
  | star (rule : Rule U L)
  /-- As `star`, but at least once. -/
  | plus (rule : Rule U L)
  /-- Once if it can; not tried at the end of input. -/
  | opt (rule : Rule U L)
  /-- Exactly so many times in a row. -/
  | times (rule : Rule U L) (n : Nat)
  /-- Whether the rule matches here; consumes and records nothing. -/
  | ahead (rule : Rule U L)
  /-- Whether the rule does not match here; consumes and records nothing. -/
  | notAhead (rule : Rule U L)
  /-- Skip to the first place where the rule matches, and go past that. -/
  | untilPast (rule : Rule U L)
  /-- Not to match is a hard failure. -/
  | mandatory (rule : Rule U L)
  /-- A hard failure of a mandatory rule inside is as if this did not match. -/
  | recover (rule : Rule U L)
  /-- Record a node that spans what the rule matches. -/
  | store (label : L) (rule : Rule U L)
  /-- The rule that the reference of this number stands for. -/
  | ref (i : Nat)
  /-- Count each time the rule is tried. -/
  | counted (counter : String) (rule : Rule U L)
  /-- There is never room: a hard failure. -/
  | exhaust

namespace Rule

variable {U L : Type}

def any : Rule U L := unit fun _ => true

def is [DecidableEq U] (u : U) : Rule U L := unit (· = u)

def oneOf [DecidableEq U] (us : List U) : Rule U L := unit (· ∈ us)

def noneOf [DecidableEq U] (us : List U) : Rule U L := unit (· ∉ us)

def between [LE U] [DecidableLE U] (lo hi : U) : Rule U L := unit fun u => lo ≤ u && u ≤ hi

/-- Stop just before the first place where the rule matches. -/
def untilAt (rule : Rule U L) : Rule U L := untilPast (ahead rule)

/-- Once the guard has matched, the rule is mandatory. -/
def mandatoryIf (guard rule : Rule U L) : Rule U L := seq [guard, mandatory rule]

/-- A node for a mandatory rule. -/
def storeMandatory (label : L) (rule : Rule U L) : Rule U L := store label (mandatory rule)

/-- Once the guard has matched, the rule is mandatory and recorded; the guard is not. -/
def storeIf (label : L) (guard rule : Rule U L) : Rule U L :=
  seq [guard, storeMandatory label rule]

def literal (s : String) : Rule Char L := units s.toList

def digit : Rule Char L := unit CharClass.isDigit

def letter : Rule Char L := unit CharClass.isLetter

def alphaNum : Rule Char L := unit CharClass.isAlphaNum

def blank : Rule Char L := unit CharClass.isBlank

/-- The counters that the rule holds, in order. -/
def counters : Rule U L → List String
  | seq rules | or rules => rules.attach.flatMap fun ⟨rule, _⟩ => rule.counters
  | star rule | plus rule | opt rule | times rule _ | ahead rule | notAhead rule
  | untilPast rule | mandatory rule | recover rule | store _ rule => rule.counters
  | counted counter rule => counter :: rule.counters
  | unit _ | units _ | atEnd | succeed | fail | ref _ | exhaust => []

end Rule

/-- The rules made from a function, of which no more can be shown. -/
inductive FunctionRule
  | satisfying
  | calling
deriving DecidableEq

instance : Describe FunctionRule where
  describe
    | .satisfying => "Satisfy(..)"
    | .calling => "FromFn(..)"

end Peg
