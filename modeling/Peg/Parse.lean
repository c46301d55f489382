import Peg.Location
import Peg.Matching
import Peg.ParseTree

/-
  Parsing: match a rule once from the start of an input, with an empty tree, and report what came
  of it. The rule need not consume all of the input. A failed mandatory rule is a syntax error,
  located by line and column where the input is text.
-/

namespace Peg

/-- Where a mandatory rule did not match, and the nodes that were open there, innermost first. -/
structure SyntaxError (L : Type) where
  offset : Nat
  location : Option Location
  trail : List L
deriving DecidableEq

/-- The labels of nodes each of which lies in the next. -/
def nesting {L : Type} [Describe L] : List L → String
  | [] => ""
  | label :: labels =>
    " while parsing " ++ describe label ++ String.join (labels.map (" in " ++ describe ·))

namespace SyntaxError

def place {L : Type} (error : SyntaxError L) : String :=
  match error.location with
  | some location => location.display
  | none => "offset " ++ describe error.offset

def message {L : Type} [Describe L] (error : SyntaxError L) : String :=
  "syntax error at " ++ error.place ++ nesting error.trail

end SyntaxError

inductive ParseError (L : Type)
  | noMatch
  | malformed (error : SyntaxError L)
  | exhausted
deriving DecidableEq

def ParseError.message {L : Type} [Describe L] : ParseError L → String
  | noMatch => "input did not match"
  | malformed error => error.message
  | exhausted => "node storage exhausted"

/-- The tree of a successful parse and the offset where it ended. -/
structure Parsed (L : Type) where
  tree : ParseTree L
  length : Nat

/-- What came of a parse, and what it reported on the way. -/
structure ParseReport (L : Type) where
  answer : Except Fault (Except (ParseError L) (Parsed L))
  events : List (Event L Mark)
  /-- The last line of the log. -/
  summary : Option LogLine

namespace ParseReport

variable {L : Type}

def logLines [Describe L] (report : ParseReport L) : List LogLine :=
  Event.logLines report.events ++ report.summary.toList

/-- Report the result of a match over an input of the given length. -/
def ofResult [Describe L] (locate : Nat → Option Location) (total : Nat)
    (result : Result (TrailTree L) L Mark) : ParseReport L :=
  match result.outcome with
  | .matched =>
    let consumed := result.cursor.offset
    ⟨result.cursor.tree.finish.map fun tree => .ok ⟨tree, consumed⟩, result.events,
      some ⟨.debug, "matched " ++ describe consumed ++ " of " ++ describe total ++ " units"⟩⟩
  | .unmatched => ⟨.ok (.error .noMatch), result.events, some ⟨.debug, "no match"⟩⟩
  | .failed (.mandatory position) =>
    let error : SyntaxError L := ⟨position.offset, locate position.offset, result.cursor.tree.trail⟩
    ⟨.ok (.error (.malformed error)), result.events, some ⟨.debug, error.message⟩⟩
  | .failed .exhausted => ⟨.ok (.error .exhausted), result.events, none⟩
  | .faulted fault => ⟨.error fault, result.events, none⟩

end ParseReport

section

variable {U L : Type} [DecidableEq L] [Describe L]

/-- Parse, with syntax errors located as given; none if the bound is too small. -/
def parseLocating [InputUnit U] [DecidableEq U] (locate : Nat → Option Location)
    (references : Nat → Reference U L) (bound : Nat) (rule : Rule U L) (input : Input U) :
    Option (ParseReport L) :=
  (Matching.run ⟨input, references, .text⟩ bound rule (.start TrailTree.empty)).map
    (.ofResult locate input.length)

/-- Parse text. -/
def parse (references : Nat → Reference Char L) (bound : Nat) (rule : Rule Char L)
    (input : Input Char) : Option (ParseReport L) :=
  parseLocating (fun offset => some (.of input offset)) references bound rule input

/-- Parse units that are not text. -/
def parseUnits [InputUnit U] [DecidableEq U] (references : Nat → Reference U L) (bound : Nat)
    (rule : Rule U L) (input : Input U) : Option (ParseReport L) :=
  parseLocating (fun _ => none) references bound rule input

end

end Peg
