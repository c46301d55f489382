import Peg.Sample.Grammar
import Peg.Trial

/-
  Suites: fixed trials of the sample grammar and of each kind of rule, with what must hold of them.
  A suite makes its trials on one tree, in order, and stops at the first step where something does
  not hold, so any kind of tree can be held to the same matching.
-/

namespace Peg.Sample

open Label Rule

/-- A trial to make: a rule, what to match before it, and the input. -/
structure Case where
  input : String
  rule : Rule Char Label
  lead : Rule Char Label := succeed

/-- What must hold of a trial, and of the attempts counted in the suite so far. -/
inductive Expectation
  | outcome (outcome : Outcome Nat)
  | offset (offset : Nat)
  | spans (spans : List (Label × Nat × Nat))
  | labels (labels : List Label)
  | size (size : Nat)
  | parent (i : Nat) (parent : Option Nat)
  | unchanged
  | tries (counter : String) (n : Nat)

def Expectation.holds {M : Type} (events : List (Event Label M))
    (report : TrialReport Label) : Expectation → Bool
  | outcome o => report.outcome = o
  | offset n => report.offset = n
  | spans xs => report.spans = xs
  | labels xs => report.nodes.map (·.label) = xs
  | size n => report.nodes.length = n
  | parent i p => (report.nodes[i]?).any (·.parent = p)
  | unchanged => report.unchanged
  | tries counter n => Event.tries counter events = n

/-- Trials that are all made before any is checked, and what must hold of each. -/
structure Step where
  cases : List Case
  expected : List Expectation

abbrev Suite : Type := List Step

section

variable {T M : Type} [NodeTree T Label M] [NodeView T Label] [DecidableEq M]

/-- How a suite stands: the tree, the events so far, and whether all held. -/
structure Standing (T M : Type) where
  tree : T
  events : List (Event Label M)
  passed : Bool

/-- Make trials in order, up to the first with a fault, with the reports of the others; none if the
bound is too small. -/
def runCases (bound : Nat) : List Case → Standing T M →
    Option (Standing T M × List (TrialReport Label))
  | [], standing => some (standing, [])
  | case :: cases, standing =>
    let setting := ⟨.ofString case.input, workspace.registry.lookup, .text⟩
    (Trial.runAfter setting bound case.lead case.rule standing.tree).bind fun trial =>
      let events := standing.events ++ trial.events
      match trial.report with
      | .ok report =>
        (runCases bound cases ⟨trial.tree, events, true⟩).map fun (standing, reports) =>
          (standing, report :: reports)
      | .error _ => some (⟨trial.tree, events, false⟩, [])

/-- Make the trials of each step and check them, up to the first step that does not hold; none if
the bound is too small. -/
def runSuite (bound : Nat) : Suite → Standing T M → Option (Standing T M)
  | [], standing => some standing
  | step :: steps, standing =>
    (runCases bound step.cases standing).bind fun (standing, reports) =>
      if standing.passed && reports.all fun report =>
          step.expected.all (·.holds standing.events report) then
        runSuite bound steps standing
      else some { standing with passed := false }

end

def check (input : String) (rule : Rule Char Label) (expected : List Expectation) : Step :=
  ⟨[{ input := input, rule := rule }], expected⟩

def checkAfter (lead : Rule Char Label) (input : String) (rule : Rule Char Label)
    (expected : List Expectation) : Step :=
  ⟨[{ input := input, rule := rule, lead := lead }], expected⟩

def matchedTo (n : Nat) : List Expectation := [.outcome .matched, .offset n]

def unmatchedAt (n : Nat) : List Expectation := [.outcome .unmatched, .offset n]

def failedAt (n : Nat) : List Expectation := [.outcome (.failed (.mandatory n))]

def unmatchedUnchanged : List Expectation := [.outcome .unmatched, .unchanged]

/-- The basic behaviours. -/
def scenarios : Suite :=
  let grammar := seq [store number (plus digit), Rule.atEnd]
  [ check "123" grammar [.outcome .matched, .spans [(number, 0, 3)], .offset 3],
    check "12a" grammar [.outcome .unmatched, .offset 0, .size 0],
    check "#xy" (mandatoryIf (literal "#") (plus digit)) (failedAt 1),
    check "ab;cd" (untilPast (literal ";")) (matchedTo 3),
    check "abcd" (untilPast (literal ";")) (unmatchedAt 0) ]

/-- A rule that does not match leaves the cursor as it was, with the nodes already there. -/
def failureTransparency : Suite :=
  [ is 'x',
    seq [store number digit, store number (is 'x')],
    or [store item (is 'x'), seq [digit, is 'x']],
    plus (store sign (is '-')),
    times (store number digit) 3,
    untilPast (store key (is 'z')),
    untilAt (is 'z'),
    ahead (store key (is 'x')),
    notAhead (store key digit),
    store entry (seq [store key (plus digit), is ';']),
    literal "12y",
    units ['1', '2', 'y'],
    fail,
    Rule.atEnd,
    recover (is 'x'),
    recover (store value (mandatoryIf digit (is 'y'))),
    listRule,
    wordRule,
    seq [numberRule, is ';'] ].map fun rule =>
      checkAfter (store word (is 'a')) "a12x;" rule unmatchedUnchanged

/-- Lookahead consumes nothing and leaves no nodes, whether or not it matches. -/
def lookahead : Suite :=
  let input := "abc"
  [ check input (ahead (store word (literal "ab"))) (matchedTo 0 ++ [.size 0]),
    check input (ahead (is 'x')) (unmatchedAt 0),
    check input (notAhead (store word (is 'x'))) (matchedTo 0 ++ [.size 0]),
    check input (notAhead (literal "ab")) (unmatchedAt 0),
    check input (ahead (seq [any, any, any, Rule.atEnd])) (matchedTo 0),
    check input (seq [ahead (is 'a'), store word (literal "abc")])
      [.outcome .matched, .spans [(word, 0, 3)]],
    check input (notAhead (store word (mandatoryIf (is 'a') (is 'x')))) (failedAt 1 ++ [.size 0]) ]

/-- A sequence consumes all of what its rules do, or nothing. -/
def sequence : Suite :=
  let input := "12ab"
  let numberThenWord := [store number (plus digit), store word (plus letter)]
  [ check input (seq numberThenWord) (matchedTo 4 ++ [.spans [(number, 0, 2), (word, 2, 4)]]),
    check input (seq (numberThenWord ++ [is '!'])) unmatchedUnchanged,
    check input (seq [seq [digit, digit], seq [letter, digit]]) unmatchedUnchanged,
    check input (seq []) (matchedTo 0),
    check input (seq [is '1', is '2']) (matchedTo 2),
    check input (seq [digit, store number digit, letter])
      (matchedTo 3 ++ [.spans [(number, 1, 2)]]) ]

/-- Choice takes the first alternative that matches, and does not try the rest. -/
def choice : Suite :=
  [ check "a" (or [counted "first" (store item (is 'a')), counted "second" (store value (is 'a'))])
      [.outcome .matched, .spans [(item, 0, 1)], .tries "first" 1, .tries "second" 0],
    check "a"
      (or [counted "first" (store item (literal "ab")), counted "second" (store value (is 'a'))])
      [.outcome .matched, .spans [(value, 0, 1)], .tries "first" 2, .tries "second" 1],
    check "a" (or [store item (is 'b'), store value (is 'c')]) unmatchedUnchanged,
    check "a" (or []) [.outcome .unmatched],
    check "ab" (or [seq [is 'a', is 'x'], seq [is 'a', is 'b']]) (matchedTo 2) ]

/-- Repetition is greedy and gives nothing back. -/
def repetition : Suite :=
  let input := "aaab"
  let wordA := store word (is 'a')
  let matchedUnchanged := [Expectation.outcome .matched, .unchanged]
  [ check input (star wordA) (matchedTo 3 ++ [.spans [(word, 0, 1), (word, 1, 2), (word, 2, 3)]]),
    check input (star (is 'x')) (matchedTo 0),
    check input (seq [star (is 'a'), is 'a']) unmatchedUnchanged,
    check input (plus (is 'b')) unmatchedUnchanged,
    check input (plus (is 'a')) (matchedTo 3),
    check input (opt (is 'x')) (matchedTo 0),
    check input (opt (is 'a')) (matchedTo 1),
    check input (times wordA 3) (matchedTo 3 ++ [.size 3]),
    check input (times wordA 4) unmatchedUnchanged,
    check input (star (opt (is 'x'))) (matchedTo 0),
    check input (plus (notAhead (is 'x'))) (matchedTo 0),
    checkAfter (literal "aaab") input (opt (store word succeed)) matchedUnchanged,
    checkAfter (literal "aaab") input (star (store word succeed)) matchedUnchanged ]

/-- A hard failure passes through everything but recovery, and its nodes are abandoned. -/
def escalation : Suite :=
  let input := "(1, )"
  let pairs := store list (mandatoryIf (is '(') (seq [
    store item digit,
    star (mandatoryIf (literal ", ") (store item digit)),
    is ')']))
  let enclosed := [
    or [pairs, literal input],
    star pairs,
    opt pairs,
    ahead pairs,
    seq [succeed, pairs],
    untilAt pairs,
    store entry pairs]
  [ check input pairs (failedAt 4 ++ [.size 0]),
    ⟨enclosed.map fun rule => { input := input, rule := rule }, failedAt 4 ++ [.size 0]⟩,
    check input (recover pairs) unmatchedUnchanged,
    check input (or [recover pairs, store value (literal input)])
      [.outcome .matched, .spans [(value, 0, 5)]],
    check input (store list (seq [store item (is '('), mandatory (is 'x')]))
      (failedAt 1 ++ [.size 0]),
    checkAfter (store item (is '(')) input (storeMandatory value (is 'x'))
      (failedAt 1 ++ [.spans [(item, 0, 1)]]),
    check "x" (storeMandatory item digit) (failedAt 0 ++ [.size 0]),
    check input (storeIf key (is '(') digit) [.outcome .matched, .spans [(key, 1, 2)]],
    check input (mandatoryIf (is 'x') digit) [.outcome .unmatched],
    check input (storeIf key (is 'x') digit) unmatchedUnchanged,
    check input (mandatory succeed) (matchedTo 0) ]

/-- A scan stops at the first place that matches, and never tries the end of input after a skip. -/
def scanning : Suite :=
  let input := "ab;cd"
  [ check input (untilAt (literal ";")) (matchedTo 2),
    check input (untilPast (store sign (is ';'))) (matchedTo 3 ++ [.spans [(sign, 2, 3)]]),
    check input (untilAt (store sign (is ';'))) (matchedTo 2 ++ [.size 0]),
    check input (untilPast (store word (seq [letter, is ';'])))
      (matchedTo 3 ++ [.spans [(word, 1, 3)]]),
    check input (untilAt (is 'a')) (matchedTo 0),
    check input (untilPast Rule.atEnd) unmatchedUnchanged,
    checkAfter (literal "ab;cd") input (untilPast Rule.atEnd) (matchedTo 5),
    check input (untilPast (is 'd')) (matchedTo 5),
    check input (untilPast (store key (is 'z'))) unmatchedUnchanged,
    check input (untilPast (mandatoryIf (is 'b') (is 'x'))) (failedAt 2) ]

/-- How deep the lists of the grammar suite are nested. -/
def nestDepth : Nat := 100

/-- Nested lists, and entries on lines. -/
def grammar : Suite :=
  [ check (flat 3) listRule [.outcome .matched, .spans [
      (list, 0, 9),
      (item, 1, 2), (number, 1, 2),
      (item, 4, 5), (number, 4, 5),
      (item, 7, 8), (number, 7, 8)]],
    check "(a, (b, -2), ())" listRule (matchedTo 16 ++ [
      .spans [
        (list, 0, 16),
        (item, 1, 2), (word, 1, 2),
        (item, 4, 11), (list, 4, 11),
        (item, 5, 6), (word, 5, 6),
        (item, 8, 10), (number, 8, 10), (sign, 8, 9),
        (item, 13, 15), (list, 13, 15)],
      .parent 3 (some 0), .parent 4 (some 3), .parent 9 (some 8)]),
    check "(1, )" listRule (failedAt 4 ++ [.size 0]),
    check "(1 2)" listRule (failedAt 1),
    check "x" listRule [.outcome .unmatched],
    check (nest nestDepth) listRule [.outcome .matched, .size (2 * nestDepth + 1)],
    check "a = 1\n# note\n  b=(x, 2)  \n\n" entriesRule [.outcome .matched, .labels [
      entry, key, value, number,
      entry, key, value, list, item, word, item, number]],
    check "a = 1\n# last" entriesRule [.outcome .matched],
    check "a = 1\n#" entriesRule [.outcome .matched],
    check "a = \n" entriesRule (failedAt 3),
    check "a 1" entriesRule [.outcome .unmatched] ]

def suiteNamed? : String → Option Suite
  | "scenarios" => some scenarios
  | "failure_transparency" => some failureTransparency
  | "lookahead" => some lookahead
  | "sequence" => some sequence
  | "choice" => some choice
  | "repetition" => some repetition
  | "escalation" => some escalation
  | "scan" => some scanning
  | "grammar" => some grammar
  | _ => none

end Peg.Sample
