import Peg.Forward

/-
  A sample grammar of numbers, words, nested lists, and entries on lines, and inputs of some shapes
  for it. A list refers to itself through reference 0.
-/

namespace Peg.Sample

inductive Label
  | number
  | word
  | sign
  | list
  | item
  | entry
  | key
  | value
deriving DecidableEq

namespace Label

def all : List Label := [number, word, sign, list, item, entry, key, value]

def name : Label → String
  | number => "Number"
  | word => "Word"
  | sign => "Sign"
  | list => "List"
  | item => "Item"
  | entry => "Entry"
  | key => "Key"
  | value => "Value"

def ofName? (name : String) : Option Label := all.find? (·.name = name)

instance : Describe Label := ⟨name⟩

end Label

open Rule

/-- An integer, perhaps with a minus sign: `-12`. -/
def numberRule : Rule Char Label :=
  store .number (seq [opt (store .sign (is '-')), plus digit])

/-- A letter and then letters or numbers: `a1`. -/
def wordRule : Rule Char Label := store .word (seq [letter, star alphaNum])

/-- A list: what `listBody` says. -/
def listRule : Rule Char Label := ref 0

def blanks : Rule Char Label := star blank

def itemRule : Rule Char Label := store .item (or [numberRule, wordRule, listRule])

/-- Items between parentheses, with commas between them: `(1, a, (b, -2), ())`. What follows the
opening parenthesis is mandatory, and so is an item after a comma. -/
def listBody : Rule Char Label :=
  let items := seq [itemRule, star (mandatoryIf (seq [blanks, is ',', blanks]) itemRule)]
  store .list (mandatoryIf (is '(') (seq [blanks, opt (seq [items, blanks]), is ')']))

/-- Entries `key = value`, one a line, to the end of input. A value is a number, a word or a list,
and is mandatory after the sign. A line can also be blank or hold a comment after `#`. -/
def entriesRule : Rule Char Label :=
  let gap := star (oneOf [' ', '\t'])
  let comment := seq [is '#', or [untilAt (is '\n'), star any]]
  let value := store .value (or [numberRule, wordRule, listRule])
  let entry := store .entry (seq [
    store .key (seq [letter, star alphaNum]),
    gap,
    mandatoryIf (is '=') (seq [gap, value])])
  let line := seq [gap, opt (or [entry, comment]), gap]
  seq [line, star (seq [is '\n', line]), atEnd]

/-- The rules behind the references of the grammar. -/
def recursiveRules : List (Rule Char Label) := [listBody]

def workspace : Workspace Char Label := .ofRules recursiveRules

def ruleNamed? : String → Option (Rule Char Label)
  | "number" => some numberRule
  | "word" => some wordRule
  | "list" => some listRule
  | "entries" => some entriesRule
  | _ => none

/-- A number inside so many lists. -/
def nest (depth : Nat) : String :=
  String.ofList (List.replicate depth '(' ++ '1' :: List.replicate depth ')')

/-- A list of the numbers from one on. -/
def flat (length : Nat) : String :=
  "(" ++ ", ".intercalate ((List.range length).map fun i => Nat.repr (i + 1)) ++ ")"

end Peg.Sample
