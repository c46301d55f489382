import Peg.Cursor

/-
  Events: what a match reports while it goes on. All but the counting of attempts are also lines of
  the log.
-/

namespace Peg

inductive Level
  | trace
  | debug
  | warn
deriving DecidableEq

def Level.name : Level → String
  | trace => "TRACE"
  | debug => "DEBUG"
  | warn => "WARN"

structure LogLine where
  level : Level
  text : String
deriving DecidableEq

def LogLine.render (line : LogLine) : String := line.level.name ++ " " ++ line.text

inductive Event (L M : Type)
  /-- A mandatory rule did not match here. -/
  | mandatoryFailed (position : Position M)
  /-- The failure of the mandatory rule here was caught. -/
  | recovered (position : Position M)
  /-- A hard failure passed through a node of this label. -/
  | whileParsing (label : L)
  /-- A reference was matched before its rule was defined. -/
  | notDefined
  /-- A reference was matched after its rule was dropped. -/
  | dropped
  /-- A counted rule was tried. -/
  | tried (counter : String)
deriving DecidableEq

namespace Event

variable {L M : Type}

def logLine? [Describe L] [Describe M] : Event L M → Option LogLine
  | mandatoryFailed position =>
    some ⟨.trace, "mandatory rule failed at " ++ describe position⟩
  | recovered position =>
    some ⟨.debug, "recovered from mandatory failure at " ++ describe position⟩
  | whileParsing label => some ⟨.debug, "while parsing " ++ describe label⟩
  | notDefined => some ⟨.warn, "forward rule matched before being defined"⟩
  | dropped => some ⟨.warn, "forward rule matched after being dropped"⟩
  | tried _ => none

def logLines [Describe L] [Describe M] (events : List (Event L M)) : List LogLine :=
  events.filterMap logLine?

/-- Whether this is an attempt at a rule with the given counter. -/
def isTry (counter : String) : Event L M → Bool
  | tried name => name = counter
  | _ => false

/-- How many times a counted rule was tried. -/
def tries (counter : String) (events : List (Event L M)) : Nat := events.countP (isTry counter)

end Event

end Peg
