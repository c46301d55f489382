import Peg.Event
import Peg.Outcome
import Peg.Rule

/-
  Matching a rule at a cursor. `step` says what a rule does in terms of how its parts are matched;
  `run` ties the knot with a bound on the depth of rules and the rounds of a loop, and gives no
  result where the bound is too small. A result holds the outcome, the cursor, and the events in
  order, so a match depends on nothing but the setting, the rule and the cursor.
-/

namespace Peg

/-- What a reference stands for. -/
inductive Reference (U L : Type)
  | undefined
  | defined (rule : Rule U L)
  | dropped

/-- What stays the same throughout a match. -/
structure Setting (U L : Type) [InputUnit U] where
  input : Input U
  references : Nat → Reference U L
  policy : Policy

structure Result (T L M : Type) where
  outcome : Outcome (Position M)
  cursor : Cursor T
  events : List (Event L M)

namespace Result

variable {T L M : Type}

/-- The same result, with earlier events. -/
def after (events : List (Event L M)) (result : Result T L M) : Result T L M :=
  { result with events := events ++ result.events }

/-- Go on where this left off if it matched. -/
def andThen (result : Result T L M) (next : Cursor T → Option (Result T L M)) :
    Option (Result T L M) :=
  match result.outcome with
  | .matched => (next result.cursor).map (after result.events)
  | _ => some result

/-- Go on where this left off if it did not match. -/
def orElse (result : Result T L M) (next : Cursor T → Option (Result T L M)) :
    Option (Result T L M) :=
  match result.outcome with
  | .unmatched => (next result.cursor).map (after result.events)
  | _ => some result

variable [NodeTree T L M]

/-- Move back to a position if this did not match. -/
def backTo (position : Position M) (result : Result T L M) : Result T L M :=
  match result.outcome with
  | .unmatched => { result with cursor := result.cursor.moveTo position }
  | _ => result

/-- Matching or not, move back to a position. -/
def lookFrom (position : Position M) (result : Result T L M) : Result T L M :=
  match result.outcome with
  | .matched | .unmatched => { result with cursor := result.cursor.moveTo position }
  | _ => result

/-- Not to match is to match, and the other way round. -/
def negate (result : Result T L M) : Result T L M :=
  match result.outcome with
  | .matched => { result with outcome := .unmatched }
  | .unmatched => { result with outcome := .matched }
  | _ => result

/-- Not to match is to match. -/
def accept (result : Result T L M) : Result T L M :=
  match result.outcome with
  | .unmatched => { result with outcome := .matched }
  | _ => result

/-- Not to match is a hard failure where the cursor is. -/
def demand (result : Result T L M) : Result T L M :=
  match result.outcome with
  | .unmatched =>
    let position := result.cursor.position
    ⟨.failed (.mandatory position), result.cursor,
      result.events ++ [.mandatoryFailed position]⟩
  | _ => result

/-- The hard failure of a mandatory rule is not to match, back at a position. -/
def recoverTo (start : Position M) (result : Result T L M) : Result T L M :=
  match result.outcome with
  | .failed (.mandatory position) =>
    ⟨.unmatched, result.cursor.moveTo start, result.events ++ [.recovered position]⟩
  | _ => result

/-- The outcome stands with the node closed, unless closing it is a fault. -/
def closing (result : Result T L M) (closed : Except Fault (Cursor T)) : Result T L M :=
  match closed with
  | .ok cursor => { result with cursor := cursor }
  | .error fault => { result with outcome := .faulted fault }

/-- Close the node in which the rule was matched: complete it if the rule matched, abandon it if
not, and on a hard failure also say so. -/
def closeNode (policy : Policy) (label : L) (result : Result T L M) : Result T L M :=
  match result.outcome with
  | .matched => result.closing (result.cursor.complete label)
  | .unmatched => result.closing (result.cursor.abandon label)
  | .failed failure =>
    match result.cursor.abandon label with
    | .ok cursor =>
      ⟨.failed failure, if policy.keepsTrail then cursor.unwind label else cursor,
        result.events ++ [.whileParsing label]⟩
    | .error fault => { result with outcome := .faulted fault }
  | .faulted _ => result

end Result

namespace Matching

variable {U L T M : Type} [InputUnit U]

/-- How a part of a rule is matched. -/
abbrev Attempt (U L T M : Type) : Type := Rule U L → Cursor T → Option (Result T L M)

section Parts

variable (attempt : Attempt U L T M)

/-- Each in order, up to the first that does not match. Nothing is undone. -/
def matchEach : List (Rule U L) → Cursor T → Option (Result T L M)
  | [], cursor => some ⟨.matched, cursor, []⟩
  | rule :: rules, cursor => (attempt rule cursor).bind (·.andThen (matchEach rules))

/-- In order up to the first that matches. Nothing is undone. -/
def matchFirst : List (Rule U L) → Cursor T → Option (Result T L M)
  | [], cursor => some ⟨.unmatched, cursor, []⟩
  | rule :: rules, cursor => (attempt rule cursor).bind (·.orElse (matchFirst rules))

/-- So many times in a row, up to the first time it does not match. Nothing is undone. -/
def matchTimes (rule : Rule U L) : Nat → Cursor T → Option (Result T L M)
  | 0, cursor => some ⟨.matched, cursor, []⟩
  | n + 1, cursor => (attempt rule cursor).bind (·.andThen (matchTimes rule n))

variable [NodeTree T L M] [DecidableEq M] (setting : Setting U L)

/-- As often as the rule matches and makes progress, up to the end of input. -/
def greedy (rule : Rule U L) : Nat → Cursor T → Option (Result T L M)
  | 0, _ => none
  | rounds + 1, cursor =>
    if cursor.atEnd setting.input then some ⟨.matched, cursor, []⟩
    else (attempt rule cursor).bind fun result =>
      match result.outcome with
      | .matched =>
        if setting.policy.progressed cursor.position result.cursor then
          (greedy rule rounds result.cursor).map (.after result.events)
        else some result
      | _ => some result.accept

/-- Try the rule at each place from here to before the end of input; at none, move back. -/
def scan (rule : Rule U L) (start : Position M) : Nat → Cursor T → Option (Result T L M)
  | 0, _ => none
  | rounds + 1, cursor =>
    (attempt rule cursor).bind (·.orElse fun cursor =>
      let next := cursor.advance setting.input
      if next.atEnd setting.input then some ⟨.unmatched, next.moveTo start, []⟩
      else scan rule start rounds next)

end Parts

variable [DecidableEq U] [NodeTree T L M] [DecidableEq M]

/-- What a rule does, given how its parts are matched and a bound on the rounds of its loop. -/
def step (setting : Setting U L) (attempt : Attempt U L T M) (rounds : Nat)
    (rule : Rule U L) (cursor : Cursor T) : Option (Result T L M) :=
  match rule with
  | .unit p =>
    match cursor.take? setting.input p with
    | some next => some ⟨.matched, next, []⟩
    | none => some ⟨.unmatched, cursor, []⟩
  | .units us =>
    match cursor.takeAll? setting.input us with
    | some next => some ⟨.matched, next, []⟩
    | none => some ⟨.unmatched, cursor.moveTo cursor.position, []⟩
  | .atEnd => some ⟨if cursor.atEnd setting.input then .matched else .unmatched, cursor, []⟩
  | .succeed => some ⟨.matched, cursor, []⟩
  | .fail => some ⟨.unmatched, cursor, []⟩
  | .seq rules => (matchEach attempt rules cursor).map (.backTo cursor.position)
  | .or rules => matchFirst attempt rules cursor
  | .star rule => greedy attempt setting rule rounds cursor
  | .plus rule =>
    (attempt rule cursor).bind (·.andThen (greedy attempt setting rule rounds))
  | .opt rule =>
    if cursor.atEnd setting.input then some ⟨.matched, cursor, []⟩
    else (attempt rule cursor).map .accept
  | .times rule n => (matchTimes attempt rule n cursor).map (.backTo cursor.position)
  | .ahead rule => (attempt rule cursor).map (.lookFrom cursor.position)
  | .notAhead rule => (attempt rule cursor).map fun result =>
      (result.lookFrom cursor.position).negate
  | .untilPast rule => scan attempt setting rule cursor.position rounds cursor
  | .mandatory rule => (attempt rule cursor).map .demand
  | .recover rule => (attempt rule cursor).map (.recoverTo cursor.position)
  | .store label rule =>
    match cursor.openNode? label with
    | some inside => (attempt rule inside).map (.closeNode setting.policy label)
    | none => some ⟨.failed .exhausted, cursor, []⟩
  | .ref i =>
    match setting.references i with
    | .undefined => some ⟨.unmatched, cursor, [.notDefined]⟩
    | .defined rule => attempt rule cursor
    | .dropped => some ⟨.unmatched, cursor, [.dropped]⟩
  | .counted counter rule => (attempt rule cursor).map (.after [.tried counter])
  | .exhaust => some ⟨.failed .exhausted, cursor, []⟩

/-- Match a rule at a cursor; none if the bound is too small. -/
def run (setting : Setting U L) : Nat → Rule U L → Cursor T → Option (Result T L M)
  | 0, _, _ => none
  | bound + 1, rule, cursor => step setting (run setting bound) bound rule cursor

end Matching

end Peg
