import Peg.Matching
import Peg.Names

/-
  Scripts of calls on a cursor, one answer a call. Positions are saved under names.
-/

namespace Peg.Script

inductive CursorCall (U L : Type)
  | tryRule (rule : Rule U L)
  | tryEach (rules : List (Rule U L))
  | tryFirst (rules : List (Rule U L))
  | peek
  | atEnd
  | advance
  | inputLength
  | save (name : String)
  | restore (name : String)
  | progressed (name : String)
  | same (name : String)
  | goTo (offset : Nat)
  | openNode (label : L)
  | complete (label : L)
  | abandon (label : L)
  | unwind (label : L)

inductive CursorAnswer (U M : Type)
  | outcome (outcome : Outcome (Position M))
  | done
  | holds (b : Bool)
  | unit (u? : Option U)
  | length (length : Nat) (isEmpty : Bool)
  | position (position : Position M)

/-- A cursor and the positions saved so far. -/
structure CursorState (T M : Type) where
  cursor : Cursor T
  saved : Names (Position M)

/-- The answer to a call, the state after it, and the events on the way. -/
structure CursorStep (U T L M : Type) where
  answer : CursorAnswer U M
  state : CursorState T M
  events : List (Event L M)

namespace CursorState

variable {U T L M : Type} [InputUnit U] [DecidableEq U] [NodeTree T L M] [DecidableEq M]

def matched (state : CursorState T M) (result : Result T L M) : CursorStep U T L M :=
  ⟨.outcome result.outcome, { state with cursor := result.cursor }, result.events⟩

def changed (state : CursorState T M) : Except Fault (Cursor T) → CursorStep U T L M
  | .ok cursor => ⟨.done, { state with cursor := cursor }, []⟩
  | .error fault => ⟨.outcome (.faulted fault), state, []⟩

/-- Make a call on the cursor; none if the bound is too small for the match, or if the call names a
position that was never saved. -/
def call? (setting : Setting U L) (bound : Nat) (state : CursorState T M) :
    CursorCall U L → Option (CursorStep U T L M)
  | .tryRule rule => (Matching.run setting bound rule state.cursor).map state.matched
  | .tryEach rules =>
    (Matching.matchEach (Matching.run setting bound) rules state.cursor).map state.matched
  | .tryFirst rules =>
    (Matching.matchFirst (Matching.run setting bound) rules state.cursor).map state.matched
  | .peek => some ⟨.unit (state.cursor.peek? setting.input), state, []⟩
  | .atEnd => some ⟨.holds (state.cursor.atEnd setting.input), state, []⟩
  | .advance => some (state.changed (.ok (state.cursor.advance setting.input)))
  | .inputLength => some ⟨.length setting.input.length setting.input.isEmpty, state, []⟩
  | .save name =>
    let position := state.cursor.position
    some ⟨.position position, { state with saved := state.saved.put name position }, []⟩
  | .restore name => (state.saved.lookup name).map fun position =>
    state.changed (.ok (state.cursor.moveTo position))
  | .progressed name => (state.saved.lookup name).map fun position =>
    ⟨.holds (setting.policy.progressed position state.cursor), state, []⟩
  | .same name => (state.saved.lookup name).map fun position =>
    ⟨.holds (state.cursor.position = position), state, []⟩
  | .goTo offset => some (state.changed (.ok (state.cursor.moveTo
    { state.cursor.position with offset := offset })))
  | .openNode label =>
    match state.cursor.openNode? label with
    | some cursor => some ⟨.holds true, { state with cursor := cursor }, []⟩
    | none => some ⟨.outcome (.failed .exhausted), state, []⟩
  | .complete label => some (state.changed (state.cursor.complete label))
  | .abandon label => some (state.changed (state.cursor.abandon label))
  | .unwind label => some (state.changed (.ok
    (if setting.policy.keepsTrail then state.cursor.unwind label else state.cursor)))

end CursorState

end Peg.Script
