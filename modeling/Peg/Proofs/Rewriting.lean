import Peg.Matching

/-
  Rewriting: what becomes of a rule when its mandatory rules and its recorded rules are made into
  something else, wherever they stand in it. `unrecorded` leaves out the nodes, `uncommitted` the
  commitments; both are done to what references stand for as well.
-/

namespace Peg

variable {U L : Type}

namespace Rule

section

variable (commit : Rule U L → Rule U L) (record : L → Rule U L → Rule U L)

mutual

/-- The rule with something made of each mandatory rule and of each recorded rule in it. -/
def remake : Rule U L → Rule U L
  | unit p => unit p
  | units us => units us
  | atEnd => atEnd
  | succeed => succeed
  | fail => fail
  | seq rules => seq (remakeAll rules)
  | or rules => or (remakeAll rules)
  | star rule => star rule.remake
  | plus rule => plus rule.remake
  | opt rule => opt rule.remake
  | times rule n => times rule.remake n
  | ahead rule => ahead rule.remake
  | notAhead rule => notAhead rule.remake
  | untilPast rule => untilPast rule.remake
  | mandatory rule => commit rule.remake
  | recover rule => recover rule.remake
  | store label rule => record label rule.remake
  | ref i => ref i
  | counted counter rule => counted counter rule.remake
  | exhaust => exhaust

def remakeAll : List (Rule U L) → List (Rule U L)
  | [] => []
  | rule :: rules => rule.remake :: remakeAll rules

end

theorem remakeAll_eq_map (rules : List (Rule U L)) :
    remakeAll commit record rules = rules.map (remake commit record) := by
  induction rules with
  | nil => rfl
  | cons rule rules ih => rw [remakeAll, List.map_cons, ih]

end

/-- The rule without the nodes it records. -/
def unrecorded : Rule U L → Rule U L := remake mandatory fun _ rule => rule

theorem unrecorded_seq (rules : List (Rule U L)) :
    (seq rules).unrecorded = seq (rules.map unrecorded) :=
  congrArg seq (remakeAll_eq_map _ _ rules)

theorem unrecorded_or (rules : List (Rule U L)) :
    (or rules).unrecorded = or (rules.map unrecorded) :=
  congrArg or (remakeAll_eq_map _ _ rules)

example (label : L) (guard rule : Rule U L) :
    (storeIf label guard rule).unrecorded = mandatoryIf guard.unrecorded rule.unrecorded := rfl

/-- The rule without its commitments: what was mandatory may not match. -/
def uncommitted : Rule U L → Rule U L := remake id store

theorem uncommitted_seq (rules : List (Rule U L)) :
    (seq rules).uncommitted = seq (rules.map uncommitted) :=
  congrArg seq (remakeAll_eq_map _ _ rules)

theorem uncommitted_or (rules : List (Rule U L)) :
    (or rules).uncommitted = or (rules.map uncommitted) :=
  congrArg or (remakeAll_eq_map _ _ rules)

example (label : L) (guard rule : Rule U L) : (storeIf label guard rule).uncommitted =
    seq [guard.uncommitted, store label rule.uncommitted] := rfl

end Rule

namespace Reference

/-- What a reference stands for, with the rule made over. -/
def map (f : Rule U L → Rule U L) : Reference U L → Reference U L
  | undefined => undefined
  | defined rule => defined (f rule)
  | dropped => dropped

end Reference

end Peg
