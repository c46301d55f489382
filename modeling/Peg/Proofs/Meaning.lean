import Peg.Matching
import Peg.Proofs.Forest
import Peg.Proofs.Reading

/-
  Meaning: what a rule says about an input at an offset, without cursor, nodes or positions to go
  back to. `Means` gives no match, a match with its end and the forest of labelled spans it is made
  of, or a hard failure with its offset. A rule means at most one thing at an offset
  (`Means.unique`).
-/

namespace Peg

/-- What a rule comes to at an offset. -/
inductive Answer (L : Type)
  | no
  | yes (stop : Nat) (forest : Forest L)
  | failed (failure : HardFailure Unit) (offset : Nat)

namespace Answer

variable {L : Type}

/-- The same, with an earlier forest. -/
def after (before : Forest L) : Answer L → Answer L
  | yes stop forest => yes stop (before ++ forest)
  | answer => answer

/-- Not to match is to match nothing. -/
def accept (offset : Nat) : Answer L → Answer L
  | no => yes offset []
  | answer => answer

/-- To match is to match nothing. -/
def look (offset : Nat) : Answer L → Answer L
  | yes _ _ => yes offset []
  | answer => answer

/-- To match is not to match, and the other way round. -/
def deny (offset : Nat) : Answer L → Answer L
  | yes _ _ => no
  | no => yes offset []
  | answer => answer

/-- Not to match is a hard failure. -/
def demand (offset : Nat) : Answer L → Answer L
  | no => failed (.mandatory ()) offset
  | answer => answer

/-- The hard failure of a mandatory rule is not to match. -/
def recover : Answer L → Answer L
  | failed (.mandatory _) _ => no
  | answer => answer

/-- One span around the forest. -/
def wrap (label : L) (start : Nat) : Answer L → Answer L
  | yes stop forest => yes stop [.mk label start stop forest]
  | answer => answer

end Answer

namespace Matching

variable {U L : Type} [InputUnit U]

/-- The rule comes to the answer at the offset. -/
inductive Means (input : Input U) (references : Nat → Reference U L) :
    Rule U L → Nat → Answer L → Prop
  | unit {p offset u} (hu : input.unitAt? offset = some u) (hp : p u = true) :
      Means input references (.unit p) offset (.yes (offset + InputUnit.width u) [])
  | unitNot {p offset} (h : ∀ u, input.unitAt? offset = some u → p u = false) :
      Means input references (.unit p) offset .no
  | units {us offset} (h : input.Spells us offset) :
      Means input references (.units us) offset (.yes (offset + extent us) [])
  | unitsNot {us offset} (h : ¬ input.Spells us offset) :
      Means input references (.units us) offset .no
  | atEnd {offset} (h : input.length ≤ offset) :
      Means input references .atEnd offset (.yes offset [])
  | atEndNot {offset} (h : offset < input.length) : Means input references .atEnd offset .no
  | succeed {offset} : Means input references .succeed offset (.yes offset [])
  | fail {offset} : Means input references .fail offset .no
  | exhaust {offset} : Means input references .exhaust offset (.failed .exhausted offset)
  | seqNil {offset} : Means input references (.seq []) offset (.yes offset [])
  | seqStop {rule rules offset answer} (h : Means input references rule offset answer)
      (ha : ∀ stop forest, answer ≠ .yes stop forest) :
      Means input references (.seq (rule :: rules)) offset answer
  | seqOn {rule rules offset stop forest answer}
      (h : Means input references rule offset (.yes stop forest))
      (hn : Means input references (.seq rules) stop answer) :
      Means input references (.seq (rule :: rules)) offset (answer.after forest)
  | orNil {offset} : Means input references (.or []) offset .no
  | orStop {rule rules offset answer} (h : Means input references rule offset answer)
      (ha : answer ≠ .no) : Means input references (.or (rule :: rules)) offset answer
  | orOn {rule rules offset answer} (h : Means input references rule offset .no)
      (hn : Means input references (.or rules) offset answer) :
      Means input references (.or (rule :: rules)) offset answer
  | starEnd {rule offset} (he : input.length ≤ offset) :
      Means input references (.star rule) offset (.yes offset [])
  | starStop {rule offset answer} (he : offset < input.length)
      (h : Means input references rule offset answer)
      (ha : ∀ stop forest, answer ≠ .yes stop forest) :
      Means input references (.star rule) offset (answer.accept offset)
  | starStill {rule offset forest} (he : offset < input.length)
      (h : Means input references rule offset (.yes offset forest)) :
      Means input references (.star rule) offset (.yes offset forest)
  | starOn {rule offset stop forest answer} (he : offset < input.length)
      (h : Means input references rule offset (.yes stop forest)) (hs : stop ≠ offset)
      (hn : Means input references (.star rule) stop answer) :
      Means input references (.star rule) offset (answer.after forest)
  | plusStop {rule offset answer} (h : Means input references rule offset answer)
      (ha : ∀ stop forest, answer ≠ .yes stop forest) :
      Means input references (.plus rule) offset answer
  | plusOn {rule offset stop forest answer}
      (h : Means input references rule offset (.yes stop forest))
      (hn : Means input references (.star rule) stop answer) :
      Means input references (.plus rule) offset (answer.after forest)
  | optEnd {rule offset} (he : input.length ≤ offset) :
      Means input references (.opt rule) offset (.yes offset [])
  | opt {rule offset answer} (he : offset < input.length)
      (h : Means input references rule offset answer) :
      Means input references (.opt rule) offset (answer.accept offset)
  | timesNil {rule offset} : Means input references (.times rule 0) offset (.yes offset [])
  | timesStop {rule n offset answer} (h : Means input references rule offset answer)
      (ha : ∀ stop forest, answer ≠ .yes stop forest) :
      Means input references (.times rule (n + 1)) offset answer
  | timesOn {rule n offset stop forest answer}
      (h : Means input references rule offset (.yes stop forest))
      (hn : Means input references (.times rule n) stop answer) :
      Means input references (.times rule (n + 1)) offset (answer.after forest)
  | ahead {rule offset answer} (h : Means input references rule offset answer) :
      Means input references (.ahead rule) offset (answer.look offset)
  | notAhead {rule offset answer} (h : Means input references rule offset answer) :
      Means input references (.notAhead rule) offset (answer.deny offset)
  | scanStop {rule offset answer} (h : Means input references rule offset answer)
      (ha : answer ≠ .no) : Means input references (.untilPast rule) offset answer
  | scanEnd {rule offset} (h : Means input references rule offset .no)
      (he : input.length ≤ input.next offset) :
      Means input references (.untilPast rule) offset .no
  | scanOn {rule offset answer} (h : Means input references rule offset .no)
      (he : input.next offset < input.length)
      (hn : Means input references (.untilPast rule) (input.next offset) answer) :
      Means input references (.untilPast rule) offset answer
  | mandatory {rule offset answer} (h : Means input references rule offset answer) :
      Means input references (.mandatory rule) offset (answer.demand offset)
  | recover {rule offset answer} (h : Means input references rule offset answer) :
      Means input references (.recover rule) offset answer.recover
  | store {label rule offset answer} (h : Means input references rule offset answer) :
      Means input references (.store label rule) offset (answer.wrap label offset)
  | ref {i rule offset answer} (hi : references i = .defined rule)
      (h : Means input references rule offset answer) :
      Means input references (.ref i) offset answer
  | refNot {i offset} (hi : ∀ rule, references i ≠ .defined rule) :
      Means input references (.ref i) offset .no
  | counted {counter rule offset answer} (h : Means input references rule offset answer) :
      Means input references (.counted counter rule) offset answer

variable {input : Input U} {references : Nat → Reference U L}

/-- A number of times in a row is a sequence of that many copies. -/
theorem Means.times_iff {rule : Rule U L} {n offset : Nat} {answer : Answer L} :
    Means input references (.times rule n) offset answer ↔
      Means input references (.seq (List.replicate n rule)) offset answer := by
  induction n generalizing offset answer with
  | zero =>
    constructor
    · intro h
      cases h
      exact .seqNil
    · intro h
      cases h
      exact .timesNil
  | succ n ih =>
    constructor
    · intro h
      cases h with
      | timesStop h ha => exact .seqStop h ha
      | timesOn h hn => exact .seqOn h (ih.1 hn)
    · intro h
      cases h with
      | seqStop h ha => exact .timesStop h ha
      | seqOn h hn => exact .timesOn h (ih.2 hn)

/-! ## There is one answer -/

/-- A rule means at most one thing at an offset. -/
theorem Means.unique {rule : Rule U L} {offset : Nat} {answer answer' : Answer L}
    (h : Means input references rule offset answer)
    (h' : Means input references rule offset answer') : answer = answer' := by
  induction h generalizing answer' with
  | unit hu hp =>
    cases h' with
    | unit hu' =>
      rw [hu] at hu'
      cases hu'
      rfl
    | unitNot h => simp [h _ hu] at hp
  | unitNot h =>
    cases h' with
    | unit hu hp => simp [h _ hu] at hp
    | unitNot => rfl
  | units h =>
    cases h' with
    | units => rfl
    | unitsNot h' => contradiction
  | unitsNot h =>
    cases h' with
    | units h' => contradiction
    | unitsNot => rfl
  | atEnd h =>
    cases h' with
    | atEnd => rfl
    | atEndNot h' => omega
  | atEndNot h =>
    cases h' with
    | atEnd h' => omega
    | atEndNot => rfl
  | succeed | fail | exhaust | seqNil | orNil | timesNil =>
    cases h'
    rfl
  | seqStop _ ha ih | plusStop _ ha ih | timesStop _ ha ih =>
    cases h'
    case _ h' => exact ih h'
    case _ h' => exact absurd (ih h') (ha _ _)
  | seqOn _ _ ih ihn | plusOn _ _ ih ihn | timesOn _ _ ih ihn =>
    cases h'
    case _ ha h' => exact absurd (ih h').symm (ha _ _)
    case _ hn h' =>
      cases ih h'
      rw [ihn hn]
  | orStop _ ha ih =>
    cases h' with
    | orStop h' => exact ih h'
    | orOn h' => exact absurd (ih h') ha
  | orOn _ _ ih ihn =>
    cases h' with
    | orStop h' ha => exact absurd (ih h').symm ha
    | orOn _ hn => exact ihn hn
  | starEnd he =>
    cases h' with
    | starEnd => rfl
    | starStop he' | starStill he' | starOn he' => omega
  | starStop he _ ha ih =>
    cases h' with
    | starEnd he' => omega
    | starStop _ h' => rw [ih h']
    | starStill _ h' | starOn _ h' => exact absurd (ih h') (ha _ _)
  | starStill he _ ih =>
    cases h' with
    | starEnd he' => omega
    | starStop _ h' ha => exact absurd (ih h').symm (ha _ _)
    | starStill _ h' => exact ih h'
    | starOn _ h' hs =>
      cases ih h'
      contradiction
  | starOn he _ hs _ ih ihn =>
    cases h' with
    | starEnd he' => omega
    | starStop _ h' ha => exact absurd (ih h').symm (ha _ _)
    | starStill _ h' =>
      cases ih h'
      contradiction
    | starOn _ h' _ hn =>
      cases ih h'
      rw [ihn hn]
  | optEnd he =>
    cases h' with
    | optEnd => rfl
    | opt he' => omega
  | opt he _ ih =>
    cases h' with
    | optEnd he' => omega
    | opt _ h' => rw [ih h']
  | ahead _ ih | notAhead _ ih | mandatory _ ih | recover _ ih | store _ ih | counted _ ih =>
    cases h'
    case _ h' => rw [ih h']
  | scanStop _ ha ih =>
    cases h' with
    | scanStop h' => exact ih h'
    | scanEnd h' | scanOn h' => exact absurd (ih h') ha
  | scanEnd _ he ih =>
    cases h' with
    | scanStop h' ha => exact absurd (ih h').symm ha
    | scanEnd => rfl
    | scanOn _ he' => omega
  | scanOn _ he _ ih ihn =>
    cases h' with
    | scanStop h' ha => exact absurd (ih h').symm ha
    | scanEnd _ he' => omega
    | scanOn _ _ hn => exact ihn hn
  | ref hi _ ih =>
    cases h' with
    | ref hi' h' =>
      rw [hi] at hi'
      cases hi'
      exact ih h'
    | refNot hi' => exact absurd hi (hi' _)
  | refNot hi =>
    cases h' with
    | ref hi' => exact absurd hi' (hi _)
    | refNot => rfl

end Matching

end Peg
