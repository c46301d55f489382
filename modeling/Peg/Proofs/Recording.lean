import Peg.Proofs.Adequacy
import Peg.Proofs.Rewriting
import Peg.Sample.Grammar

/-
  Recording: which nodes rules record has no say in what they recognize. Rules that differ in their
  recorded nodes only come to the same answer but for the forest (`Means.recognized`), so their
  matches return together, with one outcome and one end (`recording_is_silent`).
-/

namespace Peg

variable {U L : Type}

namespace Answer

/-- The answer without the forest. -/
def bare : Answer L → Answer L
  | yes stop _ => yes stop []
  | answer => answer

@[simp] theorem bare_after (forest : Forest L) (answer : Answer L) :
    (answer.after forest).bare = answer.bare := by
  cases answer <;> rfl

@[simp] theorem bare_wrap (label : L) (start : Nat) (answer : Answer L) :
    (answer.wrap label start).bare = answer.bare := by
  cases answer <;> rfl

@[simp] theorem bare_accept (offset : Nat) (answer : Answer L) :
    (answer.accept offset).bare = answer.bare.accept offset := by
  cases answer <;> rfl

@[simp] theorem bare_look (offset : Nat) (answer : Answer L) :
    (answer.look offset).bare = answer.bare.look offset := by
  cases answer <;> rfl

@[simp] theorem bare_deny (offset : Nat) (answer : Answer L) :
    (answer.deny offset).bare = answer.bare.deny offset := by
  cases answer <;> rfl

@[simp] theorem bare_demand (offset : Nat) (answer : Answer L) :
    (answer.demand offset).bare = answer.bare.demand offset := by
  cases answer <;> rfl

@[simp] theorem bare_recover (answer : Answer L) :
    answer.recover.bare = answer.bare.recover := by
  cases answer with
  | no | yes => rfl
  | failed failure => cases failure <;> rfl

variable {answer told : Answer L}

theorem eq_yes_of_bare {stop : Nat} {forest : Forest L}
    (h : told.bare = (yes stop forest).bare) : ∃ forest, told = yes stop forest := by
  cases told with
  | yes stop' forest' =>
    cases h
    exact ⟨forest', rfl⟩
  | no | failed => cases h

/-- But for a match, an answer has no forest. -/
theorem eq_of_bare (h : told.bare = answer.bare) (ha : ∀ stop forest, answer ≠ yes stop forest) :
    told = answer := by
  cases answer with
  | yes stop forest => exact absurd rfl (ha stop forest)
  | no | failed =>
    cases told with
    | yes => cases h
    | no | failed => exact h

theorem ne_no_of_bare (h : told.bare = answer.bare) (ha : answer ≠ no) : told ≠ no := by
  rintro rfl
  cases answer with
  | no => exact ha rfl
  | yes | failed => cases h

/-- The outcome that the answer tells of. -/
def outcome : Answer L → Outcome Nat
  | no => .unmatched
  | yes _ _ => .matched
  | failed failure offset => .failed (failure.map fun _ => offset)

/-- Where the answer leaves a cursor. -/
def finish (offset : Nat) : Answer L → Nat
  | no => offset
  | yes stop _ => stop
  | failed _ offset => offset

@[simp] theorem outcome_bare (answer : Answer L) : answer.bare.outcome = answer.outcome := by
  cases answer <;> rfl

@[simp] theorem finish_bare (offset : Nat) (answer : Answer L) :
    answer.bare.finish offset = answer.finish offset := by
  cases answer <;> rfl

end Answer

namespace Rule

/-- The rule inside the nodes that are recorded for all of it. -/
def core : Rule U L → Rule U L
  | store _ rule => rule.core
  | rule => rule

/-- The rule records no node for all of it, and is the second without the nodes for its parts. -/
inductive Bares : Rule U L → Rule U L → Prop
  | unit {p} : Bares (unit p) (unit p)
  | units {us} : Bares (units us) (units us)
  | atEnd : Bares atEnd atEnd
  | succeed : Bares succeed succeed
  | fail : Bares fail fail
  | seq {rules bare} (h : rules.map unrecorded = bare) : Bares (seq rules) (seq bare)
  | or {rules bare} (h : rules.map unrecorded = bare) : Bares (or rules) (or bare)
  | star {rule bare} (h : rule.unrecorded = bare) : Bares (star rule) (star bare)
  | plus {rule bare} (h : rule.unrecorded = bare) : Bares (plus rule) (plus bare)
  | opt {rule bare} (h : rule.unrecorded = bare) : Bares (opt rule) (opt bare)
  | times {rule bare n} (h : rule.unrecorded = bare) : Bares (times rule n) (times bare n)
  | ahead {rule bare} (h : rule.unrecorded = bare) : Bares (ahead rule) (ahead bare)
  | notAhead {rule bare} (h : rule.unrecorded = bare) : Bares (notAhead rule) (notAhead bare)
  | untilPast {rule bare} (h : rule.unrecorded = bare) : Bares (untilPast rule) (untilPast bare)
  | mandatory {rule bare} (h : rule.unrecorded = bare) : Bares (mandatory rule) (mandatory bare)
  | recover {rule bare} (h : rule.unrecorded = bare) : Bares (recover rule) (recover bare)
  | ref {i} : Bares (ref i) (ref i)
  | counted {counter rule bare} (h : rule.unrecorded = bare) :
      Bares (counted counter rule) (counted counter bare)
  | exhaust : Bares exhaust exhaust

theorem bares_core (rule : Rule U L) : Bares rule.core rule.unrecorded := by
  induction rule using core.induct with
  | case1 label rule ih => exact ih
  | case2 rule hs =>
    cases rule with
    | store label rule => exact absurd rfl (hs label rule)
    | seq rules =>
      rw [unrecorded_seq]
      exact .seq rfl
    | or rules =>
      rw [unrecorded_or]
      exact .or rfl
    | _ => constructor <;> rfl

end Rule

namespace Reference

variable {f : Rule U L → Rule U L} {reference : Reference U L}

theorem eq_defined_of_map {rule : Rule U L} (h : reference.map f = defined rule) :
    ∃ origin, reference = defined origin ∧ f origin = rule := by
  cases reference with
  | defined origin =>
    cases h
    exact ⟨origin, rfl, rfl⟩
  | undefined | dropped => cases h

end Reference

namespace Matching

section

variable [InputUnit U] {input : Input U} {references : Nat → Reference U L}

/-- The rule comes to the answer but for the forest. -/
def Recognized (input : Input U) (references : Nat → Reference U L) (rule : Rule U L)
    (offset : Nat) (answer : Answer L) : Prop :=
  ∃ told, Means input references rule offset told ∧ told.bare = answer.bare

/-- The nodes that are recorded for all of a rule change the forest only. -/
theorem Recognized.of_core {rule : Rule U L} {offset : Nat} {answer : Answer L}
    (h : Recognized input references rule.core offset answer) :
    Recognized input references rule offset answer := by
  induction rule using Rule.core.induct with
  | case1 label rule ih =>
    obtain ⟨told, hm, hb⟩ := ih h
    exact ⟨_, .store hm, (Answer.bare_wrap _ _ _).trans hb⟩
  | case2 rule hs =>
    rwa [Rule.core.eq_2 rule hs] at h

/-- What is recognized by the rule inside all nodes for all of a rule is recognized by the rule. -/
theorem recognized_of_bare {rule bare : Rule U L} {offset : Nat} {answer : Answer L}
    (h : ∀ core, Rule.Bares core bare → Recognized input references core offset answer)
    (hr : rule.unrecorded = bare) : Recognized input references rule offset answer := by
  subst hr
  exact (h rule.core rule.bares_core).of_core

theorem matched_of_bare {rule bare : Rule U L} {offset stop : Nat} {forest : Forest L}
    (h : ∀ core, Rule.Bares core bare →
      Recognized input references core offset (.yes stop forest))
    (hr : rule.unrecorded = bare) :
    ∃ forest, Means input references rule offset (.yes stop forest) := by
  obtain ⟨told, hm, ht⟩ := recognized_of_bare h hr
  obtain ⟨forest, rfl⟩ := Answer.eq_yes_of_bare ht
  exact ⟨forest, hm⟩

/-- But for a match, the answer is the same. -/
theorem means_of_bare {rule bare : Rule U L} {offset : Nat} {answer : Answer L}
    (h : ∀ core, Rule.Bares core bare → Recognized input references core offset answer)
    (hr : rule.unrecorded = bare) (ha : ∀ stop forest, answer ≠ .yes stop forest) :
    Means input references rule offset answer := by
  obtain ⟨told, hm, ht⟩ := recognized_of_bare h hr
  obtain rfl := Answer.eq_of_bare ht ha
  exact hm

/-- Rules that differ in the nodes they record only come to the same answer but for the forest. -/
theorem Means.recognized {references' : Nat → Reference U L}
    (hi : ∀ i, (references' i).map Rule.unrecorded = (references i).map Rule.unrecorded)
    {rule : Rule U L} {offset : Nat} {answer : Answer L}
    (h : Means input references rule offset answer) :
    ∀ core, Rule.Bares core rule.unrecorded → Recognized input references' core offset answer := by
  -- The nodes for all of a rule are left out at once on the one side, and in the case of `store` on
  -- the other.
  induction h with
  | unit hu hp =>
    intro core hb
    cases hb
    exact ⟨_, .unit hu hp, rfl⟩
  | unitNot h =>
    intro core hb
    cases hb
    exact ⟨_, .unitNot h, rfl⟩
  | units h =>
    intro core hb
    cases hb
    exact ⟨_, .units h, rfl⟩
  | unitsNot h =>
    intro core hb
    cases hb
    exact ⟨_, .unitsNot h, rfl⟩
  | atEnd h =>
    intro core hb
    cases hb
    exact ⟨_, .atEnd h, rfl⟩
  | atEndNot h =>
    intro core hb
    cases hb
    exact ⟨_, .atEndNot h, rfl⟩
  | succeed =>
    intro core hb
    cases hb
    exact ⟨_, .succeed, rfl⟩
  | fail =>
    intro core hb
    cases hb
    exact ⟨_, .fail, rfl⟩
  | exhaust =>
    intro core hb
    cases hb
    exact ⟨_, .exhaust, rfl⟩
  | seqNil =>
    intro core hb
    cases hb with
    | seq hr =>
      obtain rfl := List.map_eq_nil_iff.1 hr
      exact ⟨_, .seqNil, rfl⟩
  | seqStop _ ha ih =>
    intro core hb
    rw [Rule.unrecorded_seq] at hb
    cases hb with
    | seq hr =>
      obtain ⟨_, _, rfl, hr, -⟩ := List.map_eq_cons_iff.1 hr
      have hm := means_of_bare ih hr ha
      exact ⟨_, .seqStop hm ha, rfl⟩
  | seqOn _ _ ih ihn =>
    intro core hb
    rw [Rule.unrecorded_seq] at hb
    cases hb with
    | seq hr =>
      obtain ⟨_, rules, rfl, hr, hrs⟩ := List.map_eq_cons_iff.1 hr
      obtain ⟨forest, hm⟩ := matched_of_bare ih hr
      rw [Rule.unrecorded_seq] at ihn
      obtain ⟨last, hn, hl⟩ := ihn (.seq rules) (.seq hrs)
      exact ⟨_, .seqOn hm hn, by simpa using hl⟩
  | orNil =>
    intro core hb
    cases hb with
    | or hr =>
      obtain rfl := List.map_eq_nil_iff.1 hr
      exact ⟨_, .orNil, rfl⟩
  | orStop _ ha ih =>
    intro core hb
    rw [Rule.unrecorded_or] at hb
    cases hb with
    | or hr =>
      obtain ⟨_, _, rfl, hr, -⟩ := List.map_eq_cons_iff.1 hr
      obtain ⟨told, hm, ht⟩ := recognized_of_bare ih hr
      exact ⟨_, .orStop hm (Answer.ne_no_of_bare ht ha), ht⟩
  | orOn _ _ ih ihn =>
    intro core hb
    rw [Rule.unrecorded_or] at hb
    cases hb with
    | or hr =>
      obtain ⟨_, rules, rfl, hr, hrs⟩ := List.map_eq_cons_iff.1 hr
      have hm := means_of_bare ih hr nofun
      rw [Rule.unrecorded_or] at ihn
      obtain ⟨last, hn, hl⟩ := ihn (.or rules) (.or hrs)
      exact ⟨_, .orOn hm hn, hl⟩
  | starEnd he =>
    intro core hb
    cases hb
    exact ⟨_, .starEnd he, rfl⟩
  | starStop he _ ha ih =>
    intro core hb
    cases hb with
    | star hr =>
      have hm := means_of_bare ih hr ha
      exact ⟨_, .starStop he hm ha, rfl⟩
  | starStill he _ ih =>
    intro core hb
    cases hb with
    | star hr =>
      obtain ⟨forest, hm⟩ := matched_of_bare ih hr
      exact ⟨_, .starStill he hm, rfl⟩
  | starOn he _ hs _ ih ihn =>
    intro core hb
    cases hb with
    | star hr =>
      obtain ⟨forest, hm⟩ := matched_of_bare ih hr
      obtain ⟨last, hn, hl⟩ := ihn _ (.star hr)
      exact ⟨_, .starOn he hm hs hn, by simpa using hl⟩
  | plusStop _ ha ih =>
    intro core hb
    cases hb with
    | plus hr =>
      have hm := means_of_bare ih hr ha
      exact ⟨_, .plusStop hm ha, rfl⟩
  | plusOn _ _ ih ihn =>
    intro core hb
    cases hb with
    | plus hr =>
      obtain ⟨forest, hm⟩ := matched_of_bare ih hr
      obtain ⟨last, hn, hl⟩ := ihn _ (.star hr)
      exact ⟨_, .plusOn hm hn, by simpa using hl⟩
  | optEnd he =>
    intro core hb
    cases hb
    exact ⟨_, .optEnd he, rfl⟩
  | opt he _ ih =>
    intro core hb
    cases hb with
    | opt hr =>
      obtain ⟨told, hm, ht⟩ := recognized_of_bare ih hr
      exact ⟨_, .opt he hm, by simp [ht]⟩
  | timesNil =>
    intro core hb
    cases hb
    exact ⟨_, .timesNil, rfl⟩
  | timesStop _ ha ih =>
    intro core hb
    cases hb with
    | times hr =>
      have hm := means_of_bare ih hr ha
      exact ⟨_, .timesStop hm ha, rfl⟩
  | timesOn _ _ ih ihn =>
    intro core hb
    cases hb with
    | times hr =>
      obtain ⟨forest, hm⟩ := matched_of_bare ih hr
      obtain ⟨last, hn, hl⟩ := ihn _ (.times hr)
      exact ⟨_, .timesOn hm hn, by simpa using hl⟩
  | ahead _ ih =>
    intro core hb
    cases hb with
    | ahead hr =>
      obtain ⟨told, hm, ht⟩ := recognized_of_bare ih hr
      exact ⟨_, .ahead hm, by simp [ht]⟩
  | notAhead _ ih =>
    intro core hb
    cases hb with
    | notAhead hr =>
      obtain ⟨told, hm, ht⟩ := recognized_of_bare ih hr
      exact ⟨_, .notAhead hm, by simp [ht]⟩
  | scanStop _ ha ih =>
    intro core hb
    cases hb with
    | untilPast hr =>
      obtain ⟨told, hm, ht⟩ := recognized_of_bare ih hr
      exact ⟨_, .scanStop hm (Answer.ne_no_of_bare ht ha), ht⟩
  | scanEnd _ he ih =>
    intro core hb
    cases hb with
    | untilPast hr =>
      have hm := means_of_bare ih hr nofun
      exact ⟨_, .scanEnd hm he, rfl⟩
  | scanOn _ he _ ih ihn =>
    intro core hb
    cases hb with
    | untilPast hr =>
      have hm := means_of_bare ih hr nofun
      obtain ⟨last, hn, hl⟩ := ihn _ (.untilPast hr)
      exact ⟨_, .scanOn hm he hn, hl⟩
  | mandatory _ ih =>
    intro core hb
    cases hb with
    | mandatory hr =>
      obtain ⟨told, hm, ht⟩ := recognized_of_bare ih hr
      exact ⟨_, .mandatory hm, by simp [ht]⟩
  | recover _ ih =>
    intro core hb
    cases hb with
    | recover hr =>
      obtain ⟨told, hm, ht⟩ := recognized_of_bare ih hr
      exact ⟨_, .recover hm, by simp [ht]⟩
  | store _ ih =>
    intro core hb
    obtain ⟨told, hm, ht⟩ := ih core hb
    exact ⟨told, hm, by simpa using ht⟩
  | @ref i rule _ _ hd _ ih =>
    intro core hb
    cases hb
    have hi := hi i
    rw [hd] at hi
    obtain ⟨rule', hd', hr⟩ := Reference.eq_defined_of_map hi
    obtain ⟨told, hm, ht⟩ := recognized_of_bare ih hr
    exact ⟨_, .ref hd' hm, ht⟩
  | @refNot i _ hd =>
    intro core hb
    cases hb
    refine ⟨_, .refNot fun rule hd' => ?_, rfl⟩
    have hi := (hi i).symm
    rw [hd'] at hi
    obtain ⟨rule', hd', -⟩ := Reference.eq_defined_of_map hi
    exact hd rule' hd'
  | counted _ ih =>
    intro core hb
    cases hb with
    | counted hr =>
      obtain ⟨told, hm, ht⟩ := recognized_of_bare ih hr
      exact ⟨_, .counted hm, ht⟩

end

open LawfulTree ForestTree

variable {T M T' M' : Type} [NodeTree T L M] [LawfulTree T] [ForestTree T]

theorem Tells.outcome_eq {cursor : Cursor T} {result : Result T L M} {answer : Answer L}
    (h : Tells cursor result answer) : result.outcome.map Position.offset = answer.outcome := by
  cases answer with
  | no =>
    have ho : result.outcome = .unmatched := h
    rw [ho]
    rfl
  | yes stop forest =>
    rw [h.1]
    rfl
  | failed failure offset => exact h.2

theorem Tells.offset_eq {cursor : Cursor T} {result : Result T L M} {answer : Answer L}
    (h : Tells cursor result answer) (hb : Balanced cursor result) :
    result.cursor.offset = answer.finish cursor.offset := by
  cases answer with
  | no => exact (hb.restored h).1
  | yes stop forest => exact h.2.1
  | failed failure offset => exact h.1

variable [NodeTree T' L M'] [LawfulTree T'] [ForestTree T'] [InputUnit U] [DecidableEq U]
  [DecidableEq M] [DecidableEq M']

/-- The matches return together, and then with one outcome, up to what was stored at a hard failure,
and one end. -/
structure Together (setting setting' : Setting U L) (rule rule' : Rule U L) (cursor : Cursor T)
    (cursor' : Cursor T') : Prop where
  returns_iff : (∃ result : Result T L M, Returns setting rule cursor result) ↔
    ∃ result : Result T' L M', Returns setting' rule' cursor' result
  same : ∀ (result : Result T L M) (result' : Result T' L M'), Returns setting rule cursor result →
    Returns setting' rule' cursor' result' →
      result.outcome.map Position.offset = result'.outcome.map Position.offset ∧
      result.cursor.offset = result'.cursor.offset

theorem together_of_unrecorded {input : Input U} {references references' : Nat → Reference U L}
    {policy : Policy} (hp : policy.nodesAreProgress = false) {rule rule' : Rule U L}
    (hi : ∀ i, (references i).map Rule.unrecorded = (references' i).map Rule.unrecorded)
    (hr : rule.unrecorded = rule'.unrecorded) (cursor : Cursor T) (cursor' : Cursor T')
    (hc : cursor.offset = cursor'.offset) :
    Together ⟨input, references, policy⟩ ⟨input, references', policy⟩ rule rule'
      cursor cursor' := by
  constructor
  · rw [returns_iff_means hp, returns_iff_means hp, ← hc]
    constructor
    · intro ⟨answer, hm⟩
      obtain ⟨told, hm', -⟩ := recognized_of_bare (hm.recognized fun i => (hi i).symm) hr.symm
      exact ⟨told, hm'⟩
    · intro ⟨answer, hm⟩
      obtain ⟨told, hm', -⟩ := recognized_of_bare (hm.recognized hi) hr
      exact ⟨told, hm'⟩
  · intro result result' h h'
    have hb := returns_balanced h
    have hb' := returns_balanced h'
    obtain ⟨_, hg⟩ := returns_iff_goes.1 h
    obtain ⟨_, hg'⟩ := returns_iff_goes.1 h'
    obtain ⟨answer, hm, ht⟩ := goes_means hp hg
    obtain ⟨answer', hm', ht'⟩ := goes_means hp hg'
    rw [← hc] at hm'
    -- What the second rule means, up to the forest, the first means as well.
    obtain ⟨told, htold, hbare⟩ := recognized_of_bare (hm'.recognized hi) hr
    obtain rfl := htold.unique hm
    constructor
    · rw [ht.outcome_eq, ht'.outcome_eq, ← told.outcome_bare, hbare, answer'.outcome_bare]
    · rw [ht.offset_eq hb, ht'.offset_eq hb', ← told.finish_bare, hbare, answer'.finish_bare, hc]

/-- Over text, rules that are the same without the nodes they record, given references that are the
same without them, match together. -/
theorem recording_is_silent [DecidableEq L] (input : Input U)
    (references references' : Nat → Reference U L) (rule rule' : Rule U L)
    (hi : ∀ i, (references i).map Rule.unrecorded = (references' i).map Rule.unrecorded)
    (hr : rule.unrecorded = rule'.unrecorded) :
    (∀ cursor : Cursor (TrailTree L),
      Together ⟨input, references, .text⟩ ⟨input, references', .text⟩ rule rule' cursor cursor) ∧
    ∀ cursor : Cursor (DepthTree L),
      Together ⟨input, references, .text⟩ ⟨input, references', .text⟩ rule rule' cursor cursor :=
  ⟨fun cursor => together_of_unrecorded rfl hi hr cursor cursor rfl,
    fun cursor => together_of_unrecorded rfl hi hr cursor cursor rfl⟩

/-- Signs that may be missing match nothing over and over, recorded or not, and the number that has
to follow `1` is missing at the same place. -/
theorem recording_is_silent_signs :
    let input : Input Char := .ofList ['-', '1', 'x']
    let signs (record : Rule Char Sample.Label → Rule Char Sample.Label) :=
      Rule.seq [.star (record (.opt (.is '-'))), .ref 0]
    let digits : Rule Char Sample.Label := .plus .digit
    let plain : Setting Char Sample.Label :=
      ⟨input, fun _ => .defined (.mandatoryIf (.is '1') digits), .text⟩
    let storing : Setting Char Sample.Label :=
      ⟨input, fun _ => .defined (.storeIf .number (.store .sign (.is '1')) digits), .text⟩
    let rule := signs (.store .sign)
    let cursor : Cursor (TrailTree Sample.Label) := .start .empty
    Together storing plain rule (signs id) cursor cursor ∧ ∃ result,
      Returns storing rule cursor result ∧ result.cursor.offset = 2 ∧
      result.outcome.map Position.offset = .failed (.mandatory 2) := by
  intro input signs digits plain storing rule cursor
  have h : (run storing 20 rule cursor).map
      (fun result => (result.cursor.offset, result.outcome.map Position.offset)) =
      some (2, .failed (.mandatory 2)) := by decide +kernel
  obtain ⟨result, hr, hs⟩ := Option.map_eq_some_iff.1 h
  obtain ⟨hoff, ho⟩ := Prod.mk.inj hs
  exact ⟨(recording_is_silent input storing.references plain.references rule (signs id)
    (fun _ => rfl) rfl).1 cursor, result, ⟨20, hr⟩, hoff, ho⟩

end Matching

end Peg
