import Mathlib.Logic.Relation
import Peg.Proofs.Nesting
import Peg.Proofs.Rewriting
import Peg.Sample.Grammar

/-
  Commitment: what is mandatory only makes hard failures of what would not match. Where nothing
  recovers from them, a match that ends without a hard failure has met none on the way, so it goes
  the same way without the commitments (`uncommitted_returns`).
-/

namespace Peg

open Relation

variable {U L : Type}

/-! ## Rules that never recover -/

namespace Rule

/-- The rules directly inside a rule. -/
def inner : Rule U L → List (Rule U L)
  | seq rules | or rules => rules
  | star rule | plus rule | opt rule | times rule _ | ahead rule | notAhead rule
  | untilPast rule | mandatory rule | recover rule | store _ rule | counted _ rule => [rule]
  | unit _ | units _ | atEnd | succeed | fail | ref _ | exhaust => []

/-- From a rule to one directly inside it, or to the one that it refers to. -/
inductive Leads (references : Nat → Reference U L) : Rule U L → Rule U L → Prop
  | inner {rule part} (h : part ∈ rule.inner) : Leads references rule part
  | ref {i rule} (h : references i = .defined rule) : Leads references (.ref i) rule

/-- Neither the rule nor one inside it or referred to from it recovers from hard failures. -/
def Unrecovering (references : Nat → Reference U L) (rule : Rule U L) : Prop :=
  ∀ part, ¬ ReflTransGen (Leads references) rule (recover part)

theorem Unrecovering.leads {references : Nat → Reference U L} {rule part : Rule U L}
    (h : rule.Unrecovering references) (hl : Leads references rule part) :
    part.Unrecovering references :=
  fun last hp => h last (.head hl hp)

mutual

/-- Whether a rule that recovers is in the rule itself. -/
def recovers : Rule U L → Bool
  | recover _ => true
  | seq rules | or rules => recoversIn rules
  | star rule | plus rule | opt rule | times rule _ | ahead rule | notAhead rule
  | untilPast rule | mandatory rule | store _ rule | counted _ rule => rule.recovers
  | unit _ | units _ | atEnd | succeed | fail | ref _ | exhaust => false

def recoversIn : List (Rule U L) → Bool
  | [] => false
  | rule :: rules => rule.recovers || recoversIn rules

end

theorem recovers_of_mem {rules : List (Rule U L)} (h : recoversIn rules = false) {rule : Rule U L}
    (hm : rule ∈ rules) : rule.recovers = false := by
  induction rules with
  | nil => cases hm
  | cons first rules ih =>
    rw [recoversIn, Bool.or_eq_false_iff] at h
    rcases List.mem_cons.1 hm with rfl | hm
    · exact h.1
    · exact ih h.2 hm

theorem recovers_of_inner {rule part : Rule U L} (h : rule.recovers = false)
    (hp : part ∈ rule.inner) : part.recovers = false := by
  cases rule with
  | seq rules | or rules =>
    rw [recovers] at h
    exact recovers_of_mem h hp
  | unit | units | atEnd | succeed | fail | ref | exhaust => cases hp
  | recover rule => cases h
  | _ =>
    obtain rfl := List.mem_singleton.1 hp
    rw [recovers] at h
    exact h

/-- It is enough to look into the rule and into every rule that can be referred to. -/
theorem unrecovering_of_recovers {references : Nat → Reference U L} {rule : Rule U L}
    (hd : ∀ i rule, references i = .defined rule → rule.recovers = false)
    (h : rule.recovers = false) : rule.Unrecovering references := by
  have hf : ∀ part, ReflTransGen (Leads references) rule part → part.recovers = false := by
    intro part hl
    induction hl with
    | refl => exact h
    | tail _ hs ih =>
      cases hs with
      | inner hp => exact recovers_of_inner ih hp
      | ref hi => exact hd _ _ hi
  intro last hl
  cases hf _ hl

end Rule

/-- The setting in which nothing that is referred to is committed. -/
def Setting.uncommitted [InputUnit U] (setting : Setting U L) : Setting U L :=
  { setting with references := fun i => (setting.references i).map Rule.uncommitted }

namespace Matching

variable {T M : Type}

/-- The rules that a task is made of. -/
def Task.rules : Task U L M → List (Rule U L)
  | rule r | greedy r | scan r _ => [r]
  | each rs | first rs => rs

/-- The task without the commitments of its rules. -/
def Task.uncommitted : Task U L M → Task U L M
  | rule r => .rule r.uncommitted
  | each rs => .each (rs.map Rule.uncommitted)
  | first rs => .first (rs.map Rule.uncommitted)
  | greedy r => .greedy r.uncommitted
  | scan r start => .scan r.uncommitted start

/-- No rule of the task recovers from hard failures. -/
def Task.Unrecovering (references : Nat → Reference U L) (task : Task U L M) : Prop :=
  ∀ rule ∈ task.rules, rule.Unrecovering references

theorem Task.Unrecovering.part {references : Nat → Reference U L} {rule : Rule U L}
    {task : Task U L M} (h : (Task.rule (M := M) rule).Unrecovering references)
    (hs : ∀ part ∈ task.rules, part ∈ rule.inner) : task.Unrecovering references :=
  fun part hp => (h rule (List.mem_singleton.2 rfl)).leads (.inner (hs part hp))

theorem Task.Unrecovering.sub {references : Nat → Reference U L} {task other : Task U L M}
    (h : task.Unrecovering references) (hs : other.rules ⊆ task.rules) :
    other.Unrecovering references :=
  fun rule hp => h rule (hs hp)

variable [NodeTree T L M] [InputUnit U] [DecidableEq U] [DecidableEq M] {setting : Setting U L}

theorem atOnce?_uncommitted {rule : Rule U L} {cursor : Cursor T} {result : Result T L M}
    (h : atOnce? setting rule cursor = some result) :
    atOnce? setting.uncommitted rule.uncommitted cursor = some result := by
  cases rule with
  | ref i =>
    have hm : setting.uncommitted.references i = (setting.references i).map Rule.uncommitted := rfl
    show atOnce? setting.uncommitted (.ref i) cursor = some result
    simp only [atOnce?, step, hm] at h ⊢
    cases hi : setting.references i with
    | undefined | dropped =>
      simp only [hi] at h
      exact h
    | defined rule => simp [hi] at h
  | seq | or | star | plus | times | ahead | notAhead | untilPast | mandatory | recover
  | counted => cases h
  | unit | units | atEnd | succeed | fail | exhaust | opt | store => exact h

/-- Where nothing recovers, what ends without a hard failure goes the same way uncommitted. -/
theorem goes_uncommitted [LawfulTree T] {task : Task U L M} {cursor : Cursor T}
    {parts : List (Course U L T M)} {result : Result T L M}
    (h : Goes setting task cursor parts result) (hr : task.Unrecovering setting.references)
    (ho : ∀ failure, result.outcome ≠ .failed failure) :
    ∃ parts', Goes setting.uncommitted task.uncommitted cursor parts' result := by
  -- A wrapper passes every hard failure on, so there is none in what it wraps either.
  have within {before after : Result T L M} (hp : Relays before after)
      (ho : ∀ failure, after.outcome ≠ .failed failure) :
      ∀ failure, before.outcome ≠ .failed failure :=
    fun failure hf => ho failure ((hp.outcome_iff failure).2 hf)
  have calm {result : Result T L M} {outcome : Outcome (Position M)}
      (hm : result.outcome = outcome) (hc : ∀ failure, outcome ≠ .failed failure) :
      ∀ failure, result.outcome ≠ .failed failure := by
    rw [hm]
    exact hc
  have matched : ∀ failure, (.matched : Outcome (Position M)) ≠ .failed failure := nofun
  have unmatched : ∀ failure, (.unmatched : Outcome (Position M)) ≠ .failed failure := nofun
  induction h with
  | done h => exact ⟨[], .done (atOnce?_uncommitted h)⟩
  | @seq rules _ _ _ _ ih =>
    obtain ⟨parts', hg⟩ := ih (hr.part fun _ hp => hp) (within (relays_backTo _ _) ho)
    show ∃ parts', Goes _ (.rule (Rule.seq rules).uncommitted) _ _ _
    rw [Rule.uncommitted_seq]
    exact ⟨parts', .seq hg⟩
  | @or rules _ _ _ _ ih =>
    obtain ⟨parts', hg⟩ := ih (hr.part fun _ hp => hp) ho
    show ∃ parts', Goes _ (.rule (Rule.or rules).uncommitted) _ _ _
    rw [Rule.uncommitted_or]
    exact ⟨parts', .or hg⟩
  | star _ ih =>
    obtain ⟨parts', hg⟩ := ih (hr.part fun _ hp => hp) ho
    exact ⟨parts', .star hg⟩
  | plusStop _ hm ih =>
    obtain ⟨parts', hg⟩ := ih (hr.part fun _ hp => hp) ho
    exact ⟨_, .plusStop hg hm⟩
  | plusOn _ hm _ ih ihn =>
    obtain ⟨parts', hg⟩ := ih (hr.part fun _ hp => hp) (calm hm matched)
    obtain ⟨rest', hn⟩ := ihn (hr.part fun _ hp => hp) ho
    exact ⟨_, .plusOn hg hm hn⟩
  | opt he _ ih =>
    obtain ⟨parts', hg⟩ := ih (hr.part fun _ hp => hp) (within (relays_accept _) ho)
    exact ⟨_, .opt he hg⟩
  | @times rule n _ _ _ _ ih =>
    have ht : (Task.each (List.replicate n rule) : Task U L M).Unrecovering _ :=
      hr.part fun _ hp => List.mem_singleton.2 (List.eq_of_mem_replicate hp)
    obtain ⟨parts', hg⟩ := ih ht (within (relays_backTo _ _) ho)
    rw [Task.uncommitted, List.map_replicate] at hg
    exact ⟨parts', .times hg⟩
  | ahead _ ih =>
    obtain ⟨parts', hg⟩ := ih (hr.part fun _ hp => hp) (within (relays_lookFrom _ _) ho)
    exact ⟨_, .ahead hg⟩
  | notAhead _ ih =>
    have hl := within (relays_negate _) ho
    obtain ⟨parts', hg⟩ := ih (hr.part fun _ hp => hp) (within (relays_lookFrom _ _) hl)
    exact ⟨_, .notAhead hg⟩
  | untilPast _ ih =>
    obtain ⟨parts', hg⟩ := ih (hr.part fun _ hp => hp) ho
    exact ⟨parts', .untilPast hg⟩
  | @mandatory rule _ _ result _ ih =>
    -- The rule matched: otherwise this would be the hard failure.
    rcases demand_cases result with ⟨-, hd⟩ | ⟨-, hd⟩
    · exact absurd (congrArg Result.outcome hd) (ho _)
    · rw [hd] at ho ⊢
      exact ih (hr.part fun _ hp => hp) ho
  | @recover rule =>
    exact absurd .refl (hr _ (List.mem_singleton.2 rfl) rule)
  | store hi h ih =>
    have hb := (goes_balanced h).toGrows
    obtain ⟨parts', hg⟩ := ih (hr.part fun _ hp => hp) (within (relays_closeNode _ hi hb) ho)
    exact ⟨_, .store hi hg⟩
  | @ref i rule _ _ _ hi _ ih =>
    have hd : setting.uncommitted.references i = .defined rule.uncommitted := by
      show (setting.references i).map _ = _
      rw [hi]
      rfl
    have hl : (Task.rule rule : Task U L M).Unrecovering setting.references := by
      intro part hp
      obtain rfl := List.mem_singleton.1 hp
      exact (hr _ (List.mem_singleton.2 rfl)).leads (.ref hi)
    obtain ⟨parts', hg⟩ := ih hl ho
    exact ⟨_, .ref hd hg⟩
  | counted _ ih =>
    obtain ⟨parts', hg⟩ := ih (hr.part fun _ hp => hp) ho
    exact ⟨_, .counted hg⟩
  | eachNil => exact ⟨_, .eachNil⟩
  | eachStop _ hm ih =>
    obtain ⟨parts', hg⟩ := ih (hr.sub (by simp [Task.rules])) ho
    exact ⟨_, .eachStop hg hm⟩
  | eachOn _ hm _ ih ihn =>
    obtain ⟨parts', hg⟩ := ih (hr.sub (by simp [Task.rules])) (calm hm matched)
    obtain ⟨rest', hn⟩ := ihn (hr.sub (List.subset_cons_self _ _)) ho
    exact ⟨_, .eachOn hg hm hn⟩
  | firstNil => exact ⟨_, .firstNil⟩
  | firstStop _ hm ih =>
    obtain ⟨parts', hg⟩ := ih (hr.sub (by simp [Task.rules])) ho
    exact ⟨_, .firstStop hg hm⟩
  | firstOn _ hm _ ih ihn =>
    obtain ⟨parts', hg⟩ := ih (hr.sub (by simp [Task.rules])) (calm hm unmatched)
    obtain ⟨rest', hn⟩ := ihn (hr.sub (List.subset_cons_self _ _)) ho
    exact ⟨_, .firstOn hg hm hn⟩
  | greedyEnd he => exact ⟨_, .greedyEnd he⟩
  | greedyStop he _ hm ih =>
    obtain ⟨parts', hg⟩ := ih hr (within (relays_accept _) ho)
    exact ⟨_, .greedyStop he hg hm⟩
  | greedyStill he _ hm hp ih =>
    obtain ⟨parts', hg⟩ := ih hr ho
    exact ⟨_, .greedyStill he hg hm hp⟩
  | greedyOn he _ hm hp _ ih ihn =>
    obtain ⟨parts', hg⟩ := ih hr (calm hm matched)
    obtain ⟨rest', hn⟩ := ihn hr ho
    exact ⟨_, .greedyOn he hg hm hp hn⟩
  | scanStop _ hm ih =>
    obtain ⟨parts', hg⟩ := ih hr ho
    exact ⟨_, .scanStop hg hm⟩
  | scanEnd _ hm he ih =>
    obtain ⟨parts', hg⟩ := ih hr (calm hm unmatched)
    exact ⟨_, .scanEnd hg hm he⟩
  | scanOn _ hm he _ ih ihn =>
    obtain ⟨parts', hg⟩ := ih hr (calm hm unmatched)
    obtain ⟨rest', hn⟩ := ihn hr ho
    exact ⟨_, .scanOn hg hm he hn⟩

/-- Where nothing recovers from hard failures, a rule that matches, or does not, comes to the same
result without its commitments. -/
theorem uncommitted_returns [LawfulTree T] (setting : Setting U L) (rule : Rule U L)
    (hr : rule.Unrecovering setting.references) (cursor : Cursor T) (result : Result T L M)
    (h : Returns setting rule cursor result)
    (ho : result.outcome = .matched ∨ result.outcome = .unmatched) :
    Returns setting.uncommitted rule.uncommitted cursor result := by
  have hf : ∀ failure, result.outcome ≠ .failed failure := by
    rcases ho with ho | ho <;> rw [ho] <;> exact nofun
  have ht : (Task.rule rule : Task U L M).Unrecovering setting.references := by
    intro part hp
    obtain rfl := List.mem_singleton.1 hp
    exact hr
  obtain ⟨parts, h⟩ := returns_iff_goes.1 h
  exact returns_iff_goes.2 (goes_uncommitted h ht hf)

/-- A list is read as before if nothing in it is mandatory. -/
theorem uncommitted_returns_list :
    let setting : Setting Char Sample.Label :=
      ⟨.ofList ['(', '1', ',', 'a', ')'], Sample.workspace.registry.lookup, .text⟩
    let cursor : Cursor (TrailTree Sample.Label) := .start .empty
    Sample.listRule.Unrecovering setting.references ∧ ∃ result,
      Returns setting Sample.listRule cursor result ∧ result.outcome = .matched ∧
      result.cursor.offset = 5 ∧
      Returns setting.uncommitted Sample.listRule.uncommitted cursor result := by
  intro setting cursor
  have hr : Sample.listRule.Unrecovering setting.references := by
    refine Rule.unrecovering_of_recovers ?_ rfl
    intro i rule hi
    cases i with
    | zero =>
      cases hi
      decide
    | succ i => cases hi
  have h : (run setting 25 Sample.listRule cursor).map
      (fun result => (result.outcome, result.cursor.offset)) = some (.matched, 5) := by
    decide +kernel
  obtain ⟨result, h, hs⟩ := Option.map_eq_some_iff.1 h
  obtain ⟨ho, hoff⟩ := Prod.mk.inj hs
  exact ⟨hr, result, ⟨25, h⟩, ho, hoff,
    uncommitted_returns setting Sample.listRule hr cursor result ⟨25, h⟩ (Or.inl ho)⟩

end Matching

end Peg
