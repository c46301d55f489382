import Peg.Proofs.Balance
import Peg.Proofs.Meaning
import Peg.Sample.Grammar

/-
  Refinement: a match over a tree that never runs out of room does what the rule means, and leaves
  the forest of the answer in the innermost open node (`goes_means`). Over an array the nodes of the
  forest stand after those that were there before (`text_match_refines_meaning`).
-/

namespace Peg

theorem Outcome.of_map_mandatory {P Q : Type} {f : P → Q} {outcome : Outcome P} {q : Q}
    (h : outcome.map f = .failed (.mandatory q)) : ∃ p, outcome = .failed (.mandatory p) := by
  cases outcome with
  | matched | unmatched | faulted => cases h
  | failed failure =>
    cases failure with
    | mandatory p => exact ⟨p, rfl⟩
    | exhausted => cases h

namespace Matching

open LawfulTree ForestTree

variable {U L T M : Type} [NodeTree T L M] [LawfulTree T] [ForestTree T]

/-- The result is the one that the answer says. What not to match leaves is no part of it. -/
def Tells (cursor : Cursor T) (result : Result T L M) : Answer L → Prop
  | .no => result.outcome = .unmatched
  | .yes stop forest => result.outcome = .matched ∧ result.cursor.offset = stop ∧
    Records cursor.tree forest result.cursor.tree
  | .failed failure offset => result.cursor.offset = offset ∧
    result.outcome.map Position.offset = .failed (failure.map fun _ => offset)

theorem records_same {t u v : T} {forest : Forest L} (htu : Grown t u) (hut : Grown u t)
    (h : Records u forest v) : Records t forest v :=
  records_append (records_nil htu hut) h

theorem tells_here {cursor : Cursor T} {events : List (Event L M)} :
    Tells cursor ⟨.matched, cursor, events⟩ (.yes cursor.offset []) :=
  ⟨rfl, rfl, records_nil (grown_refl _) (grown_refl _)⟩

namespace Tells

variable {cursor : Cursor T} {result last : Result T L M} {answer : Answer L}

theorem not_yes (h : Tells cursor result answer) (ho : result.outcome ≠ .matched) :
    ∀ stop forest, answer ≠ .yes stop forest := by
  intro stop forest he
  rw [he] at h
  exact ho h.1

theorem not_no (h : Tells cursor result answer) (ho : result.outcome ≠ .unmatched) :
    answer ≠ .no := by
  intro he
  rw [he] at h
  exact ho h

theorem eq_no (h : Tells cursor result answer) (ho : result.outcome = .unmatched) :
    answer = .no := by
  cases answer with
  | no => rfl
  | yes stop forest => cases ho.symm.trans h.1
  | failed failure offset =>
    have h := h.2
    rw [ho] at h
    cases h

theorem eq_yes (h : Tells cursor result answer) (ho : result.outcome = .matched) :
    ∃ forest, answer = .yes result.cursor.offset forest ∧
      Records cursor.tree forest result.cursor.tree := by
  cases answer with
  | no => cases ho.symm.trans h
  | yes stop forest => exact ⟨forest, by rw [h.2.1], h.2.2⟩
  | failed failure offset =>
    have h := h.2
    rw [ho] at h
    cases h

theorem ne_matched (h : Tells cursor result answer)
    (ha : ∀ stop forest, answer ≠ .yes stop forest) : result.outcome ≠ .matched := by
  intro ho
  obtain ⟨forest, he, -⟩ := h.eq_yes ho
  exact ha _ _ he

theorem ne_unmatched (h : Tells cursor result answer) (ha : answer ≠ .no) :
    result.outcome ≠ .unmatched :=
  fun ho => ha (h.eq_no ho)

/-- What is there to go on from counts only up to growth both ways. -/
theorem of_same {later : Cursor T} (hs : Grown cursor.tree later.tree)
    (hb : Grown later.tree cursor.tree) (h : Tells later result answer) :
    Tells cursor result answer := by
  cases answer with
  | no => exact h
  | yes stop forest => exact ⟨h.1, h.2.1, records_same hs hb h.2.2⟩
  | failed failure offset => exact h

theorem after {stop : Nat} {forest : Forest L} (h : Tells cursor result (.yes stop forest))
    (hl : Tells result.cursor last answer) (events : List (Event L M)) :
    Tells cursor (last.after events) (answer.after forest) := by
  cases answer with
  | no => exact hl
  | yes stop' forest' => exact ⟨hl.1, hl.2.1, records_append h.2.2 hl.2.2⟩
  | failed failure offset => exact hl

theorem backTo (h : Tells cursor result answer) (position : Position M) :
    Tells cursor (result.backTo position) answer := by
  unfold Result.backTo
  split
  · rename_i ho
    cases h.eq_no ho
    exact ho
  · exact h

theorem accept (h : Tells cursor result answer) (hb : Balanced cursor result) :
    Tells cursor result.accept (answer.accept cursor.offset) := by
  unfold Result.accept
  split
  · rename_i ho
    obtain ⟨hoff, hback⟩ := hb.restored ho
    cases h.eq_no ho
    exact ⟨rfl, hoff, records_nil hb.grown hback⟩
  · rename_i ho
    cases answer with
    | no => contradiction
    | yes stop forest => exact h
    | failed failure offset => exact h

/-- Neither to match nor not to match is a hard failure, which stays as it is. -/
theorem failed {change : Answer L → Answer L} (h : Tells cursor result answer)
    (hm : result.outcome ≠ .matched) (hu : result.outcome ≠ .unmatched)
    (hc : ∀ failure offset, change (.failed failure offset) = .failed failure offset) :
    Tells cursor result (change answer) := by
  cases answer with
  | no => exact absurd h hu
  | yes stop forest => exact absurd h.1 hm
  | failed failure offset =>
    rw [hc]
    exact h

theorem look (h : Tells cursor result answer) (hg : Grows cursor result) :
    Tells cursor (result.lookFrom cursor.position) (answer.look cursor.offset) := by
  obtain ⟨hoff, hs, hb⟩ := moveTo_position hg.grown
  unfold Result.lookFrom
  split
  · rename_i ho
    obtain ⟨forest, rfl, -⟩ := h.eq_yes ho
    exact ⟨ho, hoff, records_nil hs hb⟩
  · rename_i ho
    cases h.eq_no ho
    exact ho
  · rename_i hm hu
    exact h.failed hm hu fun _ _ => rfl

theorem negate (h : Tells cursor result answer) (hb : Balanced cursor result) :
    Tells cursor result.negate (answer.deny cursor.offset) := by
  unfold Result.negate
  split
  · rename_i ho
    obtain ⟨forest, rfl, -⟩ := h.eq_yes ho
    rfl
  · rename_i ho
    obtain ⟨hoff, hback⟩ := hb.restored ho
    cases h.eq_no ho
    exact ⟨rfl, hoff, records_nil hb.grown hback⟩
  · rename_i hm hu
    exact h.failed hm hu fun _ _ => rfl

theorem deny (h : Tells cursor result answer) (hg : Grows cursor result) :
    Tells cursor (result.lookFrom cursor.position).negate (answer.deny cursor.offset) := by
  have hd : (answer.look cursor.offset).deny cursor.offset = answer.deny cursor.offset := by
    cases answer <;> rfl
  rw [← hd]
  exact (h.look hg).negate (.lookFrom hg)

theorem demand (h : Tells cursor result answer) (hb : Balanced cursor result) :
    Tells cursor result.demand (answer.demand cursor.offset) := by
  unfold Result.demand
  split
  · rename_i ho
    obtain ⟨hoff, -⟩ := hb.restored ho
    cases h.eq_no ho
    refine ⟨hoff, ?_⟩
    show Outcome.failed (.mandatory result.cursor.offset) = _
    rw [hoff]
    rfl
  · rename_i ho
    cases answer with
    | no => exact absurd h ho
    | yes stop forest => exact h
    | failed failure offset => exact h

theorem recoverTo (h : Tells cursor result answer) (position : Position M) :
    Tells cursor (result.recoverTo position) answer.recover := by
  unfold Result.recoverTo
  split
  · rename_i raised ho
    cases answer with
    | no => cases ho.symm.trans h
    | yes stop forest => cases ho.symm.trans h.1
    | failed failure offset =>
      obtain ⟨-, hf⟩ := h
      rw [ho] at hf
      cases failure with
      | mandatory => rfl
      | exhausted => cases hf
  · rename_i ho
    cases answer with
    | no => exact h
    | yes stop forest => exact h
    | failed failure offset =>
      cases failure with
      | mandatory =>
        obtain ⟨raised, hr⟩ := Outcome.of_map_mandatory h.2
        exact absurd hr (ho raised)
      | exhausted => exact h

/-- What is opened before a match and closed after it is a span around the forest. -/
theorem wrap {inside : Cursor T} {label : L} (policy : Policy)
    (hi : cursor.openNode? label = some inside) (hg : Grows inside result)
    (h : Tells inside result answer) :
    Tells cursor (result.closeNode policy label) (answer.wrap label cursor.offset) := by
  obtain ⟨tree, ht, rfl⟩ := Option.map_eq_some_iff.1 hi
  obtain ⟨completed, hc, -⟩ := complete_opened result.cursor.offset ht hg.grown
  obtain ⟨abandoned, ha, -, -⟩ := abandon_opened ht hg.grown
  unfold Result.closeNode
  split
  · rename_i ho
    obtain ⟨forest, rfl, hr⟩ := h.eq_yes ho
    unfold Result.closing Cursor.complete
    rw [hc]
    exact ⟨ho, rfl, records_span ht hr hc⟩
  · rename_i ho
    cases h.eq_no ho
    unfold Result.closing Cursor.abandon
    rw [ha]
    exact ho
  · rename_i failure ho
    unfold Cursor.abandon
    rw [ha]
    cases answer with
    | no => cases ho.symm.trans h
    | yes stop forest => cases ho.symm.trans h.1
    | failed failure' offset =>
      obtain ⟨hoff, hf⟩ := h
      rw [ho] at hf
      refine ⟨?_, hf⟩
      show (if policy.keepsTrail then _ else _ : Cursor T).offset = offset
      split
      · exact hoff
      · exact hoff
  · rename_i fault ho
    exact absurd ho (hg.sound fault)

end Tells

/-! ## Every match -/

/-- The rule that a task comes to. -/
def ruleOf : Task U L M → Rule U L
  | .rule rule => rule
  | .each rules => .seq rules
  | .first rules => .or rules
  | .greedy rule => .star rule
  | .scan rule _ => .untilPast rule

variable [InputUnit U] [DecidableEq U] [DecidableEq M] {setting : Setting U L}

/-- The rule of the task means something at the cursor, and that is what the result is. -/
def Refines (setting : Setting U L) (task : Task U L M) (cursor : Cursor T)
    (result : Result T L M) : Prop :=
  ∃ answer, Means setting.input setting.references (ruleOf task) cursor.offset answer ∧
    Tells cursor result answer

theorem refines_done {rule : Rule U L} {cursor : Cursor T} {result : Result T L M}
    (h : atOnce? setting rule cursor = some result) : Refines setting (.rule rule) cursor result := by
  have grown := records_nil (grown_refl cursor.tree) (grown_refl cursor.tree)
  cases rule with
  | unit p =>
    simp only [atOnce?, step] at h
    split at h
    · rename_i hn
      cases h
      obtain ⟨u, hu, hp, rfl⟩ := (Cursor.take?_eq_some_iff _).1 hn
      exact ⟨_, .unit hu hp, rfl, rfl, grown⟩
    · rename_i hn
      cases h
      refine ⟨_, .unitNot ?_, rfl⟩
      intro u hu
      by_contra hp
      have ht := (Cursor.take?_eq_some_iff setting.input).2 ⟨u, hu, by simpa using hp, rfl⟩
      rw [ht] at hn
      cases hn
  | units us =>
    simp only [atOnce?, step] at h
    split at h
    · rename_i hn
      cases h
      obtain ⟨hs, rfl⟩ := (Cursor.takeAll?_eq_some_iff _).1 hn
      exact ⟨_, .units hs, rfl, rfl, grown⟩
    · rename_i hn
      cases h
      refine ⟨_, .unitsNot ?_, rfl⟩
      intro hs
      rw [(Cursor.takeAll?_eq_some_iff setting.input).2 ⟨hs, rfl⟩] at hn
      cases hn
  | atEnd =>
    cases h
    by_cases he : setting.input.length ≤ cursor.offset
    · refine ⟨_, .atEnd he, ?_⟩
      simp only [Cursor.atEnd, he, decide_true, if_true]
      exact tells_here
    · refine ⟨_, .atEndNot (Nat.lt_of_not_le he), ?_⟩
      simp only [Cursor.atEnd, he, decide_false, Bool.false_eq_true, if_false]
      rfl
  | succeed =>
    cases h
    exact ⟨_, .succeed, tells_here⟩
  | fail =>
    cases h
    exact ⟨_, .fail, rfl⟩
  | exhaust =>
    cases h
    exact ⟨_, .exhaust, rfl, rfl⟩
  | opt rule =>
    simp only [atOnce?, step] at h
    split at h
    · rename_i he
      cases h
      exact ⟨_, .optEnd (of_decide_eq_true he), tells_here⟩
    · cases h
  | store label rule =>
    obtain ⟨tree, ht⟩ := room cursor.tree label cursor.offset
    simp only [atOnce?, step, Cursor.openNode?, ht, Option.map_some] at h
    cases h
  | ref i =>
    simp only [atOnce?, step] at h
    split at h
    · rename_i hi
      cases h
      exact ⟨_, .refNot (by simp [hi]), rfl⟩
    · cases h
    · rename_i hi
      cases h
      exact ⟨_, .refNot (by simp [hi]), rfl⟩
  | seq | or | star | plus | times | ahead | notAhead | untilPast | mandatory | recover
  | counted => cases h

/-- Where only consumed input is progress, every match does what its rule means. -/
theorem goes_means (hp : setting.policy.nodesAreProgress = false) {task : Task U L M}
    {cursor : Cursor T} {parts : List (Course U L T M)} {result : Result T L M}
    (h : Goes setting task cursor parts result) : Refines setting task cursor result := by
  have atEnd {cursor : Cursor T} : cursor.atEnd setting.input = true ↔
      setting.input.length ≤ cursor.offset := decide_eq_true_iff
  have notAtEnd {cursor : Cursor T} (he : cursor.atEnd setting.input = false) :
      cursor.offset < setting.input.length := Nat.lt_of_not_le (of_decide_eq_false he)
  -- An answer says nothing of the cursor where a rule did not match: that comes from balance.
  induction h with
  | done h => exact refines_done h
  | seq _ ih =>
    obtain ⟨answer, hm, ht⟩ := ih
    exact ⟨answer, hm, ht.backTo _⟩
  | times _ ih =>
    obtain ⟨answer, hm, ht⟩ := ih
    exact ⟨answer, Means.times_iff.2 hm, ht.backTo _⟩
  | or _ ih | star _ ih | untilPast _ ih => exact ih
  | plusStop _ ho ih =>
    obtain ⟨answer, hm, ht⟩ := ih
    exact ⟨answer, .plusStop hm (ht.not_yes ho), ht⟩
  | plusOn _ ho _ ih ihn =>
    obtain ⟨answer, hm, ht⟩ := ih
    obtain ⟨answer', hm', ht'⟩ := ihn
    obtain ⟨forest, rfl, -⟩ := ht.eq_yes ho
    exact ⟨_, .plusOn hm hm', ht.after ht' _⟩
  | opt he h ih =>
    obtain ⟨answer, hm, ht⟩ := ih
    exact ⟨_, .opt (notAtEnd he) hm, ht.accept (goes_balanced h)⟩
  | ahead h ih =>
    obtain ⟨answer, hm, ht⟩ := ih
    exact ⟨_, .ahead hm, ht.look (goes_balanced h).toGrows⟩
  | notAhead h ih =>
    obtain ⟨answer, hm, ht⟩ := ih
    exact ⟨_, .notAhead hm, ht.deny (goes_balanced h).toGrows⟩
  | mandatory h ih =>
    obtain ⟨answer, hm, ht⟩ := ih
    exact ⟨_, .mandatory hm, ht.demand (goes_balanced h)⟩
  | recover _ ih =>
    obtain ⟨answer, hm, ht⟩ := ih
    exact ⟨_, .recover hm, ht.recoverTo _⟩
  | store hi h ih =>
    obtain ⟨answer, hm, ht⟩ := ih
    obtain ⟨tree, -, rfl⟩ := Option.map_eq_some_iff.1 hi
    exact ⟨_, .store hm, ht.wrap _ hi (goes_balanced h).toGrows⟩
  | ref hi _ ih =>
    obtain ⟨answer, hm, ht⟩ := ih
    exact ⟨answer, .ref hi hm, ht⟩
  | counted _ ih =>
    obtain ⟨answer, hm, ht⟩ := ih
    exact ⟨answer, .counted hm, ht⟩
  | eachNil => exact ⟨_, .seqNil, tells_here⟩
  | eachStop _ ho ih =>
    obtain ⟨answer, hm, ht⟩ := ih
    exact ⟨answer, .seqStop hm (ht.not_yes ho), ht⟩
  | eachOn _ ho _ ih ihn =>
    obtain ⟨answer, hm, ht⟩ := ih
    obtain ⟨answer', hm', ht'⟩ := ihn
    obtain ⟨forest, rfl, -⟩ := ht.eq_yes ho
    exact ⟨_, .seqOn hm hm', ht.after ht' _⟩
  | firstNil => exact ⟨.no, .orNil, rfl⟩
  | firstStop _ ho ih =>
    obtain ⟨answer, hm, ht⟩ := ih
    exact ⟨answer, .orStop hm (ht.not_no ho), ht⟩
  | firstOn h ho _ ih ihn =>
    obtain ⟨answer, hm, ht⟩ := ih
    obtain ⟨answer', hm', ht'⟩ := ihn
    obtain ⟨hoff, hback⟩ := (goes_balanced h).restored ho
    cases ht.eq_no ho
    rw [hoff] at hm'
    exact ⟨answer', .orOn hm hm', ht'.of_same (goes_balanced h).grown hback⟩
  | greedyEnd he => exact ⟨_, .starEnd (atEnd.1 he), tells_here⟩
  | greedyStop he h ho ih =>
    obtain ⟨answer, hm, ht⟩ := ih
    exact ⟨_, .starStop (notAtEnd he) hm (ht.not_yes ho), ht.accept (goes_balanced h)⟩
  | greedyStill he _ ho hs ih =>
    obtain ⟨answer, hm, ht⟩ := ih
    obtain ⟨forest, rfl, -⟩ := ht.eq_yes ho
    rw [(Policy.not_progressed_iff hp).1 hs] at hm ht
    exact ⟨_, .starStill (notAtEnd he) hm, ht⟩
  | greedyOn he _ ho hs _ ih ihn =>
    obtain ⟨answer, hm, ht⟩ := ih
    obtain ⟨answer', hm', ht'⟩ := ihn
    obtain ⟨forest, rfl, -⟩ := ht.eq_yes ho
    have hne := (Policy.progressed_iff hp).1 hs
    exact ⟨_, .starOn (notAtEnd he) hm hne hm', ht.after ht' _⟩
  | scanStop _ ho ih =>
    obtain ⟨answer, hm, ht⟩ := ih
    exact ⟨answer, .scanStop hm (ht.not_no ho), ht⟩
  | scanEnd h ho he ih =>
    obtain ⟨answer, hm, ht⟩ := ih
    obtain ⟨hoff, -⟩ := (goes_balanced h).restored ho
    cases ht.eq_no ho
    rw [atEnd, Cursor.advance_offset, hoff] at he
    exact ⟨.no, .scanEnd hm he, rfl⟩
  | scanOn h ho he _ ih ihn =>
    obtain ⟨answer, hm, ht⟩ := ih
    obtain ⟨answer', hm', ht'⟩ := ihn
    obtain ⟨hoff, hback⟩ := (goes_balanced h).restored ho
    cases ht.eq_no ho
    have he := notAtEnd he
    rw [Cursor.advance_offset, hoff] at he hm'
    refine ⟨answer', .scanOn hm he hm', ht'.of_same ?_ ?_⟩
    · rw [Cursor.advance_tree]
      exact (goes_balanced h).grown
    · rw [Cursor.advance_tree]
      exact hback

/-! ## Over an array -/

/-- The result of a match over an array is the one that the answer says: the same outcome and end,
and on a match the nodes of the forest after those that were there, with the innermost open node as
the parent of its roots. -/
def Agrees {L : Type} (cursor : Cursor (TrailTree L)) (result : Result (TrailTree L) L Mark) :
    Answer L → Prop
  | .no => result.outcome = .unmatched ∧ result.cursor.offset = cursor.offset ∧
    result.cursor.tree.arena.toList = cursor.tree.arena.toList ∧
    result.cursor.tree.arena.innermost = cursor.tree.arena.innermost
  | .yes stop forest => result.outcome = .matched ∧ result.cursor.offset = stop ∧
    result.cursor.tree.arena.toList = cursor.tree.arena.toList ++
      forestNodes cursor.tree.arena.innermost cursor.tree.arena.size forest ∧
    result.cursor.tree.arena.innermost = cursor.tree.arena.innermost
  | .failed failure offset => result.cursor.offset = offset ∧
    result.outcome.map Position.offset = .failed (failure.map fun _ => offset)

theorem Tells.agrees {L : Type} [DecidableEq L] {cursor : Cursor (TrailTree L)}
    {result : Result (TrailTree L) L Mark} {answer : Answer L} (h : Tells cursor result answer)
    (hb : Balanced cursor result) : Agrees cursor result answer := by
  cases answer with
  | no =>
    obtain ⟨hoff, hback⟩ := hb.restored h
    have hg : cursor.tree.arena.Grown result.cursor.tree.arena := hb.grown
    exact ⟨h, hoff, Arena.Grown.toList_eq hback hg, hg.innermost_eq⟩
  | yes stop forest =>
    obtain ⟨ho, hoff, hl⟩ := h
    have hl : cursor.tree.arena.Lays forest result.cursor.tree.arena := hl
    exact ⟨ho, hoff, hl.nodes_eq, hl.innermost_eq⟩
  | failed failure offset => exact h

/-- Every match of text that returns comes to the one thing that the rule means there. -/
theorem text_match_refines_meaning {L : Type} [DecidableEq L] (input : Input U)
    (references : Nat → Reference U L) (rule : Rule U L) (cursor : Cursor (TrailTree L))
    (result : Result (TrailTree L) L Mark)
    (h : Returns ⟨input, references, .text⟩ rule cursor result) :
    ∃ answer, Means input references rule cursor.offset answer ∧ Agrees cursor result answer ∧
      ∀ other, Means input references rule cursor.offset other → other = answer := by
  have hb := returns_balanced h
  obtain ⟨parts, hg⟩ := returns_iff_goes.1 h
  obtain ⟨answer, hm, ht⟩ := goes_means rfl hg
  exact ⟨answer, hm, ht.agrees hb, fun other ho => ho.unique hm⟩

/-- A number with a sign, inside an entry that is open. -/
theorem text_match_refines_meaning_number :
    let setting : Setting Char Sample.Label := ⟨.ofList ['-', '1', '2'], fun _ => .undefined, .text⟩
    let cursor : Cursor (TrailTree Sample.Label) := ⟨0, ⟨⟨#[⟨.entry, 0, 0, none⟩], some 0⟩, []⟩⟩
    ∃ result, Returns setting Sample.numberRule cursor result ∧
      result.outcome = .matched ∧ result.cursor.offset = 3 ∧
      result.cursor.tree.arena.toList =
        [⟨.entry, 0, 0, none⟩, ⟨.number, 0, 3, some 0⟩, ⟨.sign, 0, 1, some 1⟩] ∧
      ∃ answer, Means setting.input setting.references Sample.numberRule 0 answer ∧
        Agrees cursor result answer := by
  intro setting cursor
  have h : (run setting 10 Sample.numberRule cursor).map
      (fun result => (result.outcome, result.cursor.offset, result.cursor.tree.arena.toList)) =
      some (.matched, 3, [⟨.entry, 0, 0, none⟩, ⟨.number, 0, 3, some 0⟩, ⟨.sign, 0, 1, some 1⟩]) := by
    decide +kernel
  obtain ⟨result, hr, hs⟩ := Option.map_eq_some_iff.1 h
  simp only [Prod.mk.injEq] at hs
  obtain ⟨ho, hoff, hn⟩ := hs
  obtain ⟨answer, hm, ha, -⟩ := text_match_refines_meaning setting.input setting.references
    Sample.numberRule cursor result ⟨10, hr⟩
  exact ⟨result, ⟨10, hr⟩, ho, hoff, hn, answer, hm, ha⟩

end Matching

end Peg
