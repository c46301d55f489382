import Peg.Proofs.Course
import Peg.Proofs.Growth

/-
  Balance: what every match leaves of the tree it found. Whatever comes of a match, the tree has
  only grown, and a rule that does not match leaves offset, nodes and open nodes as they were. No
  node is ever closed that was not opened by the same rule, so no match ends in a fault.
-/

namespace Peg.Matching

open LawfulTree

variable {U L T M : Type} [NodeTree T L M] [LawfulTree T]

/-- The tree has grown, and there was no fault. -/
structure Grows (cursor : Cursor T) (result : Result T L M) : Prop where
  grown : Grown cursor.tree result.cursor.tree
  sound : ∀ fault, result.outcome ≠ .faulted fault

/-- The tree has grown, without a fault, and not to match is to leave the cursor as it was. -/
structure Balanced (cursor : Cursor T) (result : Result T L M) : Prop
    extends Grows cursor result where
  restored : result.outcome = .unmatched →
    result.cursor.offset = cursor.offset ∧ Grown result.cursor.tree cursor.tree

theorem Balanced.of_grows {cursor : Cursor T} {result : Result T L M} (h : Grows cursor result)
    (ho : result.outcome ≠ .unmatched) : Balanced cursor result :=
  ⟨h, fun hu => absurd hu ho⟩

/-! ## What is done to a result -/

theorem moveTo_position {cursor later : Cursor T} (h : Grown cursor.tree later.tree) :
    (later.moveTo cursor.position).offset = cursor.offset ∧
      Grown cursor.tree (later.moveTo cursor.position).tree ∧
      Grown (later.moveTo cursor.position).tree cursor.tree :=
  ⟨rfl, rewind_mark h⟩

theorem Balanced.backTo {cursor : Cursor T} {result : Result T L M} (h : Grows cursor result) :
    Balanced cursor (result.backTo cursor.position) := by
  unfold Result.backTo
  split
  · obtain ⟨ho, hg, hs⟩ := moveTo_position h.grown
    exact ⟨⟨hg, h.sound⟩, fun _ => ⟨ho, hs⟩⟩
  · rename_i ho
    exact .of_grows h ho

/-- After a look from the cursor, everything is as it was, if not for a hard failure. -/
theorem lookFrom_cases {cursor : Cursor T} {result : Result T L M} (h : Grows cursor result) :
    (∃ failure, result.outcome = .failed failure ∧ result.lookFrom cursor.position = result) ∨
      (result.outcome = .matched ∨ result.outcome = .unmatched) ∧
        (result.lookFrom cursor.position).outcome = result.outcome ∧
        (result.lookFrom cursor.position).cursor = result.cursor.moveTo cursor.position := by
  unfold Result.lookFrom
  cases ho : result.outcome with
  | matched => exact Or.inr ⟨Or.inl rfl, rfl, rfl⟩
  | unmatched => exact Or.inr ⟨Or.inr rfl, rfl, rfl⟩
  | failed failure => exact Or.inl ⟨failure, rfl, rfl⟩
  | faulted fault => exact absurd ho (h.sound fault)

theorem Balanced.lookFrom {cursor : Cursor T} {result : Result T L M} (h : Grows cursor result) :
    Balanced cursor (result.lookFrom cursor.position) := by
  rcases lookFrom_cases h with ⟨failure, ho, he⟩ | ⟨ho, hlo, hlc⟩
  · rw [he]
    exact .of_grows h (by rw [ho]; exact nofun)
  · obtain ⟨hm, hg, hs⟩ := moveTo_position h.grown
    refine ⟨⟨?_, ?_⟩, fun _ => ?_⟩
    · rw [hlc]
      exact hg
    · rw [hlo]
      exact h.sound
    · rw [hlc]
      exact ⟨hm, hs⟩

theorem Balanced.denyFrom {cursor : Cursor T} {result : Result T L M} (h : Grows cursor result) :
    Balanced cursor (result.lookFrom cursor.position).negate := by
  rcases lookFrom_cases h with ⟨failure, ho, he⟩ | ⟨ho, hlo, hlc⟩
  · rw [he]
    unfold Result.negate
    rw [ho]
    exact .of_grows h (by rw [ho]; exact nofun)
  · obtain ⟨hm, hg, hs⟩ := moveTo_position h.grown
    unfold Result.negate
    rw [← hlo] at ho
    rcases ho with ho | ho <;> rw [ho] <;> dsimp only
    · refine ⟨⟨?_, nofun⟩, fun _ => ?_⟩ <;> simp only [hlc]
      · exact hg
      · exact ⟨hm, hs⟩
    · refine .of_grows ⟨?_, nofun⟩ nofun
      simp only [hlc]
      exact hg

theorem Grows.accept {cursor : Cursor T} {result : Result T L M} (h : Grows cursor result) :
    Grows cursor result.accept ∧ result.accept.outcome ≠ .unmatched := by
  unfold Result.accept
  split
  · exact ⟨⟨h.grown, nofun⟩, nofun⟩
  · rename_i ho
    exact ⟨h, ho⟩

theorem Balanced.demand {cursor : Cursor T} {result : Result T L M} (h : Grows cursor result) :
    Balanced cursor result.demand := by
  unfold Result.demand
  split
  · exact .of_grows ⟨h.grown, nofun⟩ nofun
  · rename_i ho
    exact .of_grows h ho

theorem Balanced.recoverTo {cursor : Cursor T} {result : Result T L M}
    (h : Balanced cursor result) : Balanced cursor (result.recoverTo cursor.position) := by
  unfold Result.recoverTo
  split
  · obtain ⟨hm, hg, hs⟩ := moveTo_position h.grown
    exact ⟨⟨hg, nofun⟩, fun _ => ⟨hm, hs⟩⟩
  · exact h

theorem Grows.after {cursor : Cursor T} {result last : Result T L M} (h : Grows cursor result)
    (hl : Grows result.cursor last) (events : List (Event L M)) :
    Grows cursor (last.after events) :=
  ⟨grown_trans h.grown hl.grown, hl.sound⟩

/-- Where a rule did not match, the next starts as if it had not been tried. -/
theorem Balanced.after {cursor : Cursor T} {result last : Result T L M}
    (h : Balanced cursor result) (ho : result.outcome = .unmatched)
    (hl : Balanced result.cursor last) (events : List (Event L M)) :
    Balanced cursor (last.after events) := by
  refine ⟨h.toGrows.after hl.toGrows events, fun hu => ?_⟩
  obtain ⟨hro, hrg⟩ := h.restored ho
  obtain ⟨hlo, hlg⟩ := hl.restored hu
  exact ⟨hlo.trans hro, grown_trans hlg hrg⟩

/-- What is opened around a match can be closed after it, either way. -/
theorem closes_opened {cursor inside : Cursor T} {label : L}
    {result : Result T L M} (hi : cursor.openNode? label = some inside)
    (hg : Grows inside result) : ∃ completed abandoned : Cursor T,
      result.cursor.complete label = .ok completed ∧
      result.cursor.abandon label = .ok abandoned := by
  obtain ⟨tree, ht, rfl⟩ := Option.map_eq_some_iff.1 hi
  obtain ⟨completed, hc, -⟩ := complete_opened result.cursor.offset ht hg.grown
  obtain ⟨abandoned, ha, -⟩ := abandon_opened ht hg.grown
  refine ⟨⟨result.cursor.offset, completed⟩, ⟨result.cursor.offset, abandoned⟩, ?_, ?_⟩
  · unfold Cursor.complete
    rw [hc]
    rfl
  · unfold Cursor.abandon
    rw [ha]
    rfl

/-- What is opened around a match is closed after it. -/
theorem Balanced.closeNode {cursor inside : Cursor T} {label : L} {result : Result T L M}
    (policy : Policy) (hi : cursor.openNode? label = some inside) (h : Balanced inside result) :
    Balanced cursor (result.closeNode policy label) := by
  obtain ⟨tree, ht, rfl⟩ := Option.map_eq_some_iff.1 hi
  obtain ⟨completed, hc, hcg⟩ := complete_opened result.cursor.offset ht h.grown
  obtain ⟨abandoned, ha, hag, has⟩ := abandon_opened ht h.grown
  unfold Result.closeNode
  split
  · rename_i ho
    unfold Result.closing Cursor.complete
    rw [hc]
    refine .of_grows ⟨hcg, h.sound⟩ ?_
    rw [ho]
    exact nofun
  · rename_i ho
    unfold Result.closing Cursor.abandon
    rw [ha]
    exact ⟨⟨hag, h.sound⟩, fun _ => ⟨(h.restored ho).1, has⟩⟩
  · unfold Cursor.abandon
    rw [ha]
    refine .of_grows ⟨?_, nofun⟩ nofun
    show Grown cursor.tree (if policy.keepsTrail then _ else _ : Cursor T).tree
    split
    · exact grown_trans hag (unwind_same abandoned label).1
    · exact hag
  · rename_i fault ho
    exact absurd ho (h.sound fault)

/-! ## Every match -/

/-- What a task leaves of the tree: each rule in a row undoes nothing, a repetition always matches,
and a scan that finds nothing goes back to where it started. -/
def Keeps : Task U L M → Cursor T → Result T L M → Prop
  | .each _, cursor, result => Grows cursor result
  | .greedy _, cursor, result => Grows cursor result ∧ result.outcome ≠ .unmatched
  | .scan _ start, cursor, result =>
    ∀ origin : Cursor T, origin.position = start → Grown origin.tree cursor.tree →
      Balanced origin result
  | _, cursor, result => Balanced cursor result

variable [InputUnit U] [DecidableEq U] [DecidableEq M] {setting : Setting U L}

theorem balanced_done {rule : Rule U L} {cursor : Cursor T} {result : Result T L M}
    (h : atOnce? setting rule cursor = some result) :
    Balanced cursor result := by
  rcases done_cases h with ⟨offset, -, rfl⟩ | ⟨events, rfl⟩ | rfl | rfl
  · exact .of_grows ⟨grown_refl _, nofun⟩ nofun
  · exact ⟨⟨grown_refl _, nofun⟩, fun _ => ⟨rfl, grown_refl _⟩⟩
  · obtain ⟨ho, hg, hs⟩ := moveTo_position (grown_refl cursor.tree)
    exact ⟨⟨hg, nofun⟩, fun _ => ⟨ho, hs⟩⟩
  · exact .of_grows ⟨grown_refl _, nofun⟩ nofun

theorem goes_keeps {task : Task U L M} {cursor : Cursor T} {parts : List (Course U L T M)}
    {result : Result T L M} (h : Goes setting task cursor parts result) :
    Keeps task cursor result := by
  -- Whoever moves back, a row, a look, a scan or a recovery, moves to where it took a position.
  induction h with
  | done h => exact balanced_done h
  | seq _ ih | times _ ih => exact .backTo ih
  | or _ ih | plusStop _ _ ih | ref _ _ ih | firstStop _ _ ih => exact ih
  | star _ ih => exact .of_grows ih.1 ih.2
  | plusOn _ _ _ ih ihn => exact .of_grows (ih.toGrows.after ihn.1 _) ihn.2
  | opt _ _ ih => exact .of_grows ih.toGrows.accept.1 ih.toGrows.accept.2
  | ahead _ ih => exact .lookFrom ih.toGrows
  | notAhead _ ih => exact .denyFrom ih.toGrows
  | untilPast _ ih => exact ih _ rfl (grown_refl _)
  | mandatory _ ih => exact .demand ih.toGrows
  | recover _ ih => exact ih.recoverTo
  | store hi _ ih => exact ih.closeNode setting.policy hi
  | counted _ ih => exact ⟨⟨ih.grown, ih.sound⟩, ih.restored⟩
  | eachNil => exact ⟨grown_refl _, nofun⟩
  | eachStop _ _ ih => exact ih.toGrows
  | eachOn _ _ _ ih ihn => exact ih.toGrows.after ihn _
  | firstNil => exact ⟨⟨grown_refl _, nofun⟩, fun _ => ⟨rfl, grown_refl _⟩⟩
  | firstOn _ ho _ ih ihn => exact ih.after ho ihn _
  | greedyEnd => exact ⟨⟨grown_refl _, nofun⟩, nofun⟩
  | greedyStop _ _ _ ih => exact ih.toGrows.accept
  | greedyStill _ _ ho _ ih => exact ⟨ih.toGrows, by rw [ho]; exact nofun⟩
  | greedyOn _ _ _ _ _ ih ihn => exact ⟨ih.toGrows.after ihn.1 _, ihn.2⟩
  | scanStop _ ho ih =>
    intro origin _ hg
    exact .of_grows ⟨grown_trans hg ih.grown, ih.sound⟩ ho
  | @scanEnd _ _ _ _ tried _ _ _ ih =>
    intro origin hp hg
    subst hp
    have hg : Grown origin.tree (tried.cursor.advance setting.input).tree := by
      rw [Cursor.advance_tree]
      exact grown_trans hg ih.grown
    obtain ⟨ho, hg, hs⟩ := moveTo_position hg
    exact ⟨⟨hg, nofun⟩, fun _ => ⟨ho, hs⟩⟩
  | scanOn _ _ _ _ ih ihn =>
    intro origin hp hg
    have hl := ihn origin hp (by
      rw [Cursor.advance_tree]
      exact grown_trans hg ih.grown)
    exact ⟨⟨hl.grown, hl.sound⟩, hl.restored⟩

theorem goes_balanced {rule : Rule U L} {cursor : Cursor T} {parts : List (Course U L T M)}
    {result : Result T L M} (h : Goes setting (.rule rule) cursor parts result) :
    Balanced cursor result :=
  goes_keeps h

theorem returns_balanced {rule : Rule U L} {cursor : Cursor T} {result : Result T L M}
    (h : Returns setting rule cursor result) : Balanced cursor result := by
  obtain ⟨parts, h⟩ := returns_iff_goes.1 h
  exact goes_keeps h

end Peg.Matching
