import Peg.Proofs.Balance
import Peg.Sample.Grammar

/-
  Transparency: a rule that does not match leaves the cursor as it was, over every kind of tree
  (`unmatched_restores`). Nodes and offset come from the balance of matches; the trail stays empty
  because only a hard failure adds to it and whatever stops a hard failure goes back to a position.
-/

namespace Peg.Matching

variable {U L : Type} [DecidableEq L]

/-! ## The trail -/

/-- Unless the match ends in a hard failure, an empty trail stays empty. -/
def Clears (cursor : Cursor (TrailTree L)) (result : Result (TrailTree L) L Mark) : Prop :=
  cursor.tree.trail = [] → result.outcome = .matched ∨ result.outcome = .unmatched →
    result.cursor.tree.trail = []

theorem openNode?_trail {cursor inside : Cursor (TrailTree L)} {label : L}
    (h : cursor.openNode? label = some inside) : inside.tree.trail = cursor.tree.trail := by
  obtain ⟨tree, ht, rfl⟩ := Option.map_eq_some_iff.1 h
  obtain ⟨arena, -, rfl⟩ := Option.map_eq_some_iff.1 ht
  rfl

theorem complete_trail {cursor closed : Cursor (TrailTree L)} {label : L}
    (h : cursor.complete label = .ok closed) : closed.tree.trail = cursor.tree.trail := by
  obtain ⟨tree, ht, rfl⟩ := of_map_eq_ok h
  obtain ⟨arena, -, rfl⟩ := of_map_eq_ok ht
  rfl

theorem abandon_trail {cursor closed : Cursor (TrailTree L)} {label : L}
    (h : cursor.abandon label = .ok closed) : closed.tree.trail = cursor.tree.trail := by
  obtain ⟨tree, ht, rfl⟩ := of_map_eq_ok h
  obtain ⟨arena, -, rfl⟩ := of_map_eq_ok ht
  rfl

namespace Clears

variable {cursor inside : Cursor (TrailTree L)} {result last : Result (TrailTree L) L Mark}

theorem backTo (h : Clears cursor result) (position : Position Mark) :
    Clears cursor (result.backTo position) := by
  unfold Result.backTo
  split
  · exact fun _ _ => rfl
  · exact h

theorem lookFrom (h : Clears cursor result) (position : Position Mark) :
    Clears cursor (result.lookFrom position) := by
  unfold Result.lookFrom
  split
  · exact fun _ _ => rfl
  · exact fun _ _ => rfl
  · exact h

omit [DecidableEq L] in
theorem negate (h : Clears cursor result) : Clears cursor result.negate := by
  unfold Result.negate
  split
  · rename_i ho
    exact fun ht _ => h ht (Or.inl ho)
  · rename_i ho
    exact fun ht _ => h ht (Or.inr ho)
  · exact h

omit [DecidableEq L] in
theorem accept (h : Clears cursor result) : Clears cursor result.accept := by
  unfold Result.accept
  split
  · rename_i ho
    exact fun ht _ => h ht (Or.inr ho)
  · exact h

theorem demand (h : Clears cursor result) : Clears cursor result.demand := by
  unfold Result.demand
  split
  · exact fun _ => nofun
  · exact h

theorem recoverTo (h : Clears cursor result) (position : Position Mark) :
    Clears cursor (result.recoverTo position) := by
  unfold Result.recoverTo
  split
  · exact fun _ _ => rfl
  · exact h

omit [DecidableEq L] in
/-- What goes on after a rule that matched, or did not, goes on with an empty trail. -/
theorem after (h : Clears cursor result)
    (ho : result.outcome = .matched ∨ result.outcome = .unmatched)
    (hl : Clears result.cursor last) (events : List (Event L Mark)) :
    Clears cursor (last.after events) :=
  fun ht hlo => hl (h ht ho) hlo

theorem closeNode {label : L} (policy : Policy) (hi : cursor.openNode? label = some inside)
    (h : Clears inside result) : Clears cursor (result.closeNode policy label) := by
  intro ht
  have ht : inside.tree.trail = [] := (openNode?_trail hi).trans ht
  unfold Result.closeNode
  split
  · rename_i ho
    unfold Result.closing
    split
    · rename_i hc
      exact fun _ => (complete_trail hc).trans (h ht (Or.inl ho))
    · exact nofun
  · rename_i ho
    unfold Result.closing
    split
    · rename_i hc
      exact fun _ => (abandon_trail hc).trans (h ht (Or.inr ho))
    · exact nofun
  · split
    · exact nofun
    · exact nofun
  · rename_i ho
    rw [ho]
    exact nofun

end Clears

variable [InputUnit U] [DecidableEq U] {setting : Setting U L}

theorem goes_clears {task : Task U L Mark} {cursor : Cursor (TrailTree L)}
    {parts : List (Course U L (TrailTree L) Mark)} {result : Result (TrailTree L) L Mark}
    (h : Goes setting task cursor parts result) : Clears cursor result := by
  induction h with
  | done h =>
    rcases done_cases h with ⟨offset, -, rfl⟩ | ⟨events, rfl⟩ | rfl | rfl
    · exact fun ht _ => ht
    · exact fun ht _ => ht
    · exact fun _ _ => rfl
    · exact fun ht _ => ht
  | seq _ ih | times _ ih => exact ih.backTo _
  | or _ ih | star _ ih | plusStop _ _ ih | untilPast _ ih | ref _ _ ih | counted _ ih
  | eachStop _ _ ih | firstStop _ _ ih | greedyStill _ _ _ _ ih | scanStop _ _ ih => exact ih
  | opt _ _ ih | greedyStop _ _ _ ih => exact ih.accept
  | ahead _ ih => exact ih.lookFrom _
  | notAhead _ ih => exact (ih.lookFrom _).negate
  | mandatory _ ih => exact ih.demand
  | recover _ ih => exact ih.recoverTo _
  | store hi _ ih => exact ih.closeNode _ hi
  | eachNil | firstNil | greedyEnd => exact fun ht _ => ht
  | plusOn _ ho _ ih ihn | eachOn _ ho _ ih ihn | greedyOn _ _ ho _ _ ih ihn =>
    exact ih.after (Or.inl ho) ihn _
  | firstOn _ ho _ ih ihn => exact ih.after (Or.inr ho) ihn _
  | scanEnd => exact fun _ _ => rfl
  | @scanOn _ _ _ _ tried _ _ _ ho _ _ ih ihn =>
    intro ht hl
    refine ihn ?_ hl
    rw [Cursor.advance_tree]
    exact ih ht (Or.inr ho)

/-! ## Every kind of tree -/

/-- A rule that does not match leaves offset, nodes and innermost open node as they were, whatever
they were, and an empty trail empty. -/
theorem unmatched_restores (setting : Setting U L) (rule : Rule U L) :
    (∀ (cursor : Cursor (TrailTree L)) (result : Result (TrailTree L) L Mark),
      Returns setting rule cursor result → result.outcome = .unmatched →
        result.cursor.offset = cursor.offset ∧
        result.cursor.tree.arena.toList = cursor.tree.arena.toList ∧
        result.cursor.tree.arena.innermost = cursor.tree.arena.innermost ∧
        (cursor.tree.trail = [] → result.cursor.tree.trail = [])) ∧
    (∀ (cursor : Cursor (RowTree L)) (result : Result (RowTree L) L Mark),
      Returns setting rule cursor result → result.outcome = .unmatched →
        result.cursor.offset = cursor.offset ∧
        result.cursor.tree.toList = cursor.tree.toList ∧
        result.cursor.tree.innermost = cursor.tree.innermost) ∧
    (∀ (cursor : Cursor (DepthTree L)) (result : Result (DepthTree L) L Nat),
      Returns setting rule cursor result → result.outcome = .unmatched →
        result.cursor.offset = cursor.offset ∧
        result.cursor.tree.depth = cursor.tree.depth) := by
  refine ⟨?_, ?_, ?_⟩
  · intro cursor result h ho
    obtain ⟨hoff, hs⟩ := (returns_balanced h).restored ho
    have hg : cursor.tree.arena.Grown result.cursor.tree.arena := (returns_balanced h).grown
    obtain ⟨parts, h⟩ := returns_iff_goes.1 h
    exact ⟨hoff, Arena.Grown.toList_eq hs hg, hg.innermost_eq,
      fun ht => goes_clears h ht (Or.inr ho)⟩
  · intro cursor result h ho
    obtain ⟨hoff, hs⟩ := (returns_balanced h).restored ho
    have hg : cursor.tree.Grown result.cursor.tree := (returns_balanced h).grown
    exact ⟨hoff, Arena.Grown.toList_eq hs hg, hg.innermost_eq⟩
  · intro cursor result h ho
    obtain ⟨hoff, hs⟩ := (returns_balanced h).restored ho
    exact ⟨hoff, (returns_balanced h).grown⟩

/-- A sign without digits is no number: the sign was recorded, inside a node that was open. -/
theorem unmatched_restores_lone_sign :
    let setting : Setting Char Sample.Label := ⟨.ofList ['-', 'x'], fun _ => .undefined, .text⟩
    let nodes : Array (Node Sample.Label) := #[⟨.entry, 0, 0, none⟩]
    (∃ result, Returns setting Sample.numberRule ⟨0, TrailTree.mk ⟨nodes, some 0⟩ []⟩ result ∧
      result.outcome = .unmatched ∧ result.cursor.offset = 0 ∧
      result.cursor.tree.arena.toList = nodes.toList ∧ result.cursor.tree.trail = []) ∧
    (∃ result : Result (RowTree Sample.Label) Sample.Label Mark,
      Returns setting Sample.numberRule ⟨0, Arena.ofSlots (SlotRow.ofCapacity 3)⟩ result ∧
      result.outcome = .unmatched ∧ result.cursor.offset = 0 ∧ result.cursor.tree.toList = []) ∧
    (∃ result, Returns setting Sample.numberRule ⟨0, DepthTree.mk 7⟩ result ∧
      result.outcome = .unmatched ∧ result.cursor.offset = 0 ∧ result.cursor.tree.depth = 7) := by
  intro setting nodes
  obtain ⟨htrail, hrow, hdepth⟩ := unmatched_restores setting Sample.numberRule
  have ht : (run setting 5 Sample.numberRule ⟨0, TrailTree.mk ⟨nodes, some 0⟩ []⟩).map
      (·.outcome) = some .unmatched := by decide +kernel
  have hr : (run setting 5 Sample.numberRule
      ⟨0, (Arena.ofSlots (SlotRow.ofCapacity 3) : RowTree Sample.Label)⟩).map
      (·.outcome) = some .unmatched := by decide +kernel
  have hd : (run setting 5 Sample.numberRule ⟨0, DepthTree.mk 7⟩).map
      (·.outcome) = some .unmatched := by decide +kernel
  obtain ⟨_, ht, hto⟩ := Option.map_eq_some_iff.1 ht
  obtain ⟨_, hr, hro⟩ := Option.map_eq_some_iff.1 hr
  obtain ⟨_, hd, hdo⟩ := Option.map_eq_some_iff.1 hd
  refine ⟨⟨_, ⟨5, ht⟩, hto, ?_⟩, ⟨_, ⟨5, hr⟩, hro, ?_⟩, ⟨_, ⟨5, hd⟩, hdo, ?_⟩⟩
  · have h := htrail _ _ ⟨5, ht⟩ hto
    exact ⟨h.1, h.2.1, h.2.2.2 rfl⟩
  · have h := hrow _ _ ⟨5, hr⟩ hro
    exact ⟨h.1, h.2.1⟩
  · exact hdepth _ _ ⟨5, hd⟩ hdo

end Peg.Matching
