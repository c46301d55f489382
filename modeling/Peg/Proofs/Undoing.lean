import Peg.Proofs.Balance
import Peg.Sample.Grammar

/-
  Undoing: to go back to a position undoes all that was done since it was taken, over every kind of
  tree (`moveTo_undoes`). What was done is a history of matches, whatever came of them, of steps
  over the input, and of going back to positions that were taken meanwhile. To go back to one drops
  the later ones; those that are kept are of trees that have only grown since (`Layered`).
-/

namespace Peg.Matching

open LawfulTree

/-- From a position taken at the origin to the cursor, with the positions taken since and not
undone, the last one first and the one at the origin last. -/
inductive Held {U L T M : Type} [InputUnit U] [DecidableEq U] [NodeTree T L M] [DecidableEq M]
    (input : Input U) (origin : Cursor T) : Cursor T → List (Position M) → Prop
  | start : Held input origin origin [origin.position]
  | take {cursor positions} (h : Held input origin cursor positions) :
      Held input origin cursor (cursor.position :: positions)
  | matched {cursor positions references policy rule result}
      (h : Held input origin cursor positions)
      (hr : Returns ⟨input, references, policy⟩ rule cursor result) :
      Held input origin result.cursor positions
  | advance {cursor positions} (h : Held input origin cursor positions) :
      Held input origin (cursor.advance input) positions
  | back {cursor newer position older} (h : Held input origin cursor (newer ++ position :: older)) :
      Held input origin (cursor.moveTo position) (position :: older)

section

variable {U L T M : Type} [NodeTree T L M] [LawfulTree T]

/-- Each position is of a tree that grew to the tree at the next one, and from the last to the
tree. -/
inductive Layered (origin : Cursor T) : T → List (Position M) → Prop
  | base {tree} (hg : Grown origin.tree tree) : Layered origin tree [origin.position]
  | layer {cursor : Cursor T} {positions tree} (h : Layered origin cursor.tree positions)
      (hg : Grown cursor.tree tree) : Layered origin tree (cursor.position :: positions)

namespace Layered

variable {origin : Cursor T} {tree : T} {positions newer older : List (Position M)}
  {position : Position M}

theorem grow (h : Layered origin tree positions) {later : T} (hg : Grown tree later) :
    Layered origin later positions := by
  cases h with
  | base ho => exact .base (grown_trans ho hg)
  | layer h ho => exact .layer h (grown_trans ho hg)

/-- Through all positions, the tree has grown from the one at the origin. -/
theorem grown (h : Layered origin tree positions) : Grown origin.tree tree := by
  induction h with
  | base hg => exact hg
  | layer _ hg ih => exact grown_trans ih hg

theorem drop (h : Layered origin tree (newer ++ position :: older)) :
    Layered origin tree (position :: older) := by
  induction newer with
  | nil => exact h
  | cons _ newer ih =>
    rw [List.cons_append] at h
    generalize hp : newer ++ position :: older = positions at h ih
    cases h with
    | base => simp at hp
    | layer h hg => exact ih (h.grow hg)

/-- The tree at a position that is held is there again after going back to it. -/
theorem rewind (h : Layered origin tree (newer ++ position :: older)) :
    Layered origin (NodeTree.rewind tree position.mark) (position :: older) := by
  cases h.drop with
  | base hg => exact .base (rewind_mark hg).1
  | layer h hg => exact .layer h (rewind_mark hg).1

end Layered

variable [InputUnit U] [DecidableEq U] [DecidableEq M] {input : Input U}

theorem Held.layered {origin cursor : Cursor T} {positions : List (Position M)}
    (h : Held input origin cursor positions) : Layered origin cursor.tree positions := by
  induction h with
  | start => exact .base (grown_refl _)
  | take _ ih => exact .layer ih (grown_refl _)
  | matched _ hr ih => exact ih.grow (returns_balanced hr).grown
  | advance _ ih =>
    rw [Cursor.advance_tree]
    exact ih
  | back _ ih => exact ih.rewind

/-- To go back to the origin undoes all growth. -/
theorem Held.moveTo_origin {origin cursor : Cursor T} {positions : List (Position M)}
    (h : Held input origin cursor positions) :
    (cursor.moveTo origin.position).offset = origin.offset ∧
      Grown origin.tree (cursor.moveTo origin.position).tree ∧
      Grown (cursor.moveTo origin.position).tree origin.tree :=
  moveTo_position h.layered.grown

omit [LawfulTree T]

/-- Match one rule and then another, go back to between them and pass a unit there. -/
def tryAndPass? (setting : Setting U L) (bound : Nat) (rule rule' : Rule U L) (cursor : Cursor T) :
    Option (Outcome (Position M) × Outcome (Position M) × Cursor T) :=
  (run setting bound rule cursor).bind fun first =>
    (run setting bound rule' first.cursor).map fun second => (first.outcome, second.outcome,
      (second.cursor.moveTo first.cursor.position).advance setting.input)

theorem held_of_tryAndPass? {setting : Setting U L} {bound : Nat} {rule rule' : Rule U L}
    {origin cursor : Cursor T} {outcome outcome' : Outcome (Position M)}
    (h : tryAndPass? setting bound rule rule' origin = some (outcome, outcome', cursor)) :
    ∃ positions, Held setting.input origin cursor positions := by
  obtain ⟨first, hf, h⟩ := Option.bind_eq_some_iff.1 h
  obtain ⟨second, hs, h⟩ := Option.map_eq_some_iff.1 h
  cases h
  have hm : Held setting.input origin second.cursor
      ([] ++ [first.cursor.position, origin.position]) :=
    (Held.start.matched ⟨bound, hf⟩).take.matched ⟨bound, hs⟩
  exact ⟨_, hm.back.advance⟩

end

variable {U L : Type} [InputUnit U] [DecidableEq U] [DecidableEq L]

/-- Whatever was done since a position was taken, to go back to it brings back offset, nodes and
innermost open node. -/
theorem moveTo_undoes (input : Input U) :
    (∀ (origin cursor : Cursor (TrailTree L)) (positions : List (Position Mark)),
      Held input origin cursor positions →
        (cursor.moveTo origin.position).offset = origin.offset ∧
        (cursor.moveTo origin.position).tree.arena.toList = origin.tree.arena.toList ∧
        (cursor.moveTo origin.position).tree.arena.innermost = origin.tree.arena.innermost) ∧
    (∀ (origin cursor : Cursor (RowTree L)) (positions : List (Position Mark)),
      Held input origin cursor positions →
        (cursor.moveTo origin.position).offset = origin.offset ∧
        (cursor.moveTo origin.position).tree.toList = origin.tree.toList ∧
        (cursor.moveTo origin.position).tree.innermost = origin.tree.innermost) ∧
    (∀ (origin cursor : Cursor (DepthTree L)) (positions : List (Position Nat)),
      Held input origin cursor positions →
        (cursor.moveTo origin.position).offset = origin.offset ∧
        (cursor.moveTo origin.position).tree.depth = origin.tree.depth) := by
  refine ⟨?_, ?_, ?_⟩
  · intro origin cursor positions h
    obtain ⟨ho, hg, hb⟩ := h.moveTo_origin
    exact ⟨ho, Arena.Grown.toList_eq hb hg, Arena.Grown.innermost_eq hg⟩
  · intro origin cursor positions h
    obtain ⟨ho, hg, hb⟩ := h.moveTo_origin
    exact ⟨ho, Arena.Grown.toList_eq hb hg, Arena.Grown.innermost_eq hg⟩
  · intro origin cursor positions h
    obtain ⟨ho, hg, -⟩ := h.moveTo_origin
    exact ⟨ho, hg⟩

/-- After a number, a list that is not closed is tried and undone, and its parenthesis passed. In a
row of three slots there is no room for the items of the list. -/
theorem moveTo_undoes_number_and_list :
    let setting : Setting Char Sample.Label :=
      ⟨.ofList ['1', '(', '2', 'x'], Sample.workspace.registry.lookup, .text⟩
    let entry : Node Sample.Label := ⟨.entry, 0, 0, none⟩
    let number : Node Sample.Label := ⟨.number, 0, 1, some 0⟩
    let trail : Cursor (TrailTree Sample.Label) := ⟨0, ⟨#[entry], some 0⟩, []⟩
    let row : Cursor (RowTree Sample.Label) := ⟨0, ⟨#[some entry, none, none], 1⟩, some 0⟩
    let depth : Cursor (DepthTree Sample.Label) := ⟨0, ⟨1⟩⟩
    (∃ cursor positions, Held setting.input trail cursor positions ∧ cursor.offset = 2 ∧
      cursor.tree.arena.toList = [entry, number] ∧
      (cursor.moveTo trail.position).tree.arena.toList = [entry]) ∧
    (∃ cursor positions, Held setting.input row cursor positions ∧ cursor.offset = 2 ∧
      cursor.tree.toList = [entry, number] ∧
      (cursor.moveTo row.position).tree.toList = [entry]) ∧
    (∃ cursor positions, Held setting.input depth cursor positions ∧ cursor.offset = 2 ∧
      (cursor.moveTo depth.position).tree.depth = 1) := by
  intro setting entry number trail row depth
  obtain ⟨htrail, hrow, hdepth⟩ := moveTo_undoes (L := Sample.Label) setting.input
  refine ⟨?_, ?_, ?_⟩
  · have h : tryAndPass? setting 20 Sample.numberRule Sample.listRule trail = some
        (.matched, .failed (.mandatory ⟨2, ⟨3, some 2⟩⟩), ⟨2, ⟨#[entry, number], some 0⟩, []⟩) := by
      decide +kernel
    obtain ⟨positions, h⟩ := held_of_tryAndPass? h
    exact ⟨_, positions, h, rfl, rfl, (htrail _ _ _ h).2.1⟩
  · have h : tryAndPass? setting 20 Sample.numberRule Sample.listRule row = some
        (.matched, .failed .exhausted, ⟨2, ⟨#[some entry, some number, none], 2⟩, some 0⟩) := by
      decide +kernel
    obtain ⟨positions, h⟩ := held_of_tryAndPass? h
    exact ⟨_, positions, h, rfl, rfl, (hrow _ _ _ h).2.1⟩
  · have h : tryAndPass? setting 20 Sample.numberRule Sample.listRule depth = some
        (.matched, .failed (.mandatory ⟨2, 2⟩), ⟨2, ⟨1⟩⟩) := by
      decide +kernel
    obtain ⟨positions, h⟩ := held_of_tryAndPass? h
    exact ⟨_, positions, h, rfl, (hdepth _ _ _ h).2⟩

end Peg.Matching
