import Peg.Proofs.History
import Peg.Proofs.TreesAgree

/-
  Bounded storage: a row of slots against an array that takes no more nodes than a limit. Whatever
  the slots held and whatever is called, each call has the same answer on a tree over either, and
  all that can be seen of the two trees is the same. Behind this is that slots are occupied up to
  the end of the row and vacant from there on (`row_refines_bounded_array`).
-/

namespace Peg

variable {L : Type}

/-! ## Arrays with a limit -/

/-- Nodes in the order in which they were stored, and no more of them than a limit. -/
structure BoundedArray (limit : Nat) (L : Type) where
  nodes : Array (Node L)
  size_le : nodes.size ≤ limit

namespace BoundedArray

variable {limit : Nat}

def empty : BoundedArray limit L := ⟨#[], Nat.zero_le _⟩

/-- Append a node, unless the limit is reached. -/
def push? (bounded : BoundedArray limit L) (node : Node L) : Option (BoundedArray limit L) :=
  if h : bounded.nodes.size < limit then
    some ⟨bounded.nodes.push node, by rw [Array.size_push]; exact h⟩
  else none

def truncate (bounded : BoundedArray limit L) (size : Nat) : BoundedArray limit L :=
  ⟨bounded.nodes.shrink size, by
    rw [Array.size_shrink]
    exact Nat.le_trans (Nat.min_le_right _ _) bounded.size_le⟩

def modify (bounded : BoundedArray limit L) (i : Nat) (f : Node L → Node L) :
    BoundedArray limit L :=
  ⟨bounded.nodes.modify i f, by rw [Array.size_modify]; exact bounded.size_le⟩

end BoundedArray

instance {limit : Nat} : Slots (BoundedArray limit L) L where
  size bounded := bounded.nodes.size
  push? := BoundedArray.push?
  truncate := BoundedArray.truncate
  get? bounded i := bounded.nodes[i]?
  modify := BoundedArray.modify

/-- An arena that takes no more nodes than a limit. -/
abbrev BoundedTree (limit : Nat) (L : Type) : Type := Arena (BoundedArray limit L)

/-- The same nodes, without the limit. -/
def BoundedTree.array {limit : Nat} (tree : BoundedTree limit L) : ArrayTree L :=
  ⟨tree.slots.nodes, tree.innermost⟩

/-! ## Results in a relation -/

section

variable {A A' B B' : Type} {rel : A → A' → Prop} {rel' : B → B' → Prop} {x : Option A}
  {x' : Option A'}

theorem rel_cases (h : Option.Rel rel x x') :
    (∃ a a', x = some a ∧ x' = some a' ∧ rel a a') ∨ x = none ∧ x' = none := by
  cases h with
  | none => exact Or.inr ⟨rfl, rfl⟩
  | some h => exact Or.inl ⟨_, _, rfl, rfl, h⟩

theorem rel_map {f : A → B} {f' : A' → B'} (h : Option.Rel rel x x')
    (hf : ∀ a a', rel a a' → rel' (f a) (f' a')) : Option.Rel rel' (x.map f) (x'.map f') := by
  cases h with
  | none => exact .none
  | some h => exact .some (hf _ _ h)

theorem rel_bind {f : A → Option B} {f' : A' → Option B'} (h : Option.Rel rel x x')
    (hf : ∀ a a', rel a a' → Option.Rel rel' (f a) (f' a')) :
    Option.Rel rel' (x.bind f) (x'.bind f') := by
  cases h with
  | none => exact .none
  | some h => exact hf _ _ h

theorem rel_imp {weaker : A → A' → Prop} (h : Option.Rel rel x x')
    (hi : ∀ a a', rel a a' → weaker a a') : Option.Rel weaker x x' := by
  cases h with
  | none => exact .none
  | some h => exact .some (hi _ _ h)

theorem rel_eq (x : Option A) : Option.Rel Eq x x := by
  cases x with
  | none => exact .none
  | some a => exact .some rfl

end

/-- Both attempts succeed, with results in a relation, or both have the same fault. -/
inductive Attempted {A B : Type} (rel : A → B → Prop) : Except Fault A → Except Fault B → Prop
  | ok {a b} (h : rel a b) : Attempted rel (.ok a) (.ok b)
  | error {fault} : Attempted rel (.error fault) (.error fault)

/-! ## Trees over a row and over a bounded array -/

/-- The row holds what the bounded array does, and nothing past it. -/
def BoundedTree.KeptIn {limit : Nat} (tree : BoundedTree limit L) (row : RowTree L) : Prop :=
  Fills limit tree.array row

namespace BoundedTree.KeptIn

variable {limit : Nat} {tree : BoundedTree limit L} {row : RowTree L} {label : L} {start stop : Nat}

theorem mark_eq (h : tree.KeptIn row) : row.mark = tree.mark := Fills.mark_eq h

theorem get?_eq (h : tree.KeptIn row) (i : Nat) : row.get? i = tree.get? i := Fills.get?_eq h i

theorem rewind (h : tree.KeptIn row) (mark : Mark) : KeptIn (tree.rewind mark) (row.rewind mark) :=
  Fills.rewind h mark

/-- The row is full when the limit is reached. -/
theorem openNode?_rel (h : tree.KeptIn row) :
    Option.Rel KeptIn (tree.openNode? label start) (row.openNode? label start) := by
  by_cases hlt : tree.slots.nodes.size < limit
  · have hp : ∃ slots, Slots.push? tree.slots ⟨label, start, start, tree.innermost⟩ = some slots ∧
        slots.nodes = tree.slots.nodes.push ⟨label, start, start, tree.innermost⟩ :=
      ⟨_, dif_pos hlt, rfl⟩
    obtain ⟨slots, hp, hn⟩ := hp
    have ho : tree.array.openNode? label start =
        some (BoundedTree.array ⟨slots, some tree.size⟩) := by
      unfold BoundedTree.array
      rw [hn]
      rfl
    rcases Fills.openNode? h ho with ⟨row', hr, hf⟩ | ⟨hfull, -⟩
    · rw [hr, Arena.openNode?, hp]
      exact .some hf
    · exact absurd slots.size_le hfull
  · have hb : tree.openNode? label start = none := Option.map_eq_none_iff.2 (dif_neg hlt)
    have hr : row.openNode? label start = none := by
      refine Option.map_eq_none_iff.2 (if_neg ?_)
      have hu : row.slots.used = tree.slots.nodes.size := h.size_eq
      rw [hu, h.capacity_eq]
      exact hlt
    rw [hb, hr]
    exact .none

variable [DecidableEq L]

theorem complete_rel (h : tree.KeptIn row) :
    Attempted KeptIn (tree.complete label stop) (row.complete label stop) := by
  have hi : row.innermost = tree.innermost := h.innermost_eq
  unfold Arena.complete
  rw [hi]
  cases tree.innermost with
  | none => exact .error
  | some i =>
    simp only [h.get?_eq]
    cases tree.get? i with
    | none => exact .error
    | some node =>
      by_cases hl : node.label = label
      · simp only [if_pos hl]
        exact .ok (Fills.modify h i _ _)
      · simp only [if_neg hl]
        exact .error

theorem abandon_rel (h : tree.KeptIn row) :
    Attempted KeptIn (tree.abandon label) (row.abandon label) := by
  have hi : row.innermost = tree.innermost := h.innermost_eq
  unfold Arena.abandon
  rw [hi]
  cases tree.innermost with
  | none => exact .error
  | some i =>
    simp only [h.get?_eq]
    cases tree.get? i with
    | none => exact .ok (Fills.rewind h ⟨i, none⟩)
    | some node =>
      by_cases hl : node.label = label
      · simp only [if_pos hl]
        exact .ok (Fills.rewind h ⟨i, node.parent⟩)
      · simp only [if_neg hl]
        exact .error

end BoundedTree.KeptIn

/-! ## Calls -/

namespace Script

section

variable {T M : Type} [NodeTree T L M] [NodeView T L] [DecidableEq M]

/-- Make calls one after the other and keep the answers; none if one of them names a mark that was
never saved. -/
def TreeState.answers? (state : TreeState T M) :
    List (TreeCall L) → Option (List (TreeAnswer T L M) × TreeState T M)
  | [] => some ([], state)
  | call :: calls => (state.call? call).bind fun (answer, next) =>
    (next.answers? calls).map fun (answers, last) => (answer :: answers, last)

end

variable {limit : Nat}

/-- The answers are the same, except that a tree over a row stands for one over a bounded array. -/
inductive SameAnswer :
    TreeAnswer (BoundedTree limit L) L Mark → TreeAnswer (RowTree L) L Mark → Prop
  | done : SameAnswer .done .done
  | holds {b} : SameAnswer (.holds b) (.holds b)
  | mark {mark} : SameAnswer (.mark mark) (.mark mark)
  | node {node?} : SameAnswer (.node node?) (.node node?)
  | tree {tree row} (h : BoundedTree.KeptIn tree row) : SameAnswer (.tree tree) (.tree row)
  | exhausted : SameAnswer .exhausted .exhausted
  | fault {fault} : SameAnswer (.fault fault) (.fault fault)

/-- The row holds what the bounded array does, and the same marks were saved. -/
structure InStep (bounded : TreeState (BoundedTree limit L) Mark)
    (row : TreeState (RowTree L) Mark) : Prop where
  kept : bounded.tree.KeptIn row.tree
  marks_eq : row.marks = bounded.marks

/-- What was answered is the same in a sense, and the states after it are in step. -/
def Answered {A A' : Type} (same : A → A' → Prop)
    (bounded : A × TreeState (BoundedTree limit L) Mark) (row : A' × TreeState (RowTree L) Mark) :
    Prop :=
  same bounded.1 row.1 ∧ InStep bounded.2 row.2

section

variable [DecidableEq L] {bounded : TreeState (BoundedTree limit L) Mark}
  {row : TreeState (RowTree L) Mark}

omit [DecidableEq L] in
theorem InStep.changed (h : InStep bounded row) {attempt : Except Fault (BoundedTree limit L)}
    {attempt' : Except Fault (RowTree L)} (ha : Attempted BoundedTree.KeptIn attempt attempt') :
    Answered SameAnswer (bounded.changed attempt) (row.changed attempt') := by
  cases ha with
  | ok hk => exact ⟨.done, hk, h.marks_eq⟩
  | error => exact ⟨.fault, h⟩

/-- Each call has the same answer on the row as on the bounded array. -/
theorem InStep.call? (h : InStep bounded row) (call : TreeCall L) :
    Option.Rel (Answered SameAnswer) (bounded.call? call) (row.call? call) := by
  obtain ⟨tree, marks⟩ := bounded
  obtain ⟨tree', marks'⟩ := row
  obtain ⟨hk, hm⟩ := h
  obtain rfl : marks' = marks := hm
  have hk : tree.KeptIn tree' := hk
  have hmark : NodeTree.mark tree' = NodeTree.mark tree := hk.mark_eq
  have hopen (label : L) (start : Nat) : Option.Rel BoundedTree.KeptIn
      (NodeTree.openNode? tree label start) (NodeTree.openNode? tree' label start) :=
    hk.openNode?_rel
  cases call with
  | openNode label start =>
    rcases rel_cases (hopen label start) with ⟨opened, opened', ho, ho', hk⟩ | ⟨ho, ho'⟩
    · simp only [TreeState.call?, ho, ho']
      exact .some ⟨.holds, hk, rfl⟩
    · simp only [TreeState.call?, ho, ho']
      exact .some ⟨.exhausted, hk, rfl⟩
  | complete label stop => exact .some (InStep.changed ⟨hk, rfl⟩ hk.complete_rel)
  | abandon label => exact .some (InStep.changed ⟨hk, rfl⟩ hk.abandon_rel)
  | unwind label => exact .some ⟨.done, hk, rfl⟩
  | mark name =>
    simp only [TreeState.call?, hmark]
    exact .some ⟨.mark, hk, rfl⟩
  | rewind name =>
    refine rel_map (rel_eq _) ?_
    rintro mark _ rfl
    exact ⟨.done, hk.rewind mark, rfl⟩
  | same name =>
    simp only [TreeState.call?, hmark]
    refine rel_map (rel_eq _) ?_
    rintro mark _ rfl
    exact ⟨.holds, hk, rfl⟩
  | get i =>
    have hg : NodeView.get? tree' i = NodeView.get? tree i := hk.get?_eq i
    simp only [TreeState.call?, hg]
    exact .some ⟨.node, hk, rfl⟩
  | fork label start =>
    rcases rel_cases (hopen label start) with ⟨opened, opened', ho, ho', hopened⟩ | ⟨ho, ho'⟩
    · simp only [TreeState.call?, ho, ho']
      exact .some ⟨.tree hopened, hk, rfl⟩
    · simp only [TreeState.call?, ho, ho']
      exact .some ⟨.tree hk, hk, rfl⟩

/-- All calls have the same answers. -/
theorem InStep.answers? (h : InStep bounded row) (calls : List (TreeCall L)) :
    Option.Rel (Answered (List.Forall₂ SameAnswer)) (bounded.answers? calls)
      (row.answers? calls) := by
  induction calls generalizing bounded row with
  | nil => exact .some ⟨.nil, h⟩
  | cons call calls ih =>
    refine rel_bind (h.call? call) ?_
    rintro ⟨answer, next⟩ ⟨answer', next'⟩ ⟨ha, hn⟩
    refine rel_map (ih hn) ?_
    rintro ⟨answers, last⟩ ⟨answers', last'⟩ ⟨has, hl⟩
    exact ⟨.cons ha has, hl⟩

/-- All that can be seen of the trees is the same. In the row, slots are occupied up to the end and
vacant from there on, there is no room exactly when all of them are occupied, and a call that is
refused changes nothing. -/
structure SameSight (bounded : TreeState (BoundedTree limit L) Mark)
    (row : TreeState (RowTree L) Mark) : Prop where
  marks_eq : row.marks = bounded.marks
  mark_eq : row.tree.mark = bounded.tree.mark
  get?_eq : ∀ i, row.tree.get? i = bounded.tree.get? i
  toList_eq : row.tree.toList = bounded.tree.toList
  openNodes?_eq : row.tree.openNodes? = bounded.tree.openNodes?
  capacity_eq : row.tree.slots.capacity = limit
  size_le : row.tree.size ≤ limit
  occupied_iff : ∀ i, (row.tree.slots.get? i).isSome = true ↔ i < row.tree.size
  full_iff : ∀ label start, row.tree.openNode? label start = none ↔ row.tree.size = limit
  refused : row.KeptOnRefusal

theorem InStep.sameSight (h : InStep bounded row) : SameSight bounded row where
  marks_eq := h.marks_eq
  mark_eq := h.kept.mark_eq
  get?_eq := h.kept.get?_eq
  toList_eq := Fills.toList_eq h.kept
  openNodes?_eq := by
    have hs : row.tree.size = bounded.tree.size := h.kept.size_eq
    have hi : row.tree.innermost = bounded.tree.innermost := h.kept.innermost_eq
    unfold Arena.openNodes?
    rw [hs, hi]
    exact Arena.outwards?_congr h.kept.get?_eq _ _
  capacity_eq := h.kept.capacity_eq
  size_le := by
    rw [h.kept.size_eq]
    exact h.kept.size_le
  occupied_iff i := by
    have hg : row.tree.slots.get? i = bounded.tree.slots.nodes[i]? := h.kept.get?_eq i
    rw [hg, h.kept.size_eq]
    exact Option.isSome_iff_exists.trans ⟨fun ⟨_, h⟩ => (Array.getElem?_eq_some_iff.1 h).1,
      fun h => ⟨_, Array.getElem?_eq_getElem h⟩⟩
  full_iff label start := by
    have hu : row.tree.slots.used = row.tree.size := rfl
    have hc : row.tree.slots.capacity = limit := h.kept.capacity_eq
    have hle : row.tree.size ≤ limit := h.kept.size_eq ▸ h.kept.size_le
    have hp (node : Node L) : row.tree.slots.push? node = none ↔ ¬ row.tree.size < limit := by
      unfold SlotRow.push?
      rw [hu, hc]
      split <;> simp_all
    refine Option.map_eq_none_iff.trans ((hp _).trans ?_)
    omega
  refused := row.keptOnRefusal

/-- Whatever slots held before they were taken over, and whatever is then called on a tree over
them, in any order and with marks saved at any time, each call has the same answer as on a tree over
an array that refuses nodes from the same limit on, and the trees look the same after it. -/
theorem row_refines_bounded_array (cells : Array (Option (Node L))) (calls : List (TreeCall L)) :
    Option.Rel (fun bounded row =>
        List.Forall₂ SameAnswer bounded.1 row.1 ∧ SameSight bounded.2 row.2)
      (TreeState.answers? ⟨.ofSlots (.empty : BoundedArray cells.size L), []⟩ calls)
      (TreeState.answers? ⟨.ofSlots (.reuse cells), []⟩ calls) := by
  let bounded : TreeState (BoundedTree cells.size L) Mark := ⟨.ofSlots .empty, []⟩
  have h : InStep bounded ⟨.ofSlots (.reuse cells), []⟩ := ⟨Fills.empty cells, rfl⟩
  exact rel_imp (h.answers? calls) fun _ _ ha => ⟨ha.1, ha.2.sameSight⟩

end

end Script

end Peg
