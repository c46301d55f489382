import Mathlib.Logic.ExistsUnique
import Peg.Proofs.Preorder

/-
  Children: which nodes a tree lists as the roots and as the children of a node. The roots are all
  nodes without a parent, whatever the order of the nodes. What is listed as the children of a node
  ends at the first node whose parent comes before that node, so no child is left out exactly if the
  nodes are in pre-order (`children_exact_iff_inPreorder`).
-/

namespace Peg

open Relation

variable {L : Type}

/-- The parent of each node after the first is none, the node before it, or an ancestor of that. -/
def InPreorder (nodes : Array (Node L)) : Prop :=
  ∀ p i, ParentIn nodes p (i + 1) → ReflTransGen (ParentIn nodes) p i

/-- Whether there is a node at the index and its parent is the given one. -/
def hasParent (nodes : Array (Node L)) (parent : Option Nat) (i : Nat) : Bool :=
  (nodes[i]?).map (·.parent) = some parent

/-- The indices of all nodes with the given parent, in increasing order. -/
def idsWithParent (nodes : Array (Node L)) (parent : Option Nat) : List Nat :=
  (List.range nodes.size).filter (hasParent nodes parent)

theorem hasParent_iff {nodes : Array (Node L)} {parent : Option Nat} {i : Nat} :
    hasParent nodes parent i = true ↔ ∃ node, nodes[i]? = some node ∧ node.parent = parent := by
  unfold hasParent
  rw [decide_eq_true_iff, Option.map_eq_some_iff]

theorem hasParent_some_iff {nodes : Array (Node L)} {p i : Nat} :
    hasParent nodes (some p) i = true ↔ ParentIn nodes p i :=
  hasParent_iff

theorem mem_idsWithParent {nodes : Array (Node L)} {parent : Option Nat} {i : Nat} :
    i ∈ idsWithParent nodes parent ↔ hasParent nodes parent i = true := by
  unfold idsWithParent
  rw [List.mem_filter, List.mem_range, and_iff_right_iff_imp]
  intro h
  obtain ⟨node, hn, -⟩ := hasParent_iff.1 h
  exact (Array.getElem?_eq_some_iff.1 hn).1

/-! ## Where a list of children ends -/

namespace ParseTree

variable {tree : ParseTree L} {parent : Option Nat} {first i : Nat}

/-- Of the nodes from the first index up to the second, none has a parent that comes before the
given one. -/
def Uncut (tree : ParseTree L) (parent : Option Nat) (first i : Nat) : Prop :=
  ∀ j, first ≤ j → j < i → ∀ node, tree.get? j = some node → parentLE parent node.parent = true

theorem parentLE_some_iff {p : Nat} {other : Option Nat} :
    parentLE (some p) other = true ↔ ∃ q, other = some q ∧ p ≤ q := by
  cases other with
  | none => simp [parentLE]
  | some q => simp [parentLE]

theorem Uncut.cons {node : Node L} (hn : tree.get? first = some node)
    (hle : parentLE parent node.parent = true) (h : tree.Uncut parent (first + 1) i) :
    tree.Uncut parent first i := by
  intro j hj hji other ho
  by_cases hf : j = first
  · subst hf
    rw [hn] at ho
    rw [← Option.some.inj ho]
    exact hle
  · exact h j (by omega) hji other ho

/-- What is listed has the given parent, and the list has not ended before it. -/
theorem of_mem_childrenFrom {n : Nat} (hn : tree.nodes.size ≤ first + n)
    (hm : i ∈ tree.childrenFrom first parent) :
    hasParent tree.nodes parent i = true ∧ tree.Uncut parent first i := by
  induction n generalizing first with
  | zero =>
    have hnone : tree.get? first = none := Array.getElem?_eq_none_iff.2 hn
    rw [childrenFrom_of_none hnone] at hm
    cases hm
  | succ n ih =>
    cases hnode : tree.get? first with
    | none =>
      rw [childrenFrom_of_none hnode] at hm
      cases hm
    | some node =>
      rw [childrenFrom_of_some hnode] at hm
      split at hm
      · rename_i hle
        have later : i ∈ tree.childrenFrom (first + 1) parent →
            hasParent tree.nodes parent i = true ∧ tree.Uncut parent first i := by
          intro hm
          obtain ⟨hp, hu⟩ := ih (by omega) hm
          exact ⟨hp, hu.cons hnode hle⟩
        split at hm
        · rename_i hp
          rcases List.mem_cons.1 hm with rfl | hm
          · exact ⟨hasParent_iff.2 ⟨node, hnode, hp⟩, fun j hj hji => by omega⟩
          · exact later hm
        · exact later hm
      · cases hm

/-- Where the list ends before no node with the given parent, it has all of them. -/
theorem childrenFrom_eq_filter {n : Nat} (hn : tree.nodes.size = first + n)
    (h : ∀ i, hasParent tree.nodes parent i = true → tree.Uncut parent first i) :
    tree.childrenFrom first parent =
      (List.range' first n).filter (hasParent tree.nodes parent) := by
  induction n generalizing first with
  | zero => exact childrenFrom_of_none (Array.getElem?_eq_none_iff.2 (Nat.le_of_eq hn))
  | succ n ih =>
    have hlt : first < tree.nodes.size := by omega
    have hnode : tree.get? first = some tree.nodes[first] := Array.getElem?_eq_getElem hlt
    rw [childrenFrom_of_some hnode, List.range'_succ, List.filter_cons]
    by_cases hle : parentLE parent tree.nodes[first].parent = true
    · have hrest : tree.childrenFrom (first + 1) parent =
          (List.range' (first + 1) n).filter (hasParent tree.nodes parent) :=
        ih (by omega) fun i hi j hj hji => h i hi j (by omega) hji
      have hhas : (hasParent tree.nodes parent first = true) =
          (tree.nodes[first].parent = parent) := by
        rw [hasParent_iff, show tree.nodes[first]? = some tree.nodes[first] from hnode]
        simp
      simp only [hle, if_true, hrest, hhas]
    · -- The list ends here, and no node with the parent is left.
      have hnone : ∀ i ∈ first :: List.range' (first + 1) n,
          ¬ hasParent tree.nodes parent i = true := by
        intro i hi hp
        have hfi : first ≤ i := by
          rcases List.mem_cons.1 hi with rfl | hi
          · exact Nat.le_refl _
          · have := (List.mem_range'_1.1 hi).1
            omega
        by_cases heq : i = first
        · subst heq
          obtain ⟨node, hnode', rfl⟩ := hasParent_iff.1 hp
          obtain rfl := Option.some.inj (hnode.symm.trans hnode')
          exact hle (parentLE_self _)
        · exact hle (h i hp first (Nat.le_refl _) (by omega) _ hnode)
      rw [if_neg hle, ← List.filter_cons, List.filter_eq_nil_iff.2 hnone]

/-! ## Roots and children -/

theorem roots_eq (tree : ParseTree L) : tree.roots = idsWithParent tree.nodes none := by
  unfold roots idsWithParent
  rw [List.range_eq_range']
  exact childrenFrom_eq_filter (Nat.zero_add _).symm fun _ _ _ _ _ _ _ => rfl

/-- No node up to the given one has that as its parent, so the children are all that have it. -/
theorem idsWithParent_eq {p : Nat} (hp : ∀ p i, ParentIn tree.nodes p i → p < i)
    (hlt : p < tree.nodes.size) : idsWithParent tree.nodes (some p) =
      (List.range' (p + 1) (tree.nodes.size - (p + 1))).filter
        (hasParent tree.nodes (some p)) := by
  have hsplit : List.range tree.nodes.size =
      List.range' 0 (p + 1) ++ List.range' (p + 1) (tree.nodes.size - (p + 1)) := by
    have h := List.range'_append_1 (s := 0) (m := p + 1) (n := tree.nodes.size - (p + 1))
    rw [Nat.zero_add, Nat.add_sub_cancel' hlt] at h
    rw [List.range_eq_range', h]
  have hnone : ∀ i ∈ List.range' 0 (p + 1), ¬ hasParent tree.nodes (some p) i = true := by
    intro i hi hc
    have hip := (List.mem_range'_1.1 hi).2
    have := hp p i (hasParent_some_iff.1 hc)
    omega
  unfold idsWithParent
  rw [hsplit, List.filter_append, List.filter_eq_nil_iff.2 hnone, List.nil_append]

/-- The children of a node are all nodes that have it as their parent exactly if the nodes between
it and each of these have parents that do not come before it. -/
theorem childrenFrom_eq_idsWithParent_iff {p : Nat}
    (hp : ∀ p i, ParentIn tree.nodes p i → p < i) (hlt : p < tree.nodes.size) :
    tree.childrenFrom (p + 1) (some p) = idsWithParent tree.nodes (some p) ↔
      ∀ i, ParentIn tree.nodes p i → tree.Uncut (some p) (p + 1) i := by
  constructor
  · intro h i hi
    have hm : i ∈ tree.childrenFrom (p + 1) (some p) := by
      rw [h, mem_idsWithParent]
      exact hasParent_some_iff.2 hi
    exact (of_mem_childrenFrom (n := tree.nodes.size) (by omega) hm).2
  · intro h
    rw [idsWithParent_eq hp hlt]
    exact childrenFrom_eq_filter (by omega) fun i hi => h i (hasParent_some_iff.1 hi)

end ParseTree

/-! ## Pre-order -/

section

variable {nodes : Array (Node L)}

theorem le_of_reaches (hp : ∀ p i, ParentIn nodes p i → p < i) {p i : Nat}
    (h : ReflTransGen (ParentIn nodes) p i) : p ≤ i := by
  induction h with
  | refl => exact Nat.le_refl p
  | tail _ hq ih => exact Nat.le_trans ih (Nat.le_of_lt (hp _ _ hq))

/-- In pre-order, what lies between a node and something inside it is inside it. -/
theorem InPreorder.reaches (h : InPreorder nodes) {p i j : Nat}
    (hr : ReflTransGen (ParentIn nodes) p i) (hpj : p ≤ j) (hji : j ≤ i) :
    ReflTransGen (ParentIn nodes) p j := by
  induction i with
  | zero =>
    obtain rfl : j = 0 := by omega
    exact hr
  | succ i ih =>
    by_cases hj : j = i + 1
    · rw [hj]
      exact hr
    · rcases hr.cases_tail with heq | ⟨q, hq, hqi⟩
      · omega
      · exact ih (hq.trans (h q i hqi)) (by omega)

/-- Where no parent on the way comes before a node, all on the way is inside that node. -/
theorem reaches_of_parents (hp : ∀ p i, ParentIn nodes p i → p < i) {p i : Nat}
    (h : ∀ j, p < j → j ≤ i → ∃ q, p ≤ q ∧ ParentIn nodes q j) {j : Nat} (hpj : p ≤ j)
    (hji : j ≤ i) : ReflTransGen (ParentIn nodes) p j := by
  induction j using Nat.strongRecOn with
  | _ j ih =>
    by_cases hj : p = j
    · rw [hj]
    · obtain ⟨q, hpq, hq⟩ := h j (by omega) hji
      have hlt := hp q j hq
      exact (ih q hlt hpq (by omega)).tail hq

end

open ParseTree in
/-- The nodes are in pre-order exactly if no list of children ends too early. -/
theorem inPreorder_iff {tree : ParseTree L} (hp : ∀ p i, ParentIn tree.nodes p i → p < i) :
    InPreorder tree.nodes ↔
      ∀ p i, ParentIn tree.nodes p i → tree.Uncut (some p) (p + 1) i := by
  constructor
  · intro h p i hpi j hj hji node hn
    obtain ⟨k, rfl⟩ : ∃ k, i = k + 1 := ⟨i - 1, by omega⟩
    have hr := h.reaches (h p k hpi) (j := j) (by omega) (by omega)
    rcases hr.cases_tail with heq | ⟨q, hq, node', hn', hnq⟩
    · omega
    · obtain rfl := Option.some.inj (hn.symm.trans hn')
      exact parentLE_some_iff.2 ⟨q, hnq, le_of_reaches hp hq⟩
  · intro h p i hpi
    have hlt := hp p (i + 1) hpi
    refine reaches_of_parents hp (i := i) (fun j hj hji => ?_) (by omega) (Nat.le_refl _)
    obtain ⟨node, hi, -⟩ := id hpi
    have hsize : j < tree.nodes.size := by
      have := (Array.getElem?_eq_some_iff.1 hi).1
      omega
    have hn : tree.get? j = some tree.nodes[j] := Array.getElem?_eq_getElem hsize
    obtain ⟨q, hq, hpq⟩ := parentLE_some_iff.1 (h p (i + 1) hpi j hj (by omega) _ hn)
    exact ⟨q, hpq, tree.nodes[j], hn, hq⟩

/-- The enumeration of the roots, or of the children of a node. -/
def ParseTree.siblings (tree : ParseTree L) : Option Nat → Except Fault (List Nat)
  | none => .ok tree.roots
  | some id => tree.children id

open ParseTree in
theorem hasParent_of_siblings {tree : ParseTree L} {parent : Option Nat} {ids : List Nat}
    (h : tree.siblings parent = .ok ids) {i : Nat} (hi : i ∈ ids) :
    hasParent tree.nodes parent i = true := by
  cases parent with
  | none =>
    cases h
    exact (of_mem_childrenFrom (Nat.le_of_eq (Nat.zero_add _).symm) hi).1
  | some p =>
    have h : tree.children p = .ok ids := h
    unfold children at h
    split at h
    · cases h
      exact (of_mem_childrenFrom (n := tree.nodes.size) (by omega) hi).1
    · cases h

/-- The children of every node are all nodes that have it as their parent, exactly in pre-order. -/
theorem children_all_iff_inPreorder {tree : ParseTree L}
    (hp : ∀ p i, ParentIn tree.nodes p i → p < i) (hs : tree.nodes.size ≤ ParseTree.maxIndex) :
    (∀ id < tree.nodes.size, tree.children id = .ok (idsWithParent tree.nodes (some id))) ↔
      InPreorder tree.nodes := by
  have hok (id : Nat) (hid : id < tree.nodes.size) :
      tree.children id = .ok (tree.childrenFrom (id + 1) (some id)) :=
    if_pos (Nat.lt_of_lt_of_le hid hs)
  rw [inPreorder_iff hp]
  constructor
  · intro h p i hpi
    obtain ⟨node, hn, -⟩ := id hpi
    have hi := (Array.getElem?_eq_some_iff.1 hn).1
    have hps : p < tree.nodes.size := Nat.lt_trans (hp p i hpi) hi
    have hc := (hok p hps).symm.trans (h p hps)
    exact (ParseTree.childrenFrom_eq_idsWithParent_iff hp hps).1 (Except.ok.inj hc) i hpi
  · intro h id hid
    rw [hok id hid, (ParseTree.childrenFrom_eq_idsWithParent_iff hp hid).2 (h id)]

/-- Where all children are listed, each node is listed once, next to its siblings. -/
theorem listed_once {tree : ParseTree L} (hp : ∀ p i, ParentIn tree.nodes p i → p < i)
    (h : ∀ id < tree.nodes.size, tree.children id = .ok (idsWithParent tree.nodes (some id)))
    {i : Nat} (hi : i < tree.nodes.size) :
    ∃! parent, ∃ ids, tree.siblings parent = .ok ids ∧ i ∈ ids := by
  have hn : tree.nodes[i]? = some tree.nodes[i] := Array.getElem?_eq_getElem hi
  have hids : tree.siblings tree.nodes[i].parent =
      .ok (idsWithParent tree.nodes tree.nodes[i].parent) := by
    cases hq : tree.nodes[i].parent with
    | none => exact congrArg Except.ok tree.roots_eq
    | some p => exact h p (Nat.lt_trans (hp p i ⟨_, hn, hq⟩) hi)
  have hmem : i ∈ idsWithParent tree.nodes tree.nodes[i].parent :=
    mem_idsWithParent.2 (hasParent_iff.2 ⟨_, hn, rfl⟩)
  refine ⟨tree.nodes[i].parent, ⟨_, hids, hmem⟩, ?_⟩
  rintro other ⟨ids, ho, hm⟩
  obtain ⟨node, hn', rfl⟩ := hasParent_iff.1 (hasParent_of_siblings ho hm)
  rw [Option.some.inj (hn.symm.trans hn')]

/-- Whatever nodes with parents before children there are, if there is an index for each: they make
a tree, its roots are all nodes without a parent, and the children of each node are all nodes that
have it as their parent exactly if the nodes are in pre-order. Then each node is listed once, as a
root or as a child of one node. -/
theorem children_exact_iff_inPreorder (nodes : Array (Node L))
    (hp : ∀ (i : Nat) (node : Node L), nodes[i]? = some node → ∀ p, node.parent = some p → p < i)
    (hs : nodes.size ≤ ParseTree.maxIndex) :
    ∃ tree, ParseTree.ofNodes nodes = .ok tree ∧ tree.nodes = nodes ∧
      tree.roots = idsWithParent nodes none ∧
      ((∀ id < nodes.size, tree.children id = .ok (idsWithParent nodes (some id))) ↔
        InPreorder nodes) ∧
      (InPreorder nodes → ∀ i < nodes.size,
        ∃! parent, ∃ ids, tree.siblings parent = .ok ids ∧ i ∈ ids) := by
  have hlt : ∀ p i, ParentIn nodes p i → p < i := fun p i ⟨node, hn, hq⟩ => hp i node hn p hq
  have hfirst := parentsFirst_of_lt hp
  let tree : ParseTree L := ⟨nodes, hfirst⟩
  have hall : (∀ id < tree.nodes.size,
      tree.children id = .ok (idsWithParent tree.nodes (some id))) ↔ InPreorder tree.nodes :=
    children_all_iff_inPreorder hlt hs
  have honce (h : InPreorder nodes) (i : Nat) (hi : i < nodes.size) :
      ∃! parent, ∃ ids, tree.siblings parent = .ok ids ∧ i ∈ ids :=
    listed_once hlt (hall.2 h) hi
  exact ⟨tree, dif_pos hfirst, rfl, tree.roots_eq, hall, honce⟩

/-- A node whose parent was left before: the second child of `a` comes after `c`. The list is taken
for a tree, `a` and `c` are its roots, and of the children of `a` only the first is listed. -/
theorem children_exact_iff_inPreorder_late_child :
    let nodes : Array (Node Char) :=
      #[⟨'a', 0, 4, none⟩, ⟨'b', 0, 2, some 0⟩, ⟨'c', 4, 5, none⟩, ⟨'d', 2, 4, some 0⟩]
    (∀ (i : Nat) (node : Node Char), nodes[i]? = some node → ∀ p, node.parent = some p → p < i) ∧
    nodes.size ≤ ParseTree.maxIndex ∧
    ∃ tree, ParseTree.ofNodes nodes = .ok tree ∧ tree.roots = [0, 2] ∧
      tree.children 0 = .ok [1] ∧ idsWithParent nodes (some 0) = [1, 3] ∧
      ¬ InPreorder nodes := by
  intro nodes
  have hp : ∀ (i : Nat) (node : Node Char), nodes[i]? = some node →
      ∀ p, node.parent = some p → p < i := by
    have hall : ∀ i : Fin nodes.size, ∀ p ∈ nodes[i].parent, p < i := by decide
    intro i node hn p hq
    obtain ⟨hi, rfl⟩ := Array.getElem?_eq_some_iff.1 hn
    exact hall ⟨i, hi⟩ p hq
  have hs : nodes.size ≤ ParseTree.maxIndex := by decide
  obtain ⟨tree, ht, hn, hroots, hchildren, -⟩ := children_exact_iff_inPreorder nodes hp hs
  have hfirst : tree.children 0 = .ok [1] := by
    have hc : tree.childrenFrom 1 (some 0) = [1] := by
      unfold ParseTree.childrenFrom
      rw [hn]
      rfl
    exact (if_pos (by decide)).trans (congrArg Except.ok hc)
  refine ⟨hp, hs, tree, ht, hroots, hfirst, rfl, fun h => ?_⟩
  have hall := hchildren.2 h 0 (by decide)
  rw [hfirst] at hall
  cases hall

end Peg
