import Peg.Proofs.Growth

/-
  Forests: what a match records, as labelled spans inside each other. `forestNodes` lays a forest
  out as nodes, parents first. A `ForestTree` has room for every node and holds the forests recorded
  in it: an array holds their nodes after those it held before (`Arena.Lays`), a counter nothing.
-/

namespace Peg

/-- A labelled span, with the spans recorded inside it in order. -/
inductive Span (L : Type)
  | mk (label : L) (start stop : Nat) (inside : List (Span L))

abbrev Forest (L : Type) : Type := List (Span L)

section

variable {L : Type}

mutual

/-- The nodes of a span, itself first, if the first is stored at an index. -/
def Span.nodes (parent : Option Nat) (index : Nat) : Span L → List (Node L)
  | .mk label start stop inside =>
    ⟨label, start, stop, parent⟩ :: forestNodes (some index) (index + 1) inside

/-- The nodes of a forest in pre-order, if its roots have a parent and its first is stored at an
index. -/
def forestNodes (parent : Option Nat) (index : Nat) : List (Span L) → List (Node L)
  | [] => []
  | span :: spans =>
    let nodes := span.nodes parent index
    nodes ++ forestNodes parent (index + nodes.length) spans

end

theorem forestNodes_cons (parent : Option Nat) (index : Nat) (label : L)
    (start stop : Nat) (inside rest : Forest L) :
    forestNodes parent index (.mk label start stop inside :: rest) =
      ⟨label, start, stop, parent⟩ :: (forestNodes (some index) (index + 1) inside ++
        forestNodes parent (index + 1 + (forestNodes (some index) (index + 1) inside).length)
          rest) := by
  rw [forestNodes, Span.nodes, List.length_cons, List.cons_append]
  congr 3
  omega

theorem forestNodes_append (parent : Option Nat) (index : Nat) (xs ys : Forest L) :
    forestNodes parent index (xs ++ ys) = forestNodes parent index xs ++
      forestNodes parent (index + (forestNodes parent index xs).length) ys := by
  induction xs generalizing index with
  | nil => rfl
  | cons x xs ih =>
    simp only [List.cons_append, forestNodes, ih, List.append_assoc, List.length_append,
      Nat.add_assoc]

example : forestNodes (some 2) 3 [.mk 'a' 0 3 [.mk 'b' 0 1 []], .mk 'c' 3 4 []] =
    [⟨'a', 0, 3, some 2⟩, ⟨'b', 0, 1, some 3⟩, ⟨'c', 3, 4, some 2⟩] := rfl

theorem forestNodes_singleton (parent : Option Nat) (index : Nat) (label : L) (start stop : Nat)
    (inside : Forest L) : forestNodes parent index [.mk label start stop inside] =
      ⟨label, start, stop, parent⟩ :: forestNodes (some index) (index + 1) inside := by
  rw [forestNodes_cons, forestNodes, List.append_nil]

end

/-! ## Trees that hold forests -/

/-- A node tree with room for every node, in which forests are recorded. -/
class ForestTree (T : Type) {L M : outParam Type} [NodeTree T L M] [LawfulTree T] where
  /-- The second is the first with the forest in its innermost open node. -/
  Records : T → Forest L → T → Prop
  room : ∀ (t : T) (label : L) (start : Nat), ∃ u, NodeTree.openNode? t label start = some u
  records_nil : ∀ {t u}, LawfulTree.Grown t u → LawfulTree.Grown u t → Records t [] u
  records_append : ∀ {t u v : T} {xs ys : Forest L}, Records t xs u → Records u ys v →
    Records t (xs ++ ys) v
  records_span : ∀ {t u v w : T} {label : L} {start stop : Nat} {forest : Forest L},
    NodeTree.openNode? t label start = some u → Records u forest v →
      NodeTree.complete v label stop = .ok w → Records t [.mk label start stop forest] w

section

variable {L : Type}

namespace Arena

/-- The nodes of the forest stand after those of the first, and the same node is innermost open. -/
structure Lays (before : ArrayTree L) (forest : Forest L) (after : ArrayTree L) : Prop where
  nodes_eq : after.toList = before.toList ++ forestNodes before.innermost before.size forest
  innermost_eq : after.innermost = before.innermost

/-- To look up each index of a list in order gives the list. -/
theorem filterMap_getElem? (nodes : List (Node L)) :
    (List.range nodes.length).filterMap (fun i => nodes[i]?) = nodes := by
  induction nodes with
  | nil => rfl
  | cons node nodes ih =>
    rw [List.length_cons, List.range_succ_eq_map, List.filterMap_cons, List.filterMap_map]
    exact congrArg (node :: ·) ih

theorem toList_eq (arena : ArrayTree L) : arena.toList = arena.slots.toList := by
  show (List.range arena.slots.size).filterMap (fun i => arena.slots[i]?) = arena.slots.toList
  rw [← Array.length_toList]
  simp only [← Array.getElem?_toList]
  exact filterMap_getElem? _

theorem Grown.antisymm {a b : ArrayTree L} (hab : a.Grown b) (hba : b.Grown a) : b = a := by
  have hl := hba.toList_eq hab
  rw [Arena.toList_eq, Arena.toList_eq, Array.toList_inj] at hl
  obtain ⟨slots, innermost⟩ := a
  obtain ⟨slots', innermost'⟩ := b
  exact (Arena.mk.injEq ..).mpr ⟨hl, hab.innermost_eq⟩

theorem length_toList (arena : ArrayTree L) : arena.toList.length = arena.size := by
  rw [toList_eq]
  rfl

theorem modify_append_length (xs ys : List (Node L)) (x : Node L) (f : Node L → Node L) :
    (xs ++ x :: ys).modify xs.length f = xs ++ f x :: ys := by
  induction xs with
  | nil => rfl
  | cons _ xs ih => exact congrArg (_ :: ·) ih

namespace Lays

theorem nil {a b : ArrayTree L} (hab : a.Grown b) (hba : b.Grown a) : a.Lays [] b := by
  refine ⟨?_, hab.innermost_eq⟩
  rw [forestNodes, List.append_nil]
  exact hba.toList_eq hab

theorem append {a b c : ArrayTree L} {xs ys : Forest L} (hx : a.Lays xs b) (hy : b.Lays ys c) :
    a.Lays (xs ++ ys) c := by
  have hs : b.size = a.size + (forestNodes a.innermost a.size xs).length := by
    rw [← length_toList, hx.nodes_eq, List.length_append, length_toList]
  refine ⟨?_, hy.innermost_eq.trans hx.innermost_eq⟩
  rw [hy.nodes_eq, hx.nodes_eq, hx.innermost_eq, hs, forestNodes_append, List.append_assoc]

variable [DecidableEq L]

theorem span {a b c d : ArrayTree L} {label : L} {start stop : Nat} {forest : Forest L}
    (ho : a.openNode? label start = some b) (h : b.Lays forest c)
    (hc : c.complete label stop = .ok d) : a.Lays [.mk label start stop forest] d := by
  obtain ⟨slots, hp, rfl⟩ := Option.map_eq_some_iff.1 ho
  cases hp
  have hn : c.slots.toList = a.slots.toList ++ ⟨label, start, start, a.innermost⟩ ::
      forestNodes (some a.slots.size) (a.slots.size + 1) forest := by
    have hs : size (⟨a.slots.push ⟨label, start, start, a.innermost⟩, some a.size⟩ : ArrayTree L) =
        a.slots.size + 1 := Array.size_push _
    have h := h.nodes_eq
    rw [toList_eq, toList_eq, hs, Array.toList_push, List.append_assoc] at h
    exact h
  have hi : c.innermost = some a.slots.size := h.innermost_eq
  have hg : c.get? a.slots.size = some ⟨label, start, start, a.innermost⟩ := by
    show c.slots[a.slots.size]? = _
    rw [← Array.getElem?_toList, hn, List.getElem?_append_right (by simp)]
    simp
  simp only [complete, hi, hg, if_true, Except.ok.injEq] at hc
  subst hc
  refine ⟨?_, rfl⟩
  rw [toList_eq, toList_eq, forestNodes_singleton]
  show (c.slots.modify a.slots.size _).toList = _
  rw [Array.toList_modify, hn, ← Array.length_toList]
  exact modify_append_length _ _ _ _

end Lays

end Arena

variable [DecidableEq L]

instance : ForestTree (ArrayTree L) where
  Records := Arena.Lays
  room _ _ _ := ⟨_, rfl⟩
  records_nil := Arena.Lays.nil
  records_append := Arena.Lays.append
  records_span := Arena.Lays.span

instance : ForestTree (TrailTree L) where
  Records t forest u := t.arena.Lays forest u.arena
  room _ _ _ := ⟨_, rfl⟩
  records_nil := Arena.Lays.nil
  records_append := Arena.Lays.append
  records_span {t u v w label start stop forest} ho h hc := by
    obtain ⟨opened, ha, rfl⟩ := Option.map_eq_some_iff.1 ho
    obtain ⟨closed, hv, rfl⟩ := of_map_eq_ok hc
    exact Arena.Lays.span ha h hv

/-- What is recorded is not kept. -/
instance : ForestTree (DepthTree L) where
  Records t _ u := u.depth = t.depth
  room _ _ _ := ⟨_, rfl⟩
  records_nil h _ := h
  records_append ht hu := hu.trans ht
  records_span {t u v w label start stop forest} ho h hc := by
    cases ho
    have hc : DepthTree.complete v = .ok w := hc
    unfold DepthTree.complete at hc
    rw [h] at hc
    cases hc
    rfl

end

end Peg
