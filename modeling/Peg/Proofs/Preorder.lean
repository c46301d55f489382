import Mathlib.Logic.Relation
import Peg.ParseTree

/-
  Pre-order: nodes stored so that what is inside a node follows it. `Laid` says so of a stretch of
  siblings, each with all that is inside it, and of the offsets that they lie between. From it come
  the place of each node among the others, and that a walk through roots and children goes through
  the nodes in the order in which they are stored (`Laid.walks`).
-/

namespace Peg

variable {L : Type}

theorem parentsFirst_of_lt {nodes : Array (Node L)}
    (h : ∀ (i : Nat) (node : Node L), nodes[i]? = some node → ∀ p, node.parent = some p → p < i) :
    parentsFirst nodes = true := by
  unfold parentsFirst
  rw [List.all_eq_true]
  rintro ⟨node, i⟩ hm
  have hn : nodes[i]? = some node := by
    rw [← Array.getElem?_toList]
    exact List.mem_zipIdx_iff_getElem?.1 hm
  dsimp only
  cases hp : node.parent with
  | none => rfl
  | some p => exact decide_eq_true (h i node hn p hp)

/-- A tree without open nodes can be finished if parents come first in it. -/
theorem TrailTree.finish_eq_ok {tree : TrailTree L} (ho : tree.arena.innermost = none)
    (h : Peg.parentsFirst tree.arena.slots = true) : tree.finish = .ok ⟨tree.arena.slots, h⟩ := by
  have hd : tree.arena.openDepth? = some 0 := by
    unfold Arena.openDepth? Arena.openNodes?
    rw [ho]
    rfl
  unfold TrailTree.finish ParseTree.ofNodes
  rw [if_pos hd, dif_pos h]

/-- From one index up to another stand siblings with the given parent, each followed by all that is
inside it, in order between two offsets. They start and end at offsets with the property. -/
inductive Laid (ok : Nat → Prop) (nodes : Array (Node L)) :
    Option Nat → Nat → Nat → Nat → Nat → Prop
  | nil {parent lo hi i} (h : lo ≤ hi) : Laid ok nodes parent lo hi i i
  | cons {parent label lo start stop hi i j k}
      (hn : nodes[i]? = some ⟨label, start, stop, parent⟩) (hlo : lo ≤ start)
      (hs : ok start) (he : ok stop) (inside : Laid ok nodes (some i) start stop (i + 1) j)
      (rest : Laid ok nodes parent stop hi j k) : Laid ok nodes parent lo hi i k

/-- The node at the second index names the first as its parent. -/
def ParentIn (nodes : Array (Node L)) (p i : Nat) : Prop :=
  ∃ node, nodes[i]? = some node ∧ node.parent = some p

/-- How a node lies in a stretch: between the offsets, and with the parent of the stretch, or inside
a node of the stretch that comes before it. -/
structure LiesIn (ok : Nat → Prop) (nodes : Array (Node L)) (parent : Option Nat)
    (lo hi first i : Nat) (node : Node L) : Prop where
  lo_le : lo ≤ node.start
  start_le : node.start ≤ node.stop
  le_hi : node.stop ≤ hi
  ok_start : ok node.start
  ok_stop : ok node.stop
  parent_cases : node.parent = parent ∨ ∃ p outer, node.parent = some p ∧ first ≤ p ∧ p < i ∧
    nodes[p]? = some outer ∧ outer.start ≤ node.start ∧ node.stop ≤ outer.stop

namespace Laid

variable {ok : Nat → Prop} {nodes : Array (Node L)} {parent : Option Nat} {lo hi first last : Nat}

theorem le (h : Laid ok nodes parent lo hi first last) : lo ≤ hi ∧ first ≤ last := by
  induction h with
  | nil h => exact ⟨h, Nat.le_refl _⟩
  | cons _ hlo _ _ _ _ ihi ihr =>
    obtain ⟨hs, hj⟩ := ihi
    obtain ⟨he, hk⟩ := ihr
    omega

/-- The first node of a stretch is one of the siblings. -/
theorem parent_first (h : Laid ok nodes parent lo hi first last) (hlt : first < last)
    {node : Node L} (hn : nodes[first]? = some node) : node.parent = parent := by
  cases h with
  | nil => omega
  | cons hm =>
    rw [hm] at hn
    exact congrArg Node.parent (Option.some.inj hn).symm

theorem liesIn (h : Laid ok nodes parent lo hi first last) {i : Nat} (hf : first ≤ i)
    (hl : i < last) : ∃ node, nodes[i]? = some node ∧
      LiesIn ok nodes parent lo hi first i node := by
  induction h with
  | nil => omega
  | @cons parent label lo start stop hi first j last hn hlo hs he inside rest ihi ihr =>
    obtain ⟨hse, hj⟩ := inside.le
    obtain ⟨hh, hk⟩ := rest.le
    by_cases hi : i = first
    · subst hi
      exact ⟨_, hn, hlo, hse, hh, hs, he, Or.inl rfl⟩
    by_cases hij : i < j
    · obtain ⟨node, hnode, hd⟩ := ihi (by omega) hij
      refine ⟨node, hnode, Nat.le_trans hlo hd.lo_le, hd.start_le, Nat.le_trans hd.le_hi hh,
        hd.ok_start, hd.ok_stop, Or.inr ?_⟩
      rcases hd.parent_cases with hp | ⟨p, outer, hp, hfp, hpi, ho, hos, hoe⟩
      · exact ⟨first, _, hp, Nat.le_refl _, by omega, hn, hd.lo_le, hd.le_hi⟩
      · exact ⟨p, outer, hp, by omega, hpi, ho, hos, hoe⟩
    · obtain ⟨node, hnode, hd⟩ := ihr (by omega) hl
      refine ⟨node, hnode, Nat.le_trans (Nat.le_trans hlo hse) hd.lo_le, hd.start_le, hd.le_hi,
        hd.ok_start, hd.ok_stop, ?_⟩
      rcases hd.parent_cases with hp | ⟨p, outer, hp, hfp, hpi, ho, hos, hoe⟩
      · exact Or.inl hp
      · exact Or.inr ⟨p, outer, hp, by omega, hpi, ho, hos, hoe⟩

/-- Of two siblings, the later starts where the earlier has ended. -/
theorem stop_le_start (h : Laid ok nodes parent lo hi first last)
    (hp : ∀ p, parent = some p → p < first) {i k : Nat} (hf : first ≤ i) (hik : i < k)
    (hl : k < last) {a b : Node L} (ha : nodes[i]? = some a) (hb : nodes[k]? = some b)
    (hab : a.parent = b.parent) : a.stop ≤ b.start := by
  induction h with
  | nil => omega
  | @cons parent label lo start stop hi first j last hn hlo hs he inside rest ihi ihr =>
    have hj := inside.le.2
    by_cases hkj : k < j
    · by_cases hi : i = first
      · -- The later one is inside the earlier one, so they are no siblings.
        subst hi
        rw [hn] at ha
        obtain rfl := Option.some.inj ha
        obtain ⟨b', hb', hd⟩ := inside.liesIn hik hkj
        rw [hb'] at hb
        obtain rfl := Option.some.inj hb
        rcases hd.parent_cases with hbp | ⟨p, -, hbp, hfp, -⟩
        · have := hp i (hab.trans hbp)
          omega
        · have := hp p (hab.trans hbp)
          omega
      · exact ihi (fun p hp => by cases hp; omega) (by omega) hkj
    · obtain ⟨b', hb', hd⟩ := rest.liesIn (i := k) (by omega) hl
      rw [hb'] at hb
      obtain rfl := Option.some.inj hb
      by_cases hi : i < j
      · -- All up to the next sibling ends where the first does or before.
        have hstop : a.stop ≤ stop := by
          by_cases hif : i = first
          · subst hif
            rw [hn] at ha
            obtain rfl := Option.some.inj ha
            exact Nat.le_refl _
          · obtain ⟨a', ha', hd'⟩ := inside.liesIn (i := i) (by omega) hi
            rw [ha'] at ha
            obtain rfl := Option.some.inj ha
            exact hd'.le_hi
        exact Nat.le_trans hstop hd.lo_le
      · exact ihr (fun p hq => Nat.lt_of_lt_of_le (hp p hq) (by omega)) (by omega) hl

open Relation

theorem ancestor (h : Laid ok nodes parent lo hi first last) {q i : Nat} (hq : parent = some q)
    (hf : first ≤ i) (hl : i < last) : TransGen (ParentIn nodes) q i := by
  induction h generalizing q with
  | nil => omega
  | @cons parent label lo start stop hi first j last hn hlo hs he inside rest ihi ihr =>
    have hfirst : ParentIn nodes q first := ⟨_, hn, hq⟩
    by_cases hi : i = first
    · subst hi
      exact .single hfirst
    by_cases hij : i < j
    · exact .head hfirst (ihi rfl (by omega) hij)
    · exact ihr hq (by omega) hl

/-- The parent of a node is the node before it, or an ancestor of that one. -/
theorem parent_before (h : Laid ok nodes parent lo hi first last) {p i : Nat} (hf : first < i)
    (hl : i < last) (hp : ParentIn nodes p i) : ReflTransGen (ParentIn nodes) p (i - 1) := by
  induction h with
  | nil => omega
  | @cons parent label lo start stop hi first j last hn hlo hs he inside rest ihi ihr =>
    obtain ⟨node, hnode, hp'⟩ := id hp
    rcases Nat.lt_trichotomy i j with hij | rfl | hij
    · by_cases hi : i = first + 1
      · -- The first node inside comes right after the node that it is inside.
        subst hi
        have hpf := inside.parent_first hij hnode
        obtain rfl : p = first := by simpa [hp'] using hpf
        exact .refl
      · exact ihi (by omega) hij
    · -- All since the last sibling is inside that one.
      have hpf := rest.parent_first hl hnode
      have hs : Laid ok nodes parent lo stop first i :=
        .cons hn hlo hs he inside (.nil (Nat.le_refl _))
      exact (hs.ancestor (hpf.symm.trans hp') (by omega) (by omega)).to_reflTransGen
    · exact ihr hij hl

end Laid

/-! ## Walking a tree -/

namespace ParseTree

variable {tree : ParseTree L} {parent : Option Nat}

theorem childrenFrom_of_none {i : Nat} (h : tree.get? i = none) :
    tree.childrenFrom i parent = [] := by
  have hi : tree.nodes.size ≤ i := Array.getElem?_eq_none_iff.1 h
  unfold childrenFrom
  rw [List.drop_eq_nil_of_le (by simpa using hi)]
  rfl

/-- From a node on: nothing if its parent comes before the given one, and else the node itself if it
has the given parent, and then what comes from the next node on. -/
theorem childrenFrom_of_some {i : Nat} {node : Node L} (h : tree.get? i = some node) :
    tree.childrenFrom i parent =
      if parentLE parent node.parent then
        if node.parent = parent then i :: tree.childrenFrom (i + 1) parent
        else tree.childrenFrom (i + 1) parent
      else [] := by
  obtain ⟨hi, hn⟩ := Array.getElem?_eq_some_iff.1 h
  have hd : tree.nodes.toList.zipIdx.drop i =
      (node, i) :: tree.nodes.toList.zipIdx.drop (i + 1) := by
    rw [List.drop_eq_getElem_cons (by simpa using hi)]
    simp [hn]
  unfold childrenFrom
  simp only [hd, List.takeWhile_cons]
  by_cases hle : parentLE parent node.parent = true
  · rw [if_pos hle, if_pos hle, List.filter_cons]
    by_cases hp : node.parent = parent
    · rw [if_pos (decide_eq_true hp), if_pos hp, List.map_cons]
    · rw [if_neg fun h => hp (of_decide_eq_true h), if_neg hp]
  · rw [if_neg hle, if_neg hle]
    rfl

/-- What is inside earlier siblings is passed over. -/
theorem childrenFrom_skip {i j : Nat} (hij : i ≤ j)
    (h : ∀ k, i ≤ k → k < j → ∃ node, tree.get? k = some node ∧
      parentLE parent node.parent = true ∧ node.parent ≠ parent) :
    tree.childrenFrom i parent = tree.childrenFrom j parent := by
  obtain ⟨n, rfl⟩ := Nat.exists_eq_add_of_le hij
  clear hij
  induction n with
  | zero => rfl
  | succ n ih =>
    obtain ⟨node, hn, hle, hne⟩ := h (i + n) (by omega) (by omega)
    rw [ih fun k hk hkj => h k hk (by omega), childrenFrom_of_some hn, if_pos hle, if_neg hne]
    rfl

/-- The parent of a stretch comes before what is inside the stretch. -/
theorem parentLE_inside {i q : Nat} (hp : ∀ p, parent = some p → p < i) (hq : i ≤ q) :
    parentLE parent (some q) = true ∧ some q ≠ parent := by
  cases parent with
  | none => exact ⟨rfl, nofun⟩
  | some p =>
    have := hp p rfl
    refine ⟨decide_eq_true (by omega), fun h => ?_⟩
    have := Option.some.inj h
    omega

theorem parentLE_self (parent : Option Nat) : parentLE parent parent = true := by
  cases parent with
  | none => rfl
  | some p => exact decide_eq_true (Nat.le_refl p)

/-- The parent of a stretch does not come after anything inside the stretch. -/
theorem not_parentLE_outside {i : Nat} (hp : ∀ p, parent = some p → p < i) :
    parentLE (some i) parent = false := by
  cases parent with
  | none => rfl
  | some p =>
    have := hp p rfl
    exact decide_eq_false (by omega)

theorem not_parentLE_of_outside {i : Nat} (hp : ∀ p, parent = some p → p < i)
    {other : Option Nat} (h : parentLE parent other = false) : parentLE (some i) other = false := by
  cases parent with
  | none => cases h
  | some p =>
    cases other with
    | none => rfl
    | some q =>
      have := hp p rfl
      have : ¬ p ≤ q := of_decide_eq_false h
      exact decide_eq_false (by omega)

/-- A walk through the nodes of the given ids, each followed by a walk through its children, visits
these ids. -/
inductive Walks (tree : ParseTree L) : List Nat → List Nat → Prop
  | nil : Walks tree [] []
  | cons {id ids children inside rest} (hc : tree.children id = .ok children)
      (hi : Walks tree children inside) (hr : Walks tree ids rest) :
      Walks tree (id :: ids) (id :: inside ++ rest)

theorem Walks.unique {ids visited visited' : List Nat} (h : tree.Walks ids visited)
    (h' : tree.Walks ids visited') : visited = visited' := by
  induction h generalizing visited' with
  | nil =>
    cases h'
    rfl
  | cons hc _ _ ihi ihr =>
    cases h' with
    | cons hc' hi' hr' =>
      obtain rfl := Except.ok.inj (hc.symm.trans hc')
      rw [ihi hi', ihr hr']

end ParseTree

namespace ParseTree

/-- A node with the given parent, and then what comes after all that is inside it. -/
theorem childrenFrom_sibling {ok : Nat → Prop} {tree : ParseTree L} {parent : Option Nat}
    {label : L} {start stop lo hi first j : Nat}
    (hn : tree.get? first = some ⟨label, start, stop, parent⟩)
    (hp : ∀ p, parent = some p → p < first)
    (inside : Laid ok tree.nodes (some first) lo hi (first + 1) j) :
    tree.childrenFrom first parent = first :: tree.childrenFrom j parent := by
  rw [childrenFrom_of_some hn, if_pos (parentLE_self parent), if_pos rfl]
  refine congrArg (first :: ·) (childrenFrom_skip inside.le.2 fun k hfk hkj => ?_)
  obtain ⟨node, hnode, hd⟩ := inside.liesIn hfk hkj
  obtain ⟨q, hq, hle⟩ : ∃ q, node.parent = some q ∧ first ≤ q := by
    rcases hd.parent_cases with hq | ⟨q, -, hq, hfq, -⟩
    · exact ⟨first, hq, Nat.le_refl _⟩
    · exact ⟨q, hq, by omega⟩
  refine ⟨node, hnode, ?_⟩
  rw [hq]
  exact parentLE_inside hp hle

end ParseTree

open ParseTree in
/-- A walk through the siblings of a stretch visits all of it in order. -/
theorem Laid.walks {ok : Nat → Prop} {tree : ParseTree L} {parent : Option Nat}
    {lo hi first last : Nat} (h : Laid ok tree.nodes parent lo hi first last)
    (hp : ∀ p, parent = some p → p < first) (hm : last ≤ maxIndex)
    (hend : ∀ node, tree.get? last = some node → parentLE parent node.parent = false) :
    tree.Walks (tree.childrenFrom first parent) (List.range' first (last - first)) := by
  induction h with
  | @nil parent lo hi i =>
    have hc : tree.childrenFrom i parent = [] := by
      cases hn : tree.get? i with
      | none => exact childrenFrom_of_none hn
      | some node =>
        rw [childrenFrom_of_some hn, hend node hn]
        rfl
    rw [hc, Nat.sub_self]
    exact .nil
  | @cons parent label lo start stop hi first j last hn hlo hs he inside rest ihi ihr =>
    have hj := inside.le.2
    have hk := rest.le.2
    have hnext := childrenFrom_sibling hn hp inside
    have hchildren : tree.children first = .ok (tree.childrenFrom (first + 1) (some first)) :=
      if_pos (by omega)
    have hends : ∀ node, tree.get? j = some node → parentLE (some first) node.parent = false := by
      intro node hnode
      by_cases hlt : j < last
      · rw [rest.parent_first hlt hnode]
        exact not_parentLE_outside hp
      · obtain rfl : j = last := by omega
        exact not_parentLE_of_outside hp (hend node hnode)
    have hwi := ihi (fun p hp => by cases hp; omega) (by omega) hends
    have hwr := ihr (fun p hq => Nat.lt_of_lt_of_le (hp p hq) (by omega)) hm hend
    rw [hnext]
    have hr : List.range' first (last - first) =
        first :: List.range' (first + 1) (j - (first + 1)) ++ List.range' j (last - j) := by
      have hlen : last - first = (j - (first + 1)) + (last - j) + 1 := by omega
      have hmid : first + 1 + (j - (first + 1)) = j := by omega
      rw [hlen, List.range'_succ, ← List.range'_append_1, hmid]
      rfl
    rw [hr]
    exact .cons hchildren hwi hwr

end Peg
