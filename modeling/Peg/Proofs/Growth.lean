import Mathlib.Data.List.Basic
import Peg.NodeTree

/-
  Growth: one state of a node tree has grown from another if it holds the same nodes and maybe more
  after them, and the same node is innermost open. `LawfulTree` is what a match relies on: a node
  opened and closed around growth is growth, and to abandon it or to go back to a mark undoes all
  growth. Arenas over lawful slots, arenas with a trail, and counters are lawful.
-/

namespace Peg

theorem of_map_eq_ok {ε α β : Type} {x : Except ε α} {f : α → β} {b : β} (h : x.map f = .ok b) :
    ∃ a, x = .ok a ∧ b = f a := by
  cases x with
  | error e => cases h
  | ok a => exact ⟨a, rfl, (Except.ok.inj h).symm⟩

/-- Slots hold what was pushed until it is modified or truncated. -/
class LawfulSlots (S : Type) {L : outParam Type} [Slots S L] : Prop where
  size_push : ∀ {s s' : S} {node : Node L}, Slots.push? s node = some s' →
    Slots.size s' = Slots.size s + 1
  get?_push : ∀ {s s' : S} {node : Node L}, Slots.push? s node = some s' →
    ∀ i, Slots.get? s' i = if i = Slots.size s then some node else Slots.get? s i
  size_truncate : ∀ (s : S) (n : Nat), Slots.size (Slots.truncate s n) = min n (Slots.size s)
  get?_truncate : ∀ (s : S) {n i : Nat}, i < n →
    Slots.get? (Slots.truncate s n) i = Slots.get? s i
  size_modify : ∀ (s : S) (i : Nat) (f : Node L → Node L),
    Slots.size (Slots.modify s i f) = Slots.size s
  get?_modify : ∀ (s : S) (i : Nat) (f : Node L → Node L) (j : Nat),
    Slots.get? (Slots.modify s i f) j = if i = j then (Slots.get? s j).map f else Slots.get? s j

section

variable {L : Type}

instance : LawfulSlots (Array (Node L)) where
  size_push h := by
    cases h
    exact Array.size_push _
  get?_push h i := by
    cases h
    exact Array.getElem?_push
  size_truncate s n := Array.size_shrink
  get?_truncate s n i hi := by
    show (s.shrink n)[i]? = s[i]?
    rw [← Array.getElem?_toList, Array.toList_shrink, List.getElem?_take_of_lt hi,
      Array.getElem?_toList]
  size_modify s i f := Array.size_modify
  get?_modify s i f j := Array.getElem?_modify

namespace SlotRow

theorem join_vacate (cells : Array (Option (Node L))) (first count i : Nat) :
    ((vacate cells first count)[i]?).join =
      if first ≤ i ∧ i < first + count then none else (cells[i]?).join := by
  induction count generalizing cells first with
  | zero => rw [vacate, if_neg (by omega)]
  | succ count ih =>
    rw [vacate, ih]
    by_cases hi : i = first
    · subst hi
      rw [if_neg (by omega), if_pos (by omega), Array.getElem?_setIfInBounds_self]
      split <;> rfl
    · have hr : first + 1 ≤ i ∧ i < first + 1 + count ↔ first ≤ i ∧ i < first + (count + 1) := by
        omega
      rw [Array.getElem?_setIfInBounds_ne (Ne.symm hi)]
      simp only [hr]

theorem size_vacate (cells : Array (Option (Node L))) (first count : Nat) :
    (vacate cells first count).size = cells.size := by
  induction count generalizing cells first with
  | zero => rfl
  | succ count ih => rw [vacate, ih, Array.size_setIfInBounds]

theorem push?_eq_some {row row' : SlotRow L} {node : Node L} (h : row.push? node = some row') :
    row.used < row.capacity ∧
      row' = ⟨row.cells.setIfInBounds row.used (some node), row.used + 1⟩ := by
  unfold push? at h
  split at h
  · rename_i hu
    exact ⟨hu, (Option.some.inj h).symm⟩
  · cases h

end SlotRow

instance : LawfulSlots (SlotRow L) where
  size_push h := by
    obtain ⟨-, rfl⟩ := SlotRow.push?_eq_some h
    rfl
  get?_push {row row' node} h i := by
    obtain ⟨hu, rfl⟩ := SlotRow.push?_eq_some h
    show ((row.cells.setIfInBounds row.used (some node))[i]?).join = _
    rw [Array.getElem?_setIfInBounds]
    by_cases hi : i = row.used
    · subst hi
      rw [if_pos rfl, if_pos (show row.used < row.cells.size from hu)]
      exact (if_pos rfl).symm
    · rw [if_neg (Ne.symm hi)]
      exact (if_neg hi).symm
  size_truncate row n := by
    show (row.truncate n).used = min n row.used
    unfold SlotRow.truncate
    split
    · show n = min n row.used
      omega
    · omega
  get?_truncate row n i hi := by
    show (row.truncate n).get? i = row.get? i
    unfold SlotRow.truncate
    split
    · show ((SlotRow.vacate row.cells n (row.used - n))[i]?).join = (row.cells[i]?).join
      rw [SlotRow.join_vacate, if_neg (by omega)]
    · rfl
  size_modify row i f := rfl
  get?_modify row i f j := by
    show ((row.cells.modify i (Option.map f))[j]?).join = _
    rw [Array.getElem?_modify]
    split
    · show ((row.cells[j]?).map (Option.map f)).join = ((row.cells[j]?).join).map f
      cases row.cells[j]? <;> rfl
    · rfl

end

/-! ## Arenas -/

namespace Arena

variable {S L : Type} [Slots S L]

theorem parent?_of_get? {arena : Arena S} {i : Nat} {node : Node L}
    (h : arena.get? i = some node) : arena.parent? i = node.parent := by
  unfold parent?
  rw [h]
  rfl

/-- The same nodes and maybe more after them, with the same node innermost open. -/
structure Grown (before after : Arena S) : Prop where
  size_le : before.size ≤ after.size
  innermost_eq : after.innermost = before.innermost
  get?_eq : ∀ i < before.size, after.get? i = before.get? i

namespace Grown

theorem refl (arena : Arena S) : arena.Grown arena :=
  ⟨Nat.le_refl _, rfl, fun _ _ => rfl⟩

theorem trans {a b c : Arena S} (hab : a.Grown b) (hbc : b.Grown c) : a.Grown c := by
  refine ⟨Nat.le_trans hab.size_le hbc.size_le, hbc.innermost_eq.trans hab.innermost_eq, ?_⟩
  intro i hi
  have hi' : i < b.size := Nat.lt_of_lt_of_le hi hab.size_le
  exact (hbc.get?_eq i hi').trans (hab.get?_eq i hi)

theorem mark_eq {a b : Arena S} (hab : a.Grown b) (hba : b.Grown a) : a.mark = b.mark := by
  have hs : a.size = b.size := Nat.le_antisymm hab.size_le hba.size_le
  unfold mark
  rw [hs, hab.innermost_eq]

/-- What was stored before is still listed, in the same order. -/
theorem toList_prefix {a b : Arena S} (h : a.Grown b) : a.toList <+: b.toList := by
  have hs : Slots.size b.slots =
      Slots.size a.slots + (Slots.size b.slots - Slots.size a.slots) := by
    have := h.size_le
    unfold size at this
    omega
  have hf : (List.range (Slots.size a.slots)).filterMap (Slots.get? a.slots) =
      (List.range (Slots.size a.slots)).filterMap (Slots.get? b.slots) :=
    List.filterMap_congr fun i hi => (h.get?_eq i (List.mem_range.1 hi)).symm
  unfold toList Slots.toList
  rw [hs, List.range_add, List.filterMap_append, hf]
  exact List.prefix_append _ _

theorem toList_eq {a b : Arena S} (hab : a.Grown b) (hba : b.Grown a) : a.toList = b.toList :=
  hab.toList_prefix.eq_of_length_le hba.toList_prefix.length_le

end Grown

variable [LawfulSlots S]

theorem size_rewind (arena : Arena S) (mark : Mark) :
    (arena.rewind mark).size = min mark.size arena.size :=
  LawfulSlots.size_truncate arena.slots mark.size

theorem get?_rewind (arena : Arena S) {mark : Mark} {i : Nat} (hi : i < mark.size) :
    (arena.rewind mark).get? i = arena.get? i :=
  LawfulSlots.get?_truncate arena.slots hi

theorem parent?_rewind (arena : Arena S) {mark : Mark} {i : Nat} (hi : i < mark.size) :
    (arena.rewind mark).parent? i = arena.parent? i := by
  unfold parent?
  rw [get?_rewind arena hi]

theorem rewind_mark {a b : Arena S} (h : a.Grown b) :
    a.Grown (b.rewind a.mark) ∧ (b.rewind a.mark).Grown a := by
  have hs : (b.rewind a.mark).size = a.size :=
    (size_rewind b a.mark).trans (Nat.min_eq_left h.size_le)
  have hg : ∀ i < a.size, (b.rewind a.mark).get? i = a.get? i :=
    fun i hi => (get?_rewind b hi).trans (h.get?_eq i hi)
  refine ⟨⟨Nat.le_of_eq hs.symm, rfl, hg⟩, Nat.le_of_eq hs, rfl, ?_⟩
  intro i hi
  exact (hg i (hs ▸ hi)).symm

/-- The node opened is stored last, inside the one that was the innermost. -/
theorem openNode?_eq_some {a b : Arena S} {label : L} {start : Nat}
    (h : a.openNode? label start = some b) : b.innermost = some a.size ∧ b.size = a.size + 1 ∧
      ∀ i, b.get? i = if i = a.size then some ⟨label, start, start, a.innermost⟩ else a.get? i := by
  obtain ⟨slots, hp, rfl⟩ := Option.map_eq_some_iff.1 h
  exact ⟨rfl, LawfulSlots.size_push hp, LawfulSlots.get?_push hp⟩

theorem parent?_openNode? {a b : Arena S} {label : L} {start : Nat}
    (h : a.openNode? label start = some b) (i : Nat) :
    b.parent? i = if i = a.size then a.innermost else a.parent? i := by
  obtain ⟨-, -, hget⟩ := openNode?_eq_some h
  unfold parent?
  rw [hget]
  split <;> rfl

/-- Around growth, the node that was opened first is still there and still the innermost. -/
theorem opened_of_grown {a b c : Arena S} {label : L} {start : Nat}
    (ho : a.openNode? label start = some b) (h : b.Grown c) :
    c.innermost = some a.size ∧ c.get? a.size = some ⟨label, start, start, a.innermost⟩ ∧
      a.size < c.size ∧ ∀ i < a.size, c.get? i = a.get? i := by
  obtain ⟨hi, hs, hb⟩ := openNode?_eq_some ho
  have hle : a.size + 1 ≤ c.size := by
    rw [← hs]
    exact h.size_le
  have hget : ∀ i ≤ a.size, c.get? i =
      if i = a.size then some ⟨label, start, start, a.innermost⟩ else a.get? i := by
    intro i hi
    exact (h.get?_eq i (by omega)).trans (hb i)
  refine ⟨h.innermost_eq.trans hi, ?_, hle, ?_⟩
  · rw [hget _ (Nat.le_refl _), if_pos rfl]
  · intro i hi
    rw [hget i (Nat.le_of_lt hi), if_neg (Nat.ne_of_lt hi)]

variable [DecidableEq L]

omit [LawfulSlots S] in
/-- Only an open node is completed, and the node around it is then the innermost. -/
theorem complete_eq_ok {a b : Arena S} {label : L} {stop : Nat}
    (h : a.complete label stop = .ok b) : ∃ i node, a.innermost = some i ∧ a.get? i = some node ∧
      b = ⟨Slots.modify a.slots i ({ · with stop := stop }), node.parent⟩ := by
  unfold complete at h
  cases hi : a.innermost with
  | none => simp [hi] at h
  | some i =>
    cases hn : a.get? i with
    | none => simp [hi, hn] at h
    | some node =>
      simp only [hi, hn] at h
      split at h
      · cases h
        exact ⟨i, node, rfl, hn, rfl⟩
      · cases h

/-- To complete a node is to set where it stops. -/
theorem stored_of_complete {a b : Arena S} {label : L} {stop : Nat}
    (h : a.complete label stop = .ok b) : ∃ i node, a.innermost = some i ∧ a.get? i = some node ∧
      b.innermost = a.parent? i ∧ b.size = a.size ∧
      ∀ j, b.get? j = if i = j then (a.get? j).map ({ · with stop := stop }) else a.get? j := by
  obtain ⟨i, node, hi, hn, rfl⟩ := complete_eq_ok h
  exact ⟨i, node, hi, hn, (parent?_of_get? hn).symm, LawfulSlots.size_modify _ _ _,
    LawfulSlots.get?_modify _ _ _⟩

omit [LawfulSlots S] in
/-- To abandon a node is to go back to where it was opened. -/
theorem abandon_eq_ok {a b : Arena S} {label : L} (h : a.abandon label = .ok b) :
    ∃ i, a.innermost = some i ∧ b = a.rewind ⟨i, a.parent? i⟩ := by
  unfold abandon at h
  cases hi : a.innermost with
  | none => simp [hi] at h
  | some i =>
    refine ⟨i, rfl, ?_⟩
    unfold rewind parent?
    cases hn : a.get? i with
    | none =>
      simp only [hi, hn] at h
      cases h
      rfl
    | some node =>
      simp only [hi, hn] at h
      split at h
      · cases h
        rfl
      · cases h

theorem complete_opened {a b c : Arena S} {label : L} {start : Nat} (stop : Nat)
    (ho : a.openNode? label start = some b) (h : b.Grown c) :
    ∃ d, c.complete label stop = .ok d ∧ a.Grown d := by
  obtain ⟨hi, hn, hs, hg⟩ := opened_of_grown ho h
  refine ⟨⟨Slots.modify c.slots a.size ({ · with stop := stop }), a.innermost⟩, ?_, ?_, rfl, ?_⟩
  · simp only [complete, hi, hn, if_true]
  · show a.size ≤ Slots.size (Slots.modify c.slots a.size _)
    rw [LawfulSlots.size_modify]
    exact Nat.le_of_lt hs
  · intro i hi
    show Slots.get? (Slots.modify c.slots a.size _) i = a.get? i
    rw [LawfulSlots.get?_modify, if_neg (Nat.ne_of_gt hi)]
    exact hg i hi

theorem abandon_opened {a b c : Arena S} {label : L} {start : Nat}
    (ho : a.openNode? label start = some b) (h : b.Grown c) :
    ∃ d, c.abandon label = .ok d ∧ a.Grown d ∧ d.Grown a := by
  obtain ⟨hi, hn, hs, hg⟩ := opened_of_grown ho h
  have hsize : Slots.size (Slots.truncate c.slots a.size) = a.size := by
    rw [LawfulSlots.size_truncate]
    exact Nat.min_eq_left (Nat.le_of_lt hs)
  have hget : ∀ i < a.size, Slots.get? (Slots.truncate c.slots a.size) i = a.get? i := by
    intro i hi
    rw [LawfulSlots.get?_truncate _ hi]
    exact hg i hi
  refine ⟨⟨Slots.truncate c.slots a.size, a.innermost⟩, ?_, ?_, ?_⟩
  · simp only [abandon, hi, hn, if_true]
  · exact ⟨Nat.le_of_eq hsize.symm, rfl, hget⟩
  · refine ⟨Nat.le_of_eq hsize, rfl, ?_⟩
    intro i hi
    exact (hget i (hsize ▸ hi)).symm

end Arena

/-! ## Node trees -/

/-- What a match relies on in a node tree. -/
class LawfulTree (T : Type) {L M : outParam Type} [NodeTree T L M] where
  /-- The second holds what the first does, and maybe more, and has the same node innermost open. -/
  Grown : T → T → Prop
  grown_refl : ∀ t, Grown t t
  grown_trans : ∀ {t u v}, Grown t u → Grown u v → Grown t v
  mark_eq : ∀ {t u}, Grown t u → Grown u t → NodeTree.mark t = NodeTree.mark u
  rewind_mark : ∀ {t u}, Grown t u →
    Grown t (NodeTree.rewind u (NodeTree.mark t)) ∧ Grown (NodeTree.rewind u (NodeTree.mark t)) t
  complete_opened : ∀ {t u v : T} {label : L} {start : Nat} (stop : Nat),
    NodeTree.openNode? t label start = some u → Grown u v →
      ∃ w, NodeTree.complete v label stop = .ok w ∧ Grown t w
  abandon_opened : ∀ {t u v : T} {label : L} {start : Nat},
    NodeTree.openNode? t label start = some u → Grown u v →
      ∃ w, NodeTree.abandon v label = .ok w ∧ Grown t w ∧ Grown w t
  unwind_same : ∀ (t : T) (label : L),
    Grown t (NodeTree.unwind t label) ∧ Grown (NodeTree.unwind t label) t

section

variable {S L : Type} [DecidableEq L]

instance [Slots S L] [LawfulSlots S] : LawfulTree (Arena S) where
  Grown := Arena.Grown
  grown_refl := Arena.Grown.refl
  grown_trans := Arena.Grown.trans
  mark_eq := Arena.Grown.mark_eq
  rewind_mark := Arena.rewind_mark
  complete_opened := Arena.complete_opened
  abandon_opened := Arena.abandon_opened
  unwind_same t _ := ⟨.refl t, .refl t⟩

/-- The trail counts for nothing here. -/
instance : LawfulTree (TrailTree L) where
  Grown t u := t.arena.Grown u.arena
  grown_refl t := .refl t.arena
  grown_trans := Arena.Grown.trans
  mark_eq := Arena.Grown.mark_eq
  rewind_mark := Arena.rewind_mark
  complete_opened {t u v label start} stop ho h := by
    obtain ⟨arena, ha, rfl⟩ := Option.map_eq_some_iff.1 ho
    obtain ⟨arena', hc, hg⟩ := Arena.complete_opened stop ha h
    refine ⟨⟨arena', v.trail⟩, ?_, hg⟩
    show (v.arena.complete label stop).map _ = _
    rw [hc]
    rfl
  abandon_opened {t u v label start} ho h := by
    obtain ⟨arena, ha, rfl⟩ := Option.map_eq_some_iff.1 ho
    obtain ⟨arena', hc, hg⟩ := Arena.abandon_opened ha h
    refine ⟨⟨arena', v.trail⟩, ?_, hg⟩
    show (v.arena.abandon label).map _ = _
    rw [hc]
    rfl
  unwind_same t _ := ⟨.refl t.arena, .refl t.arena⟩

instance : LawfulTree (DepthTree L) where
  Grown t u := u.depth = t.depth
  grown_refl _ := rfl
  grown_trans htu huv := huv.trans htu
  mark_eq htu _ := htu.symm
  rewind_mark _ := ⟨rfl, rfl⟩
  complete_opened {t u v label start} stop ho h := by
    cases ho
    refine ⟨⟨t.depth⟩, ?_, rfl⟩
    show DepthTree.complete v = _
    unfold DepthTree.complete
    rw [h]
  abandon_opened {t u v label start} ho h := by
    cases ho
    refine ⟨⟨t.depth⟩, ?_, rfl, rfl⟩
    show DepthTree.abandon v = _
    unfold DepthTree.abandon
    rw [h]
  unwind_same _ _ := ⟨rfl, rfl⟩

end

end Peg
