import Peg.Proofs.Forest
import Peg.Proofs.Reuse
import Peg.Proofs.Storing
import Peg.Proofs.Transparency
import Peg.Proofs.Upshot

/-
  Likeness: trees of which a match cannot tell one from the other. What a match cannot see is the
  trail that was left in a tree, and what the slots of a row hold past its end. Every tree is like a
  plain one, without a trail and with those slots vacant, and among plain trees a rule that does not
  match leaves the very same cursor. So what rules come to on plain trees they come to on all.
-/

namespace Peg

/-! ## Rows of slots that hold the same -/

namespace Arena

variable {S L : Type} [Slots S L] [LawfulSlots S] {a b a' b' : Arena S} {label : L}

theorem Grown.rewind (h : a.Grown b) (mark : Mark) : (a.rewind mark).Grown (b.rewind mark) where
  size_le := by
    have := h.size_le
    rw [size_rewind, size_rewind]
    omega
  innermost_eq := rfl
  get?_eq i hi := by
    rw [size_rewind] at hi
    rw [get?_rewind _ (by omega), get?_rewind _ (by omega)]
    exact h.get?_eq i (by omega)

theorem Grown.openNode? {start : Nat} (h : a.Grown b) (hs : b.size = a.size)
    (ha : a.openNode? label start = some a') (hb : b.openNode? label start = some b') :
    a'.Grown b' := by
  obtain ⟨hai, has, hag⟩ := openNode?_eq_some ha
  obtain ⟨hbi, hbs, hbg⟩ := openNode?_eq_some hb
  refine ⟨by omega, by rw [hai, hbi, hs], fun i hi => ?_⟩
  rw [hag, hbg, hs, h.innermost_eq]
  split
  · rfl
  · exact h.get?_eq i (by omega)

variable [DecidableEq L]

/-- The node that was opened is stored, and innermost open. -/
theorem innermost_of_opened (h : Opened label a) : ∃ i, a.innermost = some i ∧ i < a.size := by
  obtain ⟨before, opened, start, ho, hg⟩ := h
  obtain ⟨hi, -, hlt, -⟩ := opened_of_grown ho hg
  exact ⟨before.size, hi, hlt⟩

theorem Grown.complete {stop : Nat} (h : a.Grown b) (ho : Opened label a)
    (ha : a.complete label stop = .ok a') (hb : b.complete label stop = .ok b') :
    a'.Grown b' := by
  obtain ⟨i, hi, hlt⟩ := innermost_of_opened ho
  obtain ⟨j, -, hj, -, hai, has, hag⟩ := stored_of_complete ha
  obtain ⟨k, -, hk, -, hbi, hbs, hbg⟩ := stored_of_complete hb
  obtain rfl : i = j := Option.some.inj (hi.symm.trans hj)
  obtain rfl : i = k := Option.some.inj (hi.symm.trans (h.innermost_eq.symm.trans hk))
  refine ⟨?_, ?_, fun m hm => ?_⟩
  · rw [has, hbs]
    exact h.size_le
  · rw [hai, hbi, h.parent?_eq hlt]
  · rw [has] at hm
    rw [hag, hbg, h.get?_eq m hm]

theorem Grown.abandon (h : a.Grown b) (ho : Opened label a)
    (ha : a.abandon label = .ok a') (hb : b.abandon label = .ok b') : a'.Grown b' := by
  obtain ⟨i, hi, hlt⟩ := innermost_of_opened ho
  obtain ⟨j, hj, rfl⟩ := abandon_eq_ok ha
  obtain ⟨k, hk, rfl⟩ := abandon_eq_ok hb
  obtain rfl : i = j := Option.some.inj (hi.symm.trans hj)
  obtain rfl : i = k := Option.some.inj (hi.symm.trans (h.innermost_eq.symm.trans hk))
  rw [h.parent?_eq hlt]
  exact h.rewind _

end Arena

/-- The same nodes in as many slots, whatever is in the slots past them. -/
structure SameRow {L : Type} (row other : RowTree L) : Prop where
  grown : row.Grown other
  shrunk : other.Grown row
  capacity_eq : other.slots.capacity = row.slots.capacity

namespace SameRow

variable {L : Type} {a b a' b' : RowTree L} {label : L} {start stop : Nat}

theorem symm (h : SameRow a b) : SameRow b a := ⟨h.shrunk, h.grown, h.capacity_eq.symm⟩

theorem trans {c : RowTree L} (h : SameRow a b) (h' : SameRow b c) : SameRow a c :=
  ⟨h.grown.trans h'.grown, h'.shrunk.trans h.shrunk, h'.capacity_eq.trans h.capacity_eq⟩

theorem size_eq (h : SameRow a b) : b.size = a.size :=
  Nat.le_antisymm h.shrunk.size_le h.grown.size_le

theorem rewind (h : SameRow a b) (mark : Mark) : SameRow (a.rewind mark) (b.rewind mark) where
  grown := h.grown.rewind mark
  shrunk := h.shrunk.rewind mark
  capacity_eq := by
    have hc := h.capacity_eq
    rw [← SlotRow.capacity_truncate b.slots mark.size,
      ← SlotRow.capacity_truncate a.slots mark.size] at hc
    exact hc

/-- There is room in both or in none. -/
theorem openNode?_eq_none (h : SameRow a b) (ha : a.openNode? label start = none) :
    b.openNode? label start = none := by
  have hu : b.slots.used = a.slots.used := h.size_eq
  have hc := h.capacity_eq
  have ha : a.slots.push? ⟨label, start, start, a.innermost⟩ = none :=
    Option.map_eq_none_iff.1 ha
  unfold SlotRow.push? at ha
  have hfull : ¬ a.slots.used < a.slots.capacity := by
    intro hlt
    rw [if_pos hlt] at ha
    cases ha
  exact Option.map_eq_none_iff.2 (if_neg (by omega))

theorem openNode? (h : SameRow a b) (ha : a.openNode? label start = some a')
    (hb : b.openNode? label start = some b') : SameRow a' b' where
  grown := h.grown.openNode? h.size_eq ha hb
  shrunk := h.shrunk.openNode? h.symm.size_eq hb ha
  capacity_eq := by
    obtain ⟨slots, hp, rfl⟩ := Option.map_eq_some_iff.1 ha
    obtain ⟨slots', hp', rfl⟩ := Option.map_eq_some_iff.1 hb
    exact (SlotRow.capacity_push? hp').trans (h.capacity_eq.trans (SlotRow.capacity_push? hp).symm)

variable [DecidableEq L]

theorem complete (h : SameRow a b) (ho : Opened label a) (ha : a.complete label stop = .ok a')
    (ho' : Opened label b) (hb : b.complete label stop = .ok b') : SameRow a' b' where
  grown := h.grown.complete ho ha hb
  shrunk := h.shrunk.complete ho' hb ha
  capacity_eq := by
    obtain ⟨i, node, -, -, rfl⟩ := Arena.complete_eq_ok ha
    obtain ⟨i', node', -, -, rfl⟩ := Arena.complete_eq_ok hb
    exact (SlotRow.capacity_modify _ _ _).trans
      (h.capacity_eq.trans (SlotRow.capacity_modify _ _ _).symm)

theorem abandon (h : SameRow a b) (ho : Opened label a) (ha : a.abandon label = .ok a')
    (ho' : Opened label b) (hb : b.abandon label = .ok b') : SameRow a' b' where
  grown := h.grown.abandon ho ha hb
  shrunk := h.shrunk.abandon ho' hb ha
  capacity_eq := by
    obtain ⟨i, -, rfl⟩ := Arena.abandon_eq_ok ha
    obtain ⟨i', -, rfl⟩ := Arena.abandon_eq_ok hb
    exact (SlotRow.capacity_truncate _ _).trans
      (h.capacity_eq.trans (SlotRow.capacity_truncate _ _).symm)

end SameRow

section

variable {U L : Type} [InputUnit U] [DecidableEq L]

/-- Two rows that hold the same, whatever is in the slots past that. -/
def sameRowShadow (input : Input U) : Shadow input input (RowTree L) (RowTree L) where
  toAlignment := .refl input
  Rel := SameRow
  Fits _ := True
  fits _ := trivial
  rewind {t t' u u'} h h' := by
    show SameRow (t'.rewind t.mark) (u'.rewind u.mark)
    rw [h.grown.mark_eq h.shrunk]
    exact h'.rewind _
  opened {t t' u label a b} h hb ho := by
    obtain rfl : b = a := hb
    cases hu : Arena.openNode? u label b with
    | none =>
      have ho : t.openNode? label b = some t' := ho
      rw [h.symm.openNode?_eq_none hu] at ho
      cases ho
    | some u' => exact Or.inl ⟨u', hu, h.openNode? ho hu⟩
  full {t u label a b} h hb ho := by
    obtain rfl : b = a := hb
    exact h.openNode?_eq_none ho
  complete {t t' u u' label a b} h hb ho ht ho' hu := by
    obtain rfl : b = a := hb
    exact h.complete ho ht ho' hu
  abandon h ho ht ho' hu := h.abandon ho ht ho' hu
  unwind _ h := h

end

/-- Over one input, where all fits and what is related has the same mark, results are alike. -/
theorem Shadow.returns_like {U T L M : Type} [InputUnit U] [DecidableEq U] [NodeTree T L M]
    [LawfulTree T] [DecidableEq M] {input : Input U} (shadow : Shadow input input T T)
    (ha : ∀ {a b}, shadow.At a b ↔ b = a) (hf : ∀ t, shadow.Fits t)
    (hm : ∀ {t u}, shadow.Rel t u → NodeTree.mark u = NodeTree.mark t)
    {references : Nat → Reference U L} {rule : Rule U L} {offset : Nat} {t u : T}
    {result : Result T L M}
    (h : Matching.Returns ⟨input, references, .text⟩ rule ⟨offset, t⟩ result)
    (hs : shadow.Rel t u) : ∃ other,
      Matching.Returns ⟨input, references, .text⟩ rule ⟨offset, u⟩ other ∧
      result.Like shadow.Rel other := by
  have hc : shadow.Cursors ⟨offset, t⟩ ⟨offset, u⟩ := ⟨ha.2 rfl, hs⟩
  obtain ⟨other, hr, hres⟩ := returns_results hf rfl h hc
  refine ⟨other, hr, ?_, ha.1 hres.cursor.at_offset, hres.cursor.tree⟩
  have ho : other.outcome.map id = result.outcome.map id := hres.outcome.map_eq <| by
    rintro ⟨offset, mark⟩ ⟨offset', mark'⟩ ⟨ho, t, u, hu, rfl, rfl⟩
    obtain rfl : offset' = offset := ha.1 ho
    exact congrArg (Position.mk offset') (hm hu)
  rwa [Outcome.map_id, Outcome.map_id] at ho

/-- The labels that were left in a trail stay in front of it until it is cleared. -/
def leftShadow {U L : Type} [InputUnit U] [DecidableEq L] (input : Input U) (left : List L) :
    Shadow input input (TrailTree L) (TrailTree L) where
  toAlignment := .refl input
  Rel tree other := other.arena = tree.arena ∧
    (tree.trail = other.trail ∨ tree.trail = left ++ other.trail)
  Fits _ := True
  fits _ := trivial
  rewind h h' := ⟨(trailShadow input).rewind h.1 h'.1, Or.inl rfl⟩
  opened {t t' u label a b} h hb ho := by
    obtain ⟨u', hu, ha⟩ := ((trailShadow input).opened h.1 hb ho).resolve_right
      fun hx => hx.1 trivial
    obtain ⟨arena, -, rfl⟩ := Option.map_eq_some_iff.1 ho
    obtain ⟨arena', hp, rfl⟩ := Option.map_eq_some_iff.1 hu
    exact Or.inl ⟨_, Option.map_eq_some_iff.2 ⟨arena', hp, rfl⟩, ha, h.2⟩
  full h hb ho := (trailShadow input).full h.1 hb ho
  complete h hb ho ht ho' hu := by
    have ha := (trailShadow input).complete h.1 hb ho ht ho' hu
    obtain ⟨arena, -, rfl⟩ := of_map_eq_ok ht
    obtain ⟨arena', -, rfl⟩ := of_map_eq_ok hu
    exact ⟨ha, h.2⟩
  abandon h ho ht ho' hu := by
    have ha := (trailShadow input).abandon h.1 ho ht ho' hu
    obtain ⟨arena, -, rfl⟩ := of_map_eq_ok ht
    obtain ⟨arena', -, rfl⟩ := of_map_eq_ok hu
    exact ⟨ha, h.2⟩
  unwind {t u} label h := by
    refine ⟨h.1, h.2.imp (congrArg (· ++ [label])) fun h => ?_⟩
    show t.trail ++ [label] = left ++ (u.trail ++ [label])
    rw [h, List.append_assoc]

namespace SlotRow

variable {L : Type} {row other : SlotRow L} {capacity : Nat}

/-- The row with the slots past its end vacant. -/
def swept (row : SlotRow L) : SlotRow L :=
  ⟨vacate row.cells row.used (row.capacity - row.used), row.used⟩

theorem get?_swept (row : SlotRow L) (i : Nat) :
    row.swept.get? i = if row.used ≤ i then none else row.get? i := by
  unfold swept get?
  rw [join_vacate]
  unfold capacity
  split
  · rw [if_pos (by omega)]
  · rename_i hi
    split
    · rw [Array.getElem?_eq_none (by omega)]
      rfl
    · rfl

theorem clean_swept (row : SlotRow L) : row.swept.Clean row.capacity where
  capacity_eq := size_vacate _ _ _
  vacant i hi := by
    rw [get?_swept]
    exact if_pos hi

theorem clean_swept_self (row : SlotRow L) : row.swept.Clean row.swept.capacity := by
  rw [row.clean_swept.capacity_eq]
  exact row.clean_swept

/-- A clean row is known by what it holds. -/
theorem Clean.ext (h : row.Clean capacity) (h' : other.Clean capacity)
    (hu : other.used = row.used) (hg : ∀ i < row.used, other.get? i = row.get? i) :
    other = row := by
  have hall : ∀ i, other.get? i = row.get? i := by
    intro i
    by_cases hi : i < row.used
    · exact hg i hi
    · rw [h.vacant i (by omega), h'.vacant i (by omega)]
  obtain ⟨cells, used⟩ := row
  obtain ⟨cells', used'⟩ := other
  obtain rfl : used' = used := hu
  have hs : cells'.size = cells.size := h'.capacity_eq.trans h.capacity_eq.symm
  have hc : cells' = cells := by
    refine Array.ext hs fun i hi hi' => ?_
    have hj : (cells'[i]?).join = (cells[i]?).join := hall i
    rw [Array.getElem?_eq_getElem hi, Array.getElem?_eq_getElem hi'] at hj
    exact hj
  rw [hc]

end SlotRow

theorem SameRow.swept {L : Type} (row : RowTree L) :
    SameRow row ⟨row.slots.swept, row.innermost⟩ := by
  have hg : ∀ i < row.size, row.slots.swept.get? i = row.slots.get? i := by
    intro i hi
    rw [SlotRow.get?_swept]
    exact if_neg (Nat.not_le_of_lt hi)
  exact ⟨⟨Nat.le_refl _, rfl, hg⟩, ⟨Nat.le_refl _, rfl, fun i hi => (hg i hi).symm⟩,
    row.slots.clean_swept.capacity_eq⟩

theorem SameRow.restored_of_join {L : Type} {row other : RowTree L}
    (h : Relation.Join SameRow row other) : row.Restored other := by
  obtain ⟨plain, hr, ho⟩ := h
  have h := hr.trans ho.symm
  exact h.grown.restored h.shrunk

/-! ## Every tree is like a plain one -/

/-- Results are alike whose plain ones are the same. -/
theorem Result.Like.join {T L M : Type} {Rel : T → T → Prop}
    {result other plain plain' : Result T L M} (h : result.Like Rel plain)
    (he : plain.Like Eq plain') (h' : other.Like Rel plain') :
    result.Like (Relation.Join Rel) other where
  outcome_eq := by rw [← h'.outcome_eq, he.outcome_eq, h.outcome_eq]
  offset_eq := by rw [← h'.offset_eq, he.offset_eq, h.offset_eq]
  tree := ⟨plain.cursor.tree, h.tree, he.tree ▸ h'.tree⟩

namespace Matching

section

variable {U L T M : Type} [NodeTree T L M] [InputUnit U] [DecidableEq U] [DecidableEq M]
  {rule rule' : Rule U L}

/-- A match on a tree goes as on each plain tree that the tree is like, either way. -/
structure Likeness (setting : Setting U L) (Rel : T → T → Prop) (Plain : T → Prop) : Prop
    extends Transparent setting Plain where
  forth : ∀ {rule : Rule U L} {offset : Nat} {t u : T} {result : Result T L M},
    Returns setting rule ⟨offset, t⟩ result → Rel t u →
      ∃ other, Returns setting rule ⟨offset, u⟩ other ∧ result.Like Rel other
  back : ∀ {rule : Rule U L} {offset : Nat} {t u : T} {other : Result T L M},
    Returns setting rule ⟨offset, u⟩ other → Rel t u →
      ∃ result, Returns setting rule ⟨offset, t⟩ result ∧ result.Like Rel other

namespace Likeness

variable {setting : Setting U L} {Rel : T → T → Prop} {Plain : T → Prop}
  (hl : Likeness setting Rel Plain) {cursor : Cursor T} {u : T}
include hl

theorem replacedBy (hs : Rel cursor.tree u)
    (h : ReplacedBy setting Eq rule rule' ⟨cursor.offset, u⟩) :
    ReplacedBy setting (Relation.Join Rel) rule rule' cursor := by
  intro result hr
  obtain ⟨plain, hr, hlike⟩ := hl.forth hr hs
  obtain ⟨plain', hr, heq⟩ := h plain hr
  obtain ⟨other, hr, hlike'⟩ := hl.back hr hs
  exact ⟨other, hr, hlike.join heq hlike'⟩

theorem coincide (hs : Rel cursor.tree u)
    (h : Coincide setting Eq rule rule' ⟨cursor.offset, u⟩) :
    Coincide setting (Relation.Join Rel) rule rule' cursor :=
  ⟨hl.replacedBy hs h.forth, hl.replacedBy hs h.back⟩

end Likeness

end

section

variable {U L : Type} [InputUnit U] [DecidableEq U] [DecidableEq L] {input : Input U}
  {references : Nat → Reference U L}

theorem transparent_trail (setting : Setting U L) :
    Transparent setting fun tree : TrailTree L => tree.trail = [] where
  stays h hp ho := by
    obtain ⟨parts, h⟩ := returns_iff_goes.1 h
    exact goes_clears h hp (Or.inl ho)
  restored {rule cursor result} h hp ho := by
    obtain ⟨hoff, hs⟩ := (returns_balanced h).restored ho
    have ha : result.cursor.tree.arena = cursor.tree.arena :=
      Arena.Grown.antisymm (returns_balanced h).grown hs
    obtain ⟨parts, h⟩ := returns_iff_goes.1 h
    have ht := goes_clears h hp (Or.inr ho)
    exact Cursor.eq_of hoff ((TrailTree.mk.injEq ..).mpr ⟨ha, ht.trans hp.symm⟩)

theorem transparent_array (setting : Setting U L) :
    Transparent setting fun _ : ArrayTree L => True where
  stays _ _ _ := trivial
  restored h _ ho := by
    obtain ⟨hoff, hs⟩ := (returns_balanced h).restored ho
    exact Cursor.eq_of hoff (Arena.Grown.antisymm (returns_balanced h).grown hs)

theorem transparent_row (setting : Setting U L) :
    Transparent setting fun tree : RowTree L => tree.slots.Clean tree.slots.capacity where
  stays h hp _ := by
    have hc := (invariant_clean setting.input _).returns h hp
    rw [hc.capacity_eq]
    exact hc
  restored {rule cursor result} h hp ho := by
    obtain ⟨hoff, hs⟩ := (returns_balanced h).restored ho
    have hg : cursor.tree.Grown result.cursor.tree := (returns_balanced h).grown
    have hs : result.cursor.tree.Grown cursor.tree := hs
    have hc := (invariant_clean setting.input _).returns h hp
    have hslots := hp.ext hc (Nat.le_antisymm hs.size_le hg.size_le) hg.get?_eq
    exact Cursor.eq_of hoff ((Arena.mk.injEq ..).mpr ⟨hslots, hg.innermost_eq⟩)

omit [DecidableEq L] in
theorem transparent_depth (setting : Setting U L) :
    Transparent setting fun _ : DepthTree L => True where
  stays _ _ _ := trivial
  restored h _ ho := by
    obtain ⟨hoff, -⟩ := (returns_balanced h).restored ho
    exact Cursor.eq_of hoff (congrArg DepthTree.mk (returns_balanced h).grown)

omit [DecidableEq L] in
/-- Over one input, where all fits and what is related has the same mark, a shadow is a
likeness. -/
theorem Likeness.of_shadow {T M : Type} [NodeTree T L M] [LawfulTree T] [DecidableEq M]
    {Plain : T → Prop} (ht : Transparent ⟨input, references, .text⟩ Plain)
    (shadow : Shadow input input T T) (ha : ∀ {a b}, shadow.At a b ↔ b = a)
    (hf : ∀ t, shadow.Fits t)
    (hm : ∀ {t u}, shadow.Rel t u → NodeTree.mark u = NodeTree.mark t) :
    Likeness ⟨input, references, .text⟩ shadow.Rel Plain where
  toTransparent := ht
  forth h hs := shadow.returns_like ha hf hm h hs
  back h hs := by
    obtain ⟨result, hr, hl⟩ := (shadow.flip hf).returns_like (ha.trans eq_comm)
      (fun _ => trivial) (fun hs => (hm hs).symm) h hs
    exact ⟨result, hr, hl.outcome_eq.symm, hl.offset_eq.symm, hl.tree⟩

/-- A match knows nothing of the labels that were left in a trail. -/
theorem likeness_trail (left : List L) : Likeness ⟨input, references, .text⟩
    (leftShadow input left).Rel (·.trail = []) :=
  .of_shadow (transparent_trail _) (leftShadow input left) Iff.rfl (fun _ => trivial)
    fun h => congrArg Arena.mark h.1

/-- A match knows nothing of what is in a slot past the end. -/
theorem likeness_row : Likeness ⟨input, references, .text⟩ (SameRow (L := L))
    (fun tree => tree.slots.Clean tree.slots.capacity) :=
  .of_shadow (transparent_row _) (sameRowShadow input) Iff.rfl (fun _ => trivial)
    fun h => (h.grown.mark_eq h.shrunk).symm

/-! ## Rules that can take the place of each other -/

omit [DecidableEq L] in
/-- The rules have the same upshots wherever a rule that does not match leaves the very same
cursor. -/
def Equivalent (setting : Setting U L) (rule rule' : Rule U L) : Prop :=
  ∀ (T M : Type) [NodeTree T L M] [DecidableEq M] (Plain : T → Prop),
    Transparent setting Plain → ∀ cursor : Cursor T, Plain cursor.tree →
      ∀ upshot : Upshot T M, Yields setting (.rule rule) cursor upshot ↔
        Yields setting (.rule rule') cursor upshot

/-- On every kind of tree, whenever one of the rules returns, both do, with the same outcome at the
same offset, the same nodes with the same one innermost open, and the same trail if there was none
before. -/
structure Interchangeable (input : Input U) (references : Nat → Reference U L)
    (rule rule' : Rule U L) : Prop where
  trail : ∀ cursor : Cursor (TrailTree L), cursor.tree.trail = [] →
    Coincide ⟨input, references, .text⟩ Eq rule rule' cursor
  array : ∀ cursor : Cursor (ArrayTree L),
    Coincide ⟨input, references, .text⟩ Eq rule rule' cursor
  row : ∀ cursor : Cursor (RowTree L),
    Coincide ⟨input, references, .text⟩ Arena.Restored rule rule' cursor
  depth : ∀ cursor : Cursor (DepthTree L),
    Coincide ⟨input, references, .text⟩ Eq rule rule' cursor

theorem Equivalent.interchangeable {rule rule' : Rule U L}
    (h : Equivalent ⟨input, references, .text⟩ rule rule') :
    Interchangeable input references rule rule' where
  trail cursor hp := (transparent_trail _).coincide hp (h _ _ _ (transparent_trail _) cursor hp)
  array cursor := (transparent_array _).coincide trivial
    (h _ _ _ (transparent_array _) cursor trivial)
  row cursor := by
    have hp := SlotRow.clean_swept_self cursor.tree.slots
    exact (likeness_row.coincide (.swept cursor.tree) ((transparent_row _).coincide hp
      (h _ _ _ (transparent_row _) _ hp))).mono SameRow.restored_of_join
  depth cursor := (transparent_depth _).coincide trivial
    (h _ _ _ (transparent_depth _) cursor trivial)

end

end Matching

end Peg
