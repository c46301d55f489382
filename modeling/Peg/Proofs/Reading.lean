import Peg.Cursor

/-
  Reading: how a cursor moves over the input. It moves forward only, from boundary to boundary, and
  leaves its tree alone; given units are gone past exactly if the input spells them out from the
  cursor on (`takeAll?_eq_some_iff`).
-/

namespace Peg

variable {U T : Type} [InputUnit U]

/-- The given units stand in the input from the offset on. -/
def Input.Spells (input : Input U) : List U → Nat → Prop
  | [], _ => True
  | u :: us, offset =>
    input.unitAt? offset = some u ∧ input.Spells us (offset + InputUnit.width u)

/-- The offset past the unit at an offset; the offset itself where no unit starts. -/
def Input.next (input : Input U) (offset : Nat) : Nat :=
  match input.unitAt? offset with
  | some u => offset + InputUnit.width u
  | none => offset

namespace Input

variable {input : Input U} {offset : Nat}

theorem le_next (input : Input U) (offset : Nat) : offset ≤ input.next offset := by
  unfold next
  split
  · exact Nat.le_add_right _ _
  · exact Nat.le_refl _

theorem isBoundary_zero (input : Input U) : input.isBoundary 0 = true :=
  (input.isBoundary_iff 0).2 ⟨[], input.units, rfl, rfl⟩

theorem boundary_cases (h : input.isBoundary offset = true) :
    offset = input.length ∨ ∃ u, input.unitAt? offset = some u := by
  rw [isBoundary, Bool.or_eq_true, beq_iff_eq] at h
  exact h.imp id Option.isSome_iff_exists.1

theorem le_length_of_isBoundary (h : input.isBoundary offset = true) : offset ≤ input.length := by
  rcases boundary_cases h with rfl | ⟨u, hu⟩
  · exact Nat.le_refl _
  · exact Nat.le_trans (Nat.le_add_right _ _) (unitAt?_lt hu)

theorem isBoundary_add {u : U} (h : input.unitAt? offset = some u) :
    input.isBoundary (offset + InputUnit.width u) = true := by
  obtain ⟨xs, ys, hu, rfl⟩ := (input.unitAt?_eq_some_iff offset u).1 h
  refine (input.isBoundary_iff _).2 ⟨xs ++ [u], ys, by rw [hu]; simp, ?_⟩
  rw [extent_append]
  rfl

theorem isBoundary_next (h : input.isBoundary offset = true) :
    input.isBoundary (input.next offset) = true := by
  unfold next
  split
  · rename_i hu
    exact isBoundary_add hu
  · exact h

theorem isBoundary_of_spells {us : List U} (h : input.Spells us offset)
    (ho : input.isBoundary offset = true) : input.isBoundary (offset + extent us) = true := by
  induction us generalizing offset with
  | nil => exact ho
  | cons u us ih =>
    obtain ⟨hu, hs⟩ := h
    have hb := ih hs (isBoundary_add hu)
    rwa [Nat.add_assoc] at hb

end Input

namespace Cursor

variable (input : Input U)

theorem advance_offset (cursor : Cursor T) :
    (cursor.advance input).offset = input.next cursor.offset := by
  unfold advance Input.next peek?
  cases input.unitAt? cursor.offset <;> rfl

theorem advance_tree (cursor : Cursor T) : (cursor.advance input).tree = cursor.tree := by
  unfold advance
  split <;> rfl

theorem le_advance (cursor : Cursor T) : cursor.offset ≤ (cursor.advance input).offset := by
  rw [advance_offset]
  exact input.le_next cursor.offset

theorem advance_of_unitAt? {cursor : Cursor T} {u : U}
    (h : input.unitAt? cursor.offset = some u) :
    cursor.advance input = ⟨cursor.offset + InputUnit.width u, cursor.tree⟩ := by
  have hp : cursor.peek? input = some u := h
  unfold advance
  rw [hp]

theorem take?_eq_some_iff {p : U → Bool} {cursor next : Cursor T} :
    cursor.take? input p = some next ↔ ∃ u, input.unitAt? cursor.offset = some u ∧ p u = true ∧
      next = ⟨cursor.offset + InputUnit.width u, cursor.tree⟩ := by
  unfold take? peek?
  constructor
  · intro h
    split at h
    · rename_i u hu
      split at h
      · rename_i hp
        rw [advance_of_unitAt? input hu] at h
        exact ⟨u, hu, hp, (Option.some.inj h).symm⟩
      · cases h
    · cases h
  · rintro ⟨u, hu, hp, rfl⟩
    simp only [hu, hp, if_true, advance_of_unitAt? input hu]

theorem takeAll?_eq_some_iff [DecidableEq U] {us : List U} {cursor next : Cursor T} :
    cursor.takeAll? input us = some next ↔
      input.Spells us cursor.offset ∧ next = ⟨cursor.offset + extent us, cursor.tree⟩ := by
  induction us generalizing cursor with
  | nil =>
    simp only [takeAll?, Input.Spells, extent, Option.some.injEq, true_and, Nat.add_zero]
    exact eq_comm
  | cons u us ih =>
    simp only [takeAll?, Option.bind_eq_some_iff, take?_eq_some_iff, ih, Input.Spells, extent]
    constructor
    · rintro ⟨_, ⟨v, hv, huv, rfl⟩, hs, rfl⟩
      have huv : v = u := by simpa using huv
      subst huv
      exact ⟨⟨hv, hs⟩, by rw [Nat.add_assoc]⟩
    · rintro ⟨⟨hu, hs⟩, rfl⟩
      exact ⟨_, ⟨u, hu, by simp, rfl⟩, hs, by rw [Nat.add_assoc]⟩

end Cursor

namespace Policy

variable {T L M : Type} [NodeTree T L M] [DecidableEq M] {policy : Policy} {before after : Cursor T}

/-- Where nodes are no progress, to make some is to be at another offset. -/
theorem progressed_iff (hp : policy.nodesAreProgress = false) :
    policy.progressed before.position after = true ↔ after.offset ≠ before.offset := by
  simp only [progressed, hp, Bool.false_eq_true, if_false, bne_iff_ne]
  rfl

theorem not_progressed_iff (hp : policy.nodesAreProgress = false) :
    policy.progressed before.position after = false ↔ after.offset = before.offset := by
  rw [← Bool.not_eq_true, progressed_iff hp, Decidable.not_not]

end Policy

end Peg
