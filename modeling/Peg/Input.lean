/-
  Input: a list of units laid out on offsets. A unit covers as many offsets as it is wide, so for
  text the offsets are those of the UTF-8 bytes, and a unit is found only at the offset where it
  starts. `unitAt?_eq_some_iff` says where that is.
-/

namespace Peg

/-- A single element of input and the number of offsets it covers. -/
class InputUnit (U : Type) where
  width : U → Nat
  width_pos : ∀ u, 0 < width u

instance : InputUnit Char := ⟨Char.utf8Size, Char.utf8Size_pos⟩

instance : InputUnit Int := ⟨fun _ => 1, fun _ => Nat.one_pos⟩

variable {U : Type} [InputUnit U]

/-- One cell per offset: a unit stands in the first cell it covers, its other cells are empty. -/
def layout : List U → List (Option U)
  | [] => []
  | u :: us => some u :: (List.replicate (InputUnit.width u - 1) none ++ layout us)

/-- How many offsets the units cover. -/
def extent : List U → Nat
  | [] => 0
  | u :: us => InputUnit.width u + extent us

theorem extent_append (xs ys : List U) : extent (xs ++ ys) = extent xs + extent ys := by
  induction xs with
  | nil => simp [extent]
  | cons x xs ih => simp [extent, ih, Nat.add_assoc]

theorem layout_append (xs ys : List U) : layout (xs ++ ys) = layout xs ++ layout ys := by
  induction xs with
  | nil => rfl
  | cons x xs ih => simp [layout, ih]

theorem layout_length (us : List U) : (layout us).length = extent us := by
  induction us with
  | nil => rfl
  | cons u us ih =>
    have := InputUnit.width_pos u
    simp [layout, extent, ih]; omega

theorem layout_filterMap (us : List U) : (layout us).filterMap id = us := by
  induction us with
  | nil => rfl
  | cons u us ih =>
    have h : (List.replicate (InputUnit.width u - 1) (none : Option U)).filterMap id = [] :=
      List.filterMap_replicate_of_none rfl
    show u :: (List.replicate (InputUnit.width u - 1) none ++ layout us).filterMap id = u :: us
    rw [List.filterMap_append, h, ih, List.nil_append]

/-- The units to match, with their layout kept beside them. -/
structure Input (U : Type) [InputUnit U] where
  units : List U
  cells : Array (Option U) := (layout units).toArray
  cells_eq : cells = (layout units).toArray := by rfl

namespace Input

def ofList (us : List U) : Input U := { units := us }

def ofString (s : String) : Input Char := ofList s.toList

/-- A text is given where its characters are to be matched. -/
instance : Coe String (Input Char) := ⟨ofString⟩

/-- The offset just past the last unit. -/
def length (input : Input U) : Nat := input.cells.size

def isEmpty (input : Input U) : Bool := input.length == 0

/-- The unit that starts at the offset; none inside a unit, nor at or past the end. -/
def unitAt? (input : Input U) (offset : Nat) : Option U := (input.cells[offset]?).join

/-- Whether a unit starts at the offset, or the input ends there. -/
def isBoundary (input : Input U) (offset : Nat) : Bool :=
  offset == input.length || (input.unitAt? offset).isSome

/-- The units between two boundaries; nothing where an end is not a boundary, or comes too early. -/
def slice? (input : Input U) (start stop : Nat) : Option (List U) :=
  if start ≤ stop && input.isBoundary start && input.isBoundary stop then
    some ((input.cells.extract start stop).toList.filterMap id)
  else none

theorem length_eq (input : Input U) : input.length = extent input.units := by
  simp [length, input.cells_eq, layout_length]

theorem unitAt?_eq (input : Input U) (o : Nat) :
    input.unitAt? o = ((layout input.units)[o]?).join := by
  simp [unitAt?, input.cells_eq]

end Input

theorem layout_getElem?_eq_some (us : List U) (o : Nat) (u : U) :
    (layout us)[o]?.join = some u ↔ ∃ xs ys, us = xs ++ u :: ys ∧ extent xs = o := by
  induction us generalizing o with
  | nil => simp [layout]
  | cons v us ih =>
    have hw := InputUnit.width_pos v
    rcases Nat.eq_zero_or_pos o with rfl | ho
    · simp only [layout, List.getElem?_cons_zero, Option.join_some, Option.some.injEq]
      constructor
      · rintro rfl; exact ⟨[], us, rfl, rfl⟩
      · rintro ⟨xs, ys, h, hx⟩
        cases xs with
        | nil => simp at h; exact h.1
        | cons x xs => have := InputUnit.width_pos x; simp [extent] at hx; omega
    · have hcell : (layout (v :: us))[o]?.join =
          if o < InputUnit.width v then none else (layout us)[o - InputUnit.width v]?.join := by
        obtain ⟨k, rfl⟩ : ∃ k, o = k + 1 := ⟨o - 1, by omega⟩
        simp only [layout, List.getElem?_cons_succ]
        split
        · rename_i h
          rw [List.getElem?_append_left (by simp; omega), List.getElem?_replicate_of_lt (by omega)]
          rfl
        · rename_i h
          rw [List.getElem?_append_right (by simp; omega), List.length_replicate]
          congr 2; omega
      rw [hcell]
      split
      · rename_i h
        simp only [reduceCtorEq, false_iff]
        rintro ⟨xs, ys, he, hx⟩
        cases xs with
        | nil => simp [extent] at hx; omega
        | cons x xs =>
          obtain ⟨rfl, -⟩ := List.cons.inj he
          simp only [extent] at hx; omega
      · rename_i h
        rw [ih]
        constructor
        · rintro ⟨xs, ys, rfl, hx⟩
          exact ⟨v :: xs, ys, rfl, by simp only [extent]; omega⟩
        · rintro ⟨xs, ys, he, hx⟩
          cases xs with
          | nil => simp only [extent] at hx; omega
          | cons x xs =>
            rw [List.cons_append, List.cons.injEq] at he
            obtain ⟨rfl, he⟩ := he
            exact ⟨xs, ys, he, by simp only [extent] at hx; omega⟩

namespace Input

/-- A unit is found at the offset that the units before it cover. -/
theorem unitAt?_eq_some_iff (input : Input U) (o : Nat) (u : U) :
    input.unitAt? o = some u ↔ ∃ xs ys, input.units = xs ++ u :: ys ∧ extent xs = o := by
  rw [unitAt?_eq, layout_getElem?_eq_some]

theorem unitAt?_lt {input : Input U} {o : Nat} {u : U} (h : input.unitAt? o = some u) :
    o + InputUnit.width u ≤ input.length := by
  obtain ⟨xs, ys, hu, rfl⟩ := (unitAt?_eq_some_iff input o u).1 h
  rw [length_eq, hu, extent_append]
  simp only [extent]; omega

/-- A boundary is an offset that the units before some place cover. -/
theorem isBoundary_iff (input : Input U) (o : Nat) :
    input.isBoundary o = true ↔ ∃ xs ys, input.units = xs ++ ys ∧ extent xs = o := by
  simp only [isBoundary, Bool.or_eq_true, beq_iff_eq, Option.isSome_iff_exists,
    unitAt?_eq_some_iff]
  constructor
  · rintro (rfl | ⟨u, xs, ys, h, hx⟩)
    · exact ⟨input.units, [], by simp, (length_eq input).symm⟩
    · exact ⟨xs, u :: ys, h, hx⟩
  · rintro ⟨xs, ys, h, hx⟩
    cases ys with
    | nil => left; rw [length_eq, h, ← hx]; simp
    | cons y ys => exact Or.inr ⟨y, xs, ys, h, hx⟩

end Input

end Peg
