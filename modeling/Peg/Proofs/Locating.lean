import Mathlib.Data.List.Induction
import Mathlib.Data.Prod.Lex
import Peg.Location
import Peg.Proofs.WellNested

/-
  Locating: the location of an offset is where a walk over the text before it ends, and its column
  is counted from the offset just past the last newline. Later offsets have later locations, so a
  location says which offset it belongs to (`locations_follow_text`).
-/

namespace Peg

namespace Location

/-! ## Walking over text -/

/-- Where every text starts. -/
def first : Location := ⟨1, 1⟩

/-- The location past a character at a location. -/
def next (location : Location) (c : Char) : Location :=
  if c = '\n' then ⟨location.line + 1, 1⟩ else ⟨location.line, location.column + 1⟩

theorem past_concat (text : List Char) (c : Char) : past (text ++ [c]) = (past text).next c := by
  unfold past next
  rw [List.reverse_append, List.reverse_singleton, List.singleton_append, List.count_append]
  by_cases hc : c = '\n'
  · rw [if_pos hc, List.takeWhile_cons_of_neg (by simp [hc]), hc]
    rfl
  · rw [if_neg hc, List.takeWhile_cons_of_pos (by simp [hc]), List.count_singleton,
      if_neg (by simpa using hc)]
    rfl

/-- To count lines and columns is to walk over the text. -/
theorem past_eq_walk (text : List Char) : past text = text.foldl next first := by
  induction text using List.reverseRecOn with
  | nil => rfl
  | append_singleton text c ih => rw [past_concat, ih, List.foldl_append]; rfl

/-! ## Which location comes first -/

/-- Locations are ordered by line, and within a line by column. -/
instance : Preorder Location := .lift fun location => toLex (location.line, location.column)

theorem lt_iff {a b : Location} :
    a < b ↔ a.line < b.line ∨ a.line = b.line ∧ a.column < b.column :=
  Prod.Lex.lt_iff

theorem lt_next (location : Location) (c : Char) : location < location.next c := by
  rw [lt_iff]
  unfold next
  split
  · exact Or.inl (Nat.lt_succ_self _)
  · exact Or.inr ⟨rfl, Nat.lt_succ_self _⟩

theorem lt_walk (location : Location) {text : List Char} (h : text ≠ []) :
    location < text.foldl next location := by
  induction text generalizing location with
  | nil => exact absurd rfl h
  | cons c text ih =>
    cases text with
    | nil => exact location.lt_next c
    | cons d text => exact (location.lt_next c).trans (ih _ (List.cons_ne_nil d text))

end Location

/-! ## Where the line of an offset starts -/

namespace Input

variable {input : Input Char}

/-- The offset just past the last newline before an offset; that of the beginning if there is
none. -/
def lineStart (input : Input Char) : Nat → Nat
  | 0 => 0
  | offset + 1 => if input.unitAt? offset = some '\n' then offset + 1 else input.lineStart offset

/-- The search for a newline goes back over offsets at which none stands. -/
theorem lineStart_add {offset : Nat} (count : Nat)
    (h : ∀ i < count, input.unitAt? (offset + i) ≠ some '\n') :
    input.lineStart (offset + count) = input.lineStart offset := by
  induction count with
  | zero => rfl
  | succ count ih =>
    rw [← Nat.add_assoc, lineStart, if_neg (h count (Nat.lt_succ_self _))]
    exact ih fun i hi => h i (Nat.lt_succ_of_lt hi)

/-- Where a unit stands, no other starts before it ends. -/
theorem Stands.eq_of_unitAt? {offset i : Nat} {c d : Char} {rest : List Char}
    (h : input.Stands offset (c :: rest)) (hi : i < InputUnit.width c)
    (hd : input.unitAt? (offset + i) = some d) : d = c := by
  obtain ⟨before, hu, rfl⟩ := h
  obtain ⟨xs, ys, hu', hx⟩ := (input.unitAt?_eq_some_iff _ _).1 hd
  rcases List.append_eq_append_iff.1 (hu.symm.trans hu') with ⟨more, rfl, hm⟩ | ⟨more, rfl, hm⟩
  · cases more with
    | nil => exact (List.cons.inj hm).1.symm
    | cons e more =>
      obtain ⟨rfl, -⟩ := List.cons.inj hm
      rw [extent_append, extent] at hx
      omega
  · cases more with
    | nil => exact (List.cons.inj hm).1
    | cons e more =>
      have := InputUnit.width_pos e
      rw [extent_append, extent] at hx
      omega

/-- The text before an offset ends in a line, which starts where the search for a newline ends and
is as long as the column says. -/
theorem lineStart_spec {before after : List Char} (hu : input.units = before ++ after) :
    ∃ earlier line, before = earlier ++ line ∧ extent earlier = input.lineStart (extent before) ∧
      '\n' ∉ line ∧ (Location.past before).column = line.length + 1 := by
  induction before using List.reverseRecOn generalizing after with
  | nil => exact ⟨[], [], rfl, rfl, nofun, rfl⟩
  | append_singleton before c ih =>
    rw [List.append_assoc, List.singleton_append] at hu
    obtain ⟨earlier, line, rfl, he, hnone, hcol⟩ := ih hu
    have hstands : input.Stands (extent (earlier ++ line)) (c :: after) := ⟨_, hu, rfl⟩
    have hx : extent (earlier ++ line ++ [c]) = extent (earlier ++ line) + InputUnit.width c :=
      extent_append _ _
    rw [Location.past_concat, Location.next, hx]
    by_cases hc : c = '\n'
    · -- The newline is one byte wide, so it is found at once.
      subst hc
      refine ⟨earlier ++ line ++ ['\n'], [], (List.append_nil _).symm, ?_, nofun, rfl⟩
      have hn : InputUnit.width '\n' = 1 := rfl
      rw [hx, hn, lineStart, if_pos hstands.unitAt?_cons]
    · refine ⟨earlier, line ++ [c], by rw [List.append_assoc], ?_, ?_, ?_⟩
      · rw [lineStart_add, he]
        intro i hi hd
        exact hc (hstands.eq_of_unitAt? hi hd).symm
      · simp [hnone, Ne.symm hc]
      · rw [if_neg hc, List.length_append, List.length_singleton]
        exact congrArg (· + 1) hcol

end Input

/-! ## Locations of offsets -/

section

variable {input : Input Char}

theorem Location.of_extent {before after : List Char} (hu : input.units = before ++ after) :
    Location.of input (extent before) = before.foldl Location.next .first := by
  have hs : input.Stands 0 (before ++ after) := ⟨[], hu, rfl⟩
  have hslice := hs.slice?
  rw [Nat.zero_add] at hslice
  rw [Location.of, hslice, Option.getD_some, Location.past_eq_walk]

theorem Location.of_length : Location.of input input.length = input.units.foldl next first := by
  rw [input.length_eq]
  exact of_extent (List.append_nil _).symm

theorem Location.of_not_boundary {offset : Nat} (h : input.isBoundary offset = false) :
    Location.of input offset = Location.of input input.length := by
  have hn : input.slice? 0 offset = none := by
    rw [Input.slice?, h, Bool.and_false]
    rfl
  rw [Location.of_length, Location.of, hn, Option.getD_none, past_eq_walk]

theorem Location.of_lt_of {offset offset' : Nat} (h : input.isBoundary offset = true)
    (h' : input.isBoundary offset' = true) (hlt : offset < offset') :
    Location.of input offset < Location.of input offset' := by
  obtain ⟨before, inside, after, hu, rfl, rfl, -⟩ := Input.slice?_eq_some (Nat.le_of_lt hlt) h h'
  have hne : inside ≠ [] := by
    rintro rfl
    rw [List.append_nil] at hlt
    exact Nat.lt_irrefl _ hlt
  rw [of_extent hu, of_extent ((List.append_assoc _ _ _).symm.trans hu.symm).symm,
    List.foldl_append]
  exact lt_walk _ hne

/-- The location of a boundary is where a walk over the text before it ends, and its column is
counted from the last newline; that of an offset past the end, or inside a character, is the
location of the end. Later boundaries have later locations, so no two share one. -/
theorem locations_follow_text (input : Input Char) :
    (∀ offset, input.isBoundary offset = true → ∃ before after line,
      input.units = before ++ after ∧ extent before = offset ∧
      Location.of input offset = before.foldl Location.next .first ∧
      input.slice? (input.lineStart offset) offset = some line ∧ '\n' ∉ line ∧
      (Location.of input offset).column = line.length + 1) ∧
    (∀ offset, input.length ≤ offset ∨ input.isBoundary offset = false →
      Location.of input offset = input.units.foldl Location.next .first ∧
      Location.of input offset = Location.of input input.length) ∧
    StrictMonoOn (Location.of input) {offset | input.isBoundary offset = true} ∧
    Set.InjOn (Location.of input) {offset | input.isBoundary offset = true} := by
  have hmono : StrictMonoOn (Location.of input) {offset | input.isBoundary offset = true} :=
    fun _ h _ h' hlt => Location.of_lt_of h h' hlt
  refine ⟨fun offset h => ?_, fun offset h => ?_, hmono, hmono.injOn⟩
  · obtain ⟨before, after, hu, rfl⟩ := (input.isBoundary_iff offset).1 h
    obtain ⟨earlier, line, rfl, he, hnone, hcol⟩ := Input.lineStart_spec hu
    have hs : input.Stands (extent earlier) (line ++ after) := by
      exact ⟨earlier, by rw [hu, List.append_assoc], rfl⟩
    refine ⟨_, after, line, hu, rfl, Location.of_extent hu, ?_, hnone, ?_⟩
    · rw [← he, extent_append]
      exact hs.slice?
    · rw [Location.of_extent hu, ← Location.past_eq_walk]
      exact hcol
  · have heq : Location.of input offset = Location.of input input.length := by
      rcases h with h | h
      · rcases Nat.eq_or_lt_of_le h with rfl | hlt
        · rfl
        · refine Location.of_not_boundary (Bool.eq_false_iff.2 fun hb => ?_)
          exact Nat.not_le_of_lt hlt (Input.le_length_of_isBoundary hb)
      · exact Location.of_not_boundary h
    exact ⟨heq.trans Location.of_length, heq⟩

/-- Of four lines, the second ends in a character of two bytes and the third is empty. -/
theorem locations_follow_text_four_lines :
    let input : Input Char := .ofList ['a', 'b', '\n', 'c', 'd', 'é', '\n', '\n', 'f']
    input.isBoundary 7 = true ∧ Location.of input 7 = ⟨2, 4⟩ ∧ input.isBoundary 8 = true ∧
    Location.of input 7 < Location.of input 8 ∧ input.length ≤ 99 ∧
    Location.of input 99 = ⟨4, 2⟩ := by
  intro input
  have h7 : input.isBoundary 7 = true := by decide +kernel
  have h8 : input.isBoundary 8 = true := by decide +kernel
  have hlen : input.length ≤ 99 := by decide +kernel
  obtain ⟨hwalk, hpast, hmono, -⟩ := locations_follow_text input
  obtain ⟨before, after, -, hu, hx, hof, -⟩ := hwalk 7 h7
  have hu : before ++ after = ['a', 'b', '\n', 'c', 'd', 'é'] ++ ['\n', '\n', 'f'] := hu.symm
  obtain rfl := eq_of_extent_eq hu hx
  exact ⟨h7, hof, h8, hmono h7 h8 (by decide), hlen, (hpast 99 (.inl hlen)).1⟩

end

end Peg
