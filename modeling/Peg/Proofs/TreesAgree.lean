import Peg.Proofs.Nesting
import Peg.Proofs.Shadow
import Peg.Sample.Grammar

/-
  The node trees agree. A counter of open nodes and a row of slots are shadows of an array without
  limit: a match over the counter has the same result but for the nodes, and a match over the row
  has the very same result if the row is as large as the array ever was, and else finds no room
  (`trees_agree`).
-/

namespace Peg

variable {L : Type}

/-! ## A row of slots against an array -/

namespace SlotRow

theorem capacity_push? {row row' : SlotRow L} {node : Node L} (h : row.push? node = some row') :
    row'.capacity = row.capacity := by
  obtain ⟨-, rfl⟩ := push?_eq_some h
  exact Array.size_setIfInBounds

theorem capacity_truncate (row : SlotRow L) (n : Nat) :
    (row.truncate n).capacity = row.capacity := by
  unfold truncate
  split
  · exact size_vacate _ _ _
  · rfl

theorem capacity_modify (row : SlotRow L) (i : Nat) (f : Node L → Node L) :
    (row.modify i f).capacity = row.capacity :=
  Array.size_modify

/-- What is freed is emptied, so a row that is empty past its end stays so. -/
theorem get?_truncate_of_le {row : SlotRow L} (he : ∀ i ≥ row.used, row.get? i = none) {n i : Nat}
    (hi : n ≤ i) : (row.truncate n).get? i = none := by
  unfold truncate
  split
  · show ((vacate row.cells n (row.used - n))[i]?).join = none
    rw [join_vacate]
    split
    · rfl
    · exact he i (by omega)
  · exact he i (by omega)

end SlotRow

/-- The row holds what the array does, and nothing past it. -/
structure Fills (capacity : Nat) (array : ArrayTree L) (row : RowTree L) : Prop where
  capacity_eq : row.slots.capacity = capacity
  size_le : array.size ≤ capacity
  size_eq : row.size = array.size
  innermost_eq : row.innermost = array.innermost
  get?_eq : ∀ i, row.get? i = array.get? i

namespace Fills

variable {capacity : Nat} {array array' : ArrayTree L} {row row' : RowTree L} {label : L}

theorem mark_eq (h : Fills capacity array row) : row.mark = array.mark := by
  unfold Arena.mark
  rw [h.size_eq, h.innermost_eq]

theorem toList_eq (h : Fills capacity array row) : row.toList = array.toList := by
  have hs : Slots.size row.slots = Slots.size array.slots := h.size_eq
  unfold Arena.toList Slots.toList
  rw [hs]
  exact List.filterMap_congr fun i _ => h.get?_eq i

/-- The array ends where the row does, so the row is empty from there on. -/
theorem get?_of_le (h : Fills capacity array row) {i : Nat} (hi : i ≥ row.slots.used) :
    row.slots.get? i = none := by
  have hs : array.slots.size = row.slots.used := h.size_eq.symm
  have hn : row.slots.get? i = array.slots[i]? := h.get?_eq i
  rw [hn]
  exact Array.getElem?_eq_none (by omega)

theorem rewind (h : Fills capacity array row) (mark : Mark) :
    Fills capacity (array.rewind mark) (row.rewind mark) := by
  have hs : (array.rewind mark).size = min mark.size array.size :=
    LawfulSlots.size_truncate array.slots mark.size
  refine ⟨?_, ?_, ?_, rfl, ?_⟩
  · exact (SlotRow.capacity_truncate row.slots mark.size).trans h.capacity_eq
  · have := h.size_le
    omega
  · rw [hs, ← h.size_eq]
    exact LawfulSlots.size_truncate row.slots mark.size
  · intro i
    by_cases hi : i < mark.size
    · have ha : (array.rewind mark).get? i = array.get? i := LawfulSlots.get?_truncate _ hi
      have hr : (row.rewind mark).get? i = row.get? i := LawfulSlots.get?_truncate _ hi
      rw [ha, hr, h.get?_eq]
    · have ha : (array.rewind mark).get? i = none := by
        have hs : (array.rewind mark).slots.size = min mark.size array.slots.size := hs
        exact Array.getElem?_eq_none (by omega)
      rw [ha]
      exact SlotRow.get?_truncate_of_le (fun j hj => h.get?_of_le hj) (by omega)

/-- A node is opened in the row too, if it is large enough to hold it. -/
theorem openNode? {start : Nat} (h : Fills capacity array row)
    (ho : array.openNode? label start = some array') :
    (∃ row', row.openNode? label start = some row' ∧ Fills capacity array' row') ∨
      ¬ array'.size ≤ capacity ∧ row.openNode? label start = none := by
  obtain ⟨slots, hp, rfl⟩ := Option.map_eq_some_iff.1 ho
  have hs : Slots.size slots = array.size + 1 := LawfulSlots.size_push hp
  have hu : row.slots.used = array.size := h.size_eq
  have hc := h.capacity_eq
  by_cases hlt : row.slots.used < row.slots.capacity
  · obtain ⟨slots', hp'⟩ : ∃ slots',
        Slots.push? row.slots ⟨label, start, start, row.innermost⟩ = some slots' := by
      show ∃ slots', row.slots.push? _ = some slots'
      unfold SlotRow.push?
      rw [if_pos hlt]
      exact ⟨_, rfl⟩
    refine Or.inl ⟨_, Option.map_eq_some_iff.2 ⟨slots', hp', rfl⟩, ?_, ?_, ?_, ?_, ?_⟩
    · exact (SlotRow.capacity_push? hp').trans hc
    · show Slots.size slots ≤ capacity
      omega
    · show Slots.size slots' = Slots.size slots
      rw [LawfulSlots.size_push hp', hs]
      exact congrArg (· + 1) h.size_eq
    · exact congrArg some h.size_eq
    · intro i
      have ha : Slots.get? slots i = _ := LawfulSlots.get?_push hp i
      have hr : Slots.get? slots' i = _ := LawfulSlots.get?_push hp' i
      have hi : Slots.get? row.slots i = Slots.get? array.slots i := h.get?_eq i
      have hs : Slots.size row.slots = Slots.size array.slots := h.size_eq
      show Slots.get? slots' i = Slots.get? slots i
      rw [ha, hr, hi, hs, h.innermost_eq]
  · refine Or.inr ⟨?_, Option.map_eq_none_iff.2 (if_neg hlt)⟩
    show ¬ Slots.size slots ≤ capacity
    omega

theorem empty (cells : Array (Option (Node L))) :
    Fills cells.size (TrailTree.empty : TrailTree L).arena (.ofSlots (.reuse cells)) where
  capacity_eq := Array.size_map
  size_le := Nat.zero_le _
  size_eq := rfl
  innermost_eq := rfl
  get?_eq i := by
    show ((cells.map fun _ => none)[i]?).join = (#[] : Array (Node L))[i]?
    rw [Array.getElem?_map]
    cases cells[i]? <;> rfl

theorem modify (h : Fills capacity array row) (i : Nat) (f : Node L → Node L)
    (innermost : Option Nat) : Fills capacity ⟨Slots.modify array.slots i f, innermost⟩
      ⟨Slots.modify row.slots i f, innermost⟩ := by
  refine ⟨(SlotRow.capacity_modify _ _ _).trans h.capacity_eq, ?_, ?_, rfl, ?_⟩
  · show Slots.size (Slots.modify array.slots _ _) ≤ capacity
    rw [LawfulSlots.size_modify]
    exact h.size_le
  · show Slots.size (Slots.modify row.slots _ _) = Slots.size (Slots.modify array.slots _ _)
    rw [LawfulSlots.size_modify, LawfulSlots.size_modify]
    exact h.size_eq
  · intro j
    have hj : Slots.get? row.slots j = Slots.get? array.slots j := h.get?_eq j
    show Slots.get? (Slots.modify row.slots _ _) j = Slots.get? (Slots.modify array.slots _ _) j
    rw [LawfulSlots.get?_modify, LawfulSlots.get?_modify, hj]

variable [DecidableEq L]

theorem complete {stop : Nat} (h : Fills capacity array row)
    (ha : array.complete label stop = .ok array') (hr : row.complete label stop = .ok row') :
    Fills capacity array' row' := by
  obtain ⟨i, node, hi, hn, rfl⟩ := Arena.complete_eq_ok ha
  obtain ⟨i', node', hi', hn', rfl⟩ := Arena.complete_eq_ok hr
  obtain rfl : i' = i := by simpa [hi, hi'] using h.innermost_eq
  obtain rfl : node' = node := by simpa [hn, hn'] using h.get?_eq i'
  exact h.modify _ _ _

theorem abandon (h : Fills capacity array row) (ha : array.abandon label = .ok array')
    (hr : row.abandon label = .ok row') : Fills capacity array' row' := by
  obtain ⟨i, hi, rfl⟩ := Arena.abandon_eq_ok ha
  obtain ⟨i', hi', rfl⟩ := Arena.abandon_eq_ok hr
  obtain rfl : i' = i := by simpa [hi, hi'] using h.innermost_eq
  have hp : row.parent? i' = array.parent? i' := by
    unfold Arena.parent?
    rw [h.get?_eq]
  rw [hp]
  exact h.rewind _

end Fills

/-! ## Shadows of an array -/

section

variable {U : Type} [InputUnit U] (input : Input U) [DecidableEq L]

/-- A counter knows nothing of the nodes. -/
def depthShadow : Shadow input input (TrailTree L) (DepthTree L) where
  toAlignment := .refl input
  Rel _ _ := True
  Fits _ := True
  fits _ := trivial
  rewind _ _ := trivial
  opened _ _ _ := Or.inl ⟨_, rfl, trivial⟩
  full _ _ h := by cases h
  complete _ _ _ _ _ _ := trivial
  abandon _ _ _ _ _ := trivial
  unwind _ _ := trivial

/-- A row holds what the array does as long as there is room. -/
def rowShadow (capacity : Nat) : Shadow input input (TrailTree L) (RowTree L) where
  toAlignment := .refl input
  Rel tree row := Fills capacity tree.arena row
  Fits tree := tree.arena.size ≤ capacity
  fits h := h.size_le
  rewind {t t' u u'} h h' := by
    show Fills capacity (t'.arena.rewind t.arena.mark) (u'.rewind u.mark)
    rw [h.mark_eq]
    exact h'.rewind _
  opened h hb ho := by
    obtain rfl := hb
    obtain ⟨arena, ha, rfl⟩ := Option.map_eq_some_iff.1 ho
    exact h.openNode? ha
  full _ _ h := by cases h
  complete {t t' u u' label a b} h hb _ ht _ hu := by
    obtain rfl : b = a := hb
    obtain ⟨arena, ha, rfl⟩ := of_map_eq_ok ht
    exact h.complete ha hu
  abandon {t t' u u' label} h _ ht _ hu := by
    obtain ⟨arena, ha, rfl⟩ := of_map_eq_ok ht
    exact h.abandon ha hu
  unwind _ h := h

end

namespace Matching

variable {U : Type} [InputUnit U]

/-- How many nodes there were at most when an attempt was begun. -/
def Course.peak (course : Course U L (TrailTree L) Mark) : Nat :=
  (course.attempts.map (·.cursor.tree.arena.size)).foldr max 0

omit [InputUnit U] in
theorem Course.peak_le_iff {course : Course U L (TrailTree L) Mark} {n : Nat} :
    course.peak ≤ n ↔ ∀ attempt ∈ course.attempts, attempt.cursor.tree.arena.size ≤ n := by
  unfold peak
  induction course.attempts with
  | nil => simp
  | cons attempt attempts ih =>
    rw [List.map_cons, List.foldr_cons, Nat.max_le, ih, List.forall_mem_cons]

variable [DecidableEq U] [DecidableEq L]

/-- The result of the counter is the same but for the nodes. The position of a hard failure says how
many nodes were open where it was raised. -/
structure CountsFor (setting : Setting U L) (rule : Rule U L)
    (result : Result (TrailTree L) L Mark) (counted : Result (DepthTree L) L Nat) : Prop where
  outcome_eq : counted.outcome.map Position.offset = result.outcome.map Position.offset
  offset_eq : counted.cursor.offset = result.cursor.offset
  mark_eq : ∀ position, result.outcome = .failed (.mandatory position) →
    ∃ (course origin : Course U L (TrailTree L) Mark) (n : Nat),
      Course.Traces setting rule (.start .empty) result course ∧
      origin.attempts <:+ course.attempts ∧ origin.Fails (.mandatory position) ∧
      origin.result.cursor.position = position ∧
      origin.result.cursor.tree.arena.openDepth? = some n ∧
      counted.outcome = .failed (.mandatory ⟨position.offset, n⟩)

/-- The result over the row is the very same. -/
structure SameFor (result : Result (TrailTree L) L Mark) (row : Result (RowTree L) L Mark) :
    Prop where
  outcome_eq : row.outcome = result.outcome
  offset_eq : row.cursor.offset = result.cursor.offset
  nodes_eq : row.cursor.tree.toList = result.cursor.tree.arena.toList

variable {input : Input U} {references : Nat → Reference U L} {rule : Rule U L}
  {result : Result (TrailTree L) L Mark}

omit [DecidableEq L] in
/-- Where a hard failure is raised in a match over an empty tree, as many nodes are open as the log
ends with labels. -/
theorem openDepth?_of_raised {labels : List L} {ids : List Nat} {now : ArrayTree L}
    (h : (TrailTree.empty : TrailTree L).arena.OpenedSince now ids labels) :
    now.openDepth? = some labels.length := by
  have hw : (TrailTree.empty : TrailTree L).arena.Ordered := ⟨nofun, fun i hi => by cases hi⟩
  obtain ⟨outer, hb, hn⟩ := h.openNodes?_eq hw
  obtain rfl : [] = outer := by simpa [Arena.openNodes?, Arena.outwards?, TrailTree.empty,
    Arena.ofSlots] using hb
  unfold Arena.openDepth?
  rw [hn, Option.map_some, List.append_nil, h.length_eq]

theorem returns_counted (h : Returns ⟨input, references, .text⟩ rule (.start .empty) result) :
    ∃ counted : Result (DepthTree L) L Nat,
      Returns ⟨input, references, .text⟩ rule (.start .empty) counted ∧
      CountsFor ⟨input, references, .text⟩ rule result counted := by
  obtain ⟨⟨rule, cursor, parts, result⟩, hc⟩ := h.traced
  obtain ⟨hh, rfl, rfl, rfl, -⟩ := id hc
  have hs : (depthShadow input).Cursors (.start .empty) (.start (.empty : DepthTree L)) :=
    ⟨rfl, trivial⟩
  obtain ⟨parts', counted, hg, hf⟩ := Shadow.goes_follows rfl hh .rule hs
  have hr := (hf.resolve_right fun hx => hx.1 fun _ _ => trivial).2
  have ho : counted.outcome.map Position.offset = result.outcome.map Position.offset :=
    hr.outcome.map_eq fun _ _ hp => hp.1
  refine ⟨counted, returns_iff_goes.2 ⟨parts', hg⟩, ho, hr.cursor.at_offset, ?_⟩
  intro position hm
  obtain ⟨origin, hraised, hlast, hpos, ids, hi⟩ := goes_raises hh _ hm
  have ha := hr.outcome
  rw [hm] at ha
  obtain ⟨⟨offset, mark⟩, hm', hoff, -⟩ := ha.of_mandatory
  obtain rfl : offset = position.offset := hoff
  obtain ⟨origin', -, -, hpos', hi'⟩ := goes_raises hg _ hm'
  have hmark : mark = (Event.lastLabels result.events).length := by
    have hl : Event.lastLabels result.events = Event.lastLabels counted.events :=
      Event.lastLabels_alike hr.events
    have hd : origin'.result.cursor.tree.depth = 0 + (Event.lastLabels counted.events).length := hi'
    have hm : origin'.result.cursor.tree.depth = mark := congrArg Position.mark (hpos' _ rfl)
    rw [hl, ← hm, hd, Nat.zero_add]
  rw [hmark] at hm'
  exact ⟨_, origin, _, hc, hlast, hraised, hpos position rfl, openDepth?_of_raised hi, hm'⟩

/-- A row of slots is too small exactly if the tree was ever larger. -/
theorem happens_in_row {course : Course U L (TrailTree L) Mark}
    (h : course.Happens ⟨input, references, .text⟩) (hc : course.cursor = .start .empty)
    (cells : Array (Option (Node L))) : ∃ row : Result (RowTree L) L Mark,
      Returns ⟨input, references, .text⟩ course.rule (.start (.ofSlots (.reuse cells))) row ∧
      (course.peak ≤ cells.size → SameFor course.result row) ∧
      (cells.size < course.peak → row.outcome = .failed .exhausted) := by
  have hs : (rowShadow input cells.size).Cursors course.cursor
      (.start (.ofSlots (.reuse cells))) := by
    rw [hc]
    exact ⟨rfl, .empty cells⟩
  have hfit : (rowShadow input cells.size).Fit course.parts ↔ course.peak ≤ cells.size := by
    rw [Course.peak_le_iff, attempts_eq, List.forall_mem_cons]
    exact ⟨fun h => ⟨hs.tree.size_le, h⟩, fun h => h.2⟩
  obtain ⟨row, hr, hf⟩ := Shadow.returns_follows rfl h hs
  refine ⟨row, hr, fun hp => ?_, fun hp => ?_⟩
  · have hr := (hf.resolve_right fun hx => hx.1 (hfit.2 hp)).2
    have ho : row.outcome.map id = course.result.outcome.map id := hr.outcome.map_eq <| by
      rintro ⟨offset, mark⟩ ⟨offset', mark'⟩ ⟨ho, t, u, hu, ht, ht'⟩
      obtain rfl : offset' = offset := ho
      obtain rfl : mark = t.arena.mark := ht
      obtain rfl : mark' = u.mark := ht'
      exact congrArg (Position.mk offset') hu.mark_eq
    rw [Outcome.map_id, Outcome.map_id] at ho
    exact ⟨ho, hr.cursor.at_offset, hr.cursor.tree.toList_eq⟩
  · exact (hf.resolve_left fun hx => absurd (hfit.1 hx.1) (by omega)).2

/-- A match that returns over an empty tree without limit returns over a counter with the same
outcome at the same offset, and over every row of slots: with the same outcome, offset and nodes if
the row has as many slots as the tree ever had nodes, and else for want of room. -/
theorem trees_agree (input : Input U) (references : Nat → Reference U L) (rule : Rule U L)
    (result : Result (TrailTree L) L Mark)
    (h : Returns ⟨input, references, .text⟩ rule (.start .empty) result) :
    (∃ counted : Result (DepthTree L) L Nat,
      Returns ⟨input, references, .text⟩ rule (.start .empty) counted ∧
      CountsFor ⟨input, references, .text⟩ rule result counted) ∧
    ∃ course, Course.Traces ⟨input, references, .text⟩ rule (.start .empty) result course ∧
      ∀ cells : Array (Option (Node L)), ∃ row : Result (RowTree L) L Mark,
        Returns ⟨input, references, .text⟩ rule (.start (.ofSlots (.reuse cells))) row ∧
        (course.peak ≤ cells.size → SameFor result row) ∧
        (cells.size < course.peak → row.outcome = .failed .exhausted) := by
  obtain ⟨course, hc⟩ := h.traced
  obtain ⟨hh, rfl, hcursor, rfl, -⟩ := id hc
  exact ⟨returns_counted h, course, hc, happens_in_row hh hcursor⟩

/-- The list `(1, x` is not closed. Six nodes are stored while it is matched, and none in the end;
one is open where the failure is raised. -/
theorem trees_agree_unclosed_list :
    let setting : Setting Char Sample.Label :=
      ⟨.ofList ['(', '1', ',', 'x'], Sample.workspace.registry.lookup, .text⟩
    ∃ result : Result (TrailTree Sample.Label) Sample.Label Mark,
      Returns setting Sample.listRule (.start .empty) result ∧
      result.outcome = .failed (.mandatory ⟨1, ⟨1, some 0⟩⟩) ∧
      result.cursor.tree.arena.toList = [] ∧
      (∃ counted : Result (DepthTree Sample.Label) Sample.Label Nat,
        Returns setting Sample.listRule (.start .empty) counted ∧
        counted.outcome = .failed (.mandatory ⟨1, 1⟩) ∧
        CountsFor setting Sample.listRule result counted) ∧
      ∃ course, Course.Traces setting Sample.listRule (.start .empty) result course ∧
        course.peak = 6 ∧ ∀ cells : Array (Option (Node Sample.Label)),
          ∃ row : Result (RowTree Sample.Label) Sample.Label Mark,
            Returns setting Sample.listRule (.start (.ofSlots (.reuse cells))) row ∧
            (course.peak ≤ cells.size → SameFor result row) ∧
            (cells.size < course.peak → row.outcome = .failed .exhausted) := by
  intro setting
  let row (n : Nat) : Cursor (RowTree Sample.Label) :=
    .start (.ofSlots (.reuse (Array.replicate n none)))
  have h : (run setting 20 Sample.listRule (.start (.empty : TrailTree Sample.Label))).map
      (fun result => (result.outcome, result.cursor.tree.arena.toList)) =
      some (.failed (.mandatory ⟨1, ⟨1, some 0⟩⟩), []) := by decide +kernel
  have hd : (run setting 20 Sample.listRule (.start (.empty : DepthTree Sample.Label))).map
      (·.outcome) = some (.failed (.mandatory ⟨1, 1⟩)) := by decide +kernel
  have h5 : (run setting 20 Sample.listRule (row 5)).map (·.outcome) =
      some (.failed .exhausted) := by decide +kernel
  have h6 : (run setting 20 Sample.listRule (row 6)).map (·.outcome) =
      some (.failed (.mandatory ⟨1, ⟨1, some 0⟩⟩)) := by decide +kernel
  obtain ⟨result, hr, hs⟩ := Option.map_eq_some_iff.1 h
  obtain ⟨ho, hn⟩ := Prod.mk.inj hs
  obtain ⟨counted, hcr, hco⟩ := Option.map_eq_some_iff.1 hd
  obtain ⟨row5, hr5, ho5⟩ := Option.map_eq_some_iff.1 h5
  obtain ⟨row6, hr6, ho6⟩ := Option.map_eq_some_iff.1 h6
  obtain ⟨⟨counted', hcr', hc⟩, course, ht, hrow⟩ :=
    trees_agree setting.input setting.references Sample.listRule result ⟨20, hr⟩
  obtain rfl := Returns.unique setting ⟨20, hcr⟩ hcr'
  refine ⟨result, ⟨20, hr⟩, ho, hn, ⟨counted, hcr', hco, hc⟩, course, ht, ?_, hrow⟩
  obtain ⟨last, hl, hsame, -⟩ := hrow (Array.replicate 5 none)
  obtain ⟨last', hl', -, hfull⟩ := hrow (Array.replicate 6 none)
  obtain rfl := Returns.unique setting ⟨20, hr5⟩ hl
  obtain rfl := Returns.unique setting ⟨20, hr6⟩ hl'
  rw [Array.size_replicate] at hsame hfull
  have hle : ¬ course.peak ≤ 5 := by
    intro hp
    have := (hsame hp).outcome_eq
    rw [ho5, ho] at this
    cases this
  have hge : ¬ 6 < course.peak := by
    intro hp
    have := hfull hp
    rw [ho6] at this
    cases this
  omega

end Matching

end Peg
