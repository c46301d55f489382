import Peg.Proofs.History

/-
  Rewinding: what going back to a mark leaves as it is. A mark is a number of nodes and an index, so
  the nodes stored at the mark are the same again but for where those stop that were open at the
  mark and were completed since (`rewind_restores_all_but_stops`). A mark of more nodes than are
  left can name an innermost open node that is gone: then the next node has a parent that does not
  come before it. As long as no such mark is gone back to, parents come before their children and
  the way outwards ends (`in_place_calls_stay_grounded`).
-/

namespace Peg

namespace Arena

variable {S L : Type} [Slots S L]

/-! ## Grounded arenas -/

/-- The innermost open node of the mark, if there is one, is stored. -/
def inPlace (arena : Arena S) (mark : Mark) : Bool := mark.innermost.all (· < arena.size)

theorem inPlace_lt {arena : Arena S} {mark : Mark} (h : arena.inPlace mark = true) {i : Nat}
    (hi : mark.innermost = some i) : i < arena.size := by
  unfold inPlace at h
  rw [hi] at h
  exact of_decide_eq_true h

theorem grounded_ofSlots {slots : S} (h : Slots.size slots = 0) : (ofSlots slots).Grounded := by
  have hs : (ofSlots slots).size = 0 := h
  exact ⟨⟨nofun, fun i hi => by omega⟩, fun i hi => by omega⟩

namespace Grounded

variable [LawfulSlots S] {arena next : Arena S}

theorem openNode? {label : L} {start : Nat} (h : arena.Grounded)
    (ho : arena.openNode? label start = some next) : next.Grounded := by
  obtain ⟨hlast, hsize, hget⟩ := openNode?_eq_some ho
  refine ⟨⟨fun i hi => ?_, fun i hlt p hp => ?_⟩, fun i hlt => ?_⟩
  · obtain rfl := Option.some.inj (hlast.symm.trans hi)
    omega
  · rw [parent?_openNode? ho] at hp
    split at hp
    · have := h.innermost_lt p hp
      omega
    · exact h.parent_lt i (by omega) p hp
  · rw [hget]
    split
    · exact ⟨_, rfl⟩
    · exact h.stored i (by omega)

/-- A mark can be gone back to if its innermost open node was stored then and is stored now. -/
theorem rewind {mark : Mark} (h : arena.Grounded)
    (hm : ∀ i, mark.innermost = some i → i < mark.size ∧ i < arena.size) :
    (arena.rewind mark).Grounded := by
  have hsize := size_rewind arena mark
  refine ⟨⟨fun i hi => ?_, fun i hlt p hp => ?_⟩, fun i hlt => ?_⟩
  · have := hm i hi
    omega
  · rw [parent?_rewind arena (by omega)] at hp
    exact h.parent_lt i (by omega) p hp
  · rw [get?_rewind arena (by omega)]
    exact h.stored i (by omega)

variable [DecidableEq L]

theorem complete {label : L} {stop : Nat} (h : arena.Grounded)
    (hc : arena.complete label stop = .ok next) : next.Grounded := by
  have hk := parentsKept_complete hc arena.size
  obtain ⟨i, -, hi, -, hparent, hsize, -⟩ := stored_of_complete hc
  rw [← hsize] at hk
  refine ⟨⟨fun p hp => ?_, fun j hlt p hp => ?_⟩, fun j hlt => ?_⟩
  · have hlt := h.innermost_lt i hi
    have := h.parent_lt i hlt p (hparent.symm.trans hp)
    omega
  · rw [hk.parent?_eq hlt] at hp
    exact h.parent_lt j (by omega) p hp
  · obtain ⟨node, hn⟩ := h.stored j (by omega)
    obtain ⟨other, ho, -⟩ := hk.get? hlt hn
    exact ⟨other, ho⟩

theorem abandon {label : L} (h : arena.Grounded) (ha : arena.abandon label = .ok next) :
    next.Grounded := by
  obtain ⟨i, hi, rfl⟩ := abandon_eq_ok ha
  have hlt := h.innermost_lt i hi
  refine h.rewind fun p hp => ?_
  have := h.parent_lt i hlt p hp
  exact ⟨this, by omega⟩

end Grounded

/-! ## What was completed since -/

variable [DecidableEq L]

/-- The arenas that calls lead to without dropping a node that was stored before, and which nodes
these calls completed, each with where it stops, the last one first. -/
inductive Since (before : Arena S) : Arena S → List (Nat × Nat) → Prop
  | start : Since before before []
  | openNode? {now next closed label start} (h : Since before now closed)
      (ho : now.openNode? label start = some next) : Since before next closed
  | complete {now next closed label stop i} (h : Since before now closed)
      (hi : now.innermost = some i) (hc : now.complete label stop = .ok next) :
      Since before next ((i, stop) :: closed)
  | abandon {now next closed label} (h : Since before now closed)
      (ha : now.abandon label = .ok next) (hs : before.size ≤ next.size) :
      Since before next closed

/-- The node at an index, which stops where it was completed if it was. -/
def stopped (closed : List (Nat × Nat)) (i : Nat) (node : Node L) : Node L :=
  { node with stop := (closed.lookup i).getD node.stop }

namespace Since

variable [LawfulSlots S] {before now : Arena S} {closed : List (Nat × Nat)}

/-- A node that was stored before still is, and only where it stops may differ. -/
theorem stored (h : before.Since now closed) : before.size ≤ now.size ∧
    ∀ i < before.size, now.get? i = (before.get? i).map (stopped closed i) := by
  induction h with
  | start =>
    refine ⟨Nat.le_refl _, fun i _ => ?_⟩
    cases before.get? i <;> rfl
  | openNode? _ ho ih =>
    obtain ⟨-, hsize, hget⟩ := openNode?_eq_some ho
    obtain ⟨hle, hstored⟩ := ih
    refine ⟨by omega, fun i hi => ?_⟩
    rw [hget, if_neg (by omega), hstored i hi]
  | @complete now next closed label stop i _ hi hc ih =>
    obtain ⟨j, node, hj, -, -, hsize, hget⟩ := stored_of_complete hc
    obtain rfl := Option.some.inj (hi.symm.trans hj)
    obtain ⟨hle, hstored⟩ := ih
    refine ⟨by omega, fun k hk => ?_⟩
    rw [hget, hstored k hk]
    unfold stopped
    rw [List.lookup_cons]
    by_cases hik : i = k
    · rw [if_pos hik, beq_iff_eq.2 hik.symm, Option.map_map]
      rfl
    · rw [if_neg hik, beq_false_of_ne (Ne.symm hik)]
  | @abandon now next closed label _ ha hs ih =>
    obtain ⟨j, -, rfl⟩ := abandon_eq_ok ha
    have hsize := size_rewind now ⟨j, now.parent? j⟩
    refine ⟨hs, fun i hi => ?_⟩
    have hij : i < j := by
      dsimp only at hsize
      omega
    rw [get?_rewind now hij, ih.2 i hi]

theorem parentsKept (h : before.Since now closed) : before.ParentsKept now before.size := by
  intro i hi
  rw [h.stored.2 i hi, Option.map_map]
  rfl

end Since

/-- The node is the innermost open one or around it. -/
def IsOpen (arena : Arena S) (i : Nat) : Prop := arena.Outwards arena.innermost (some i)

/-- What was opened later is attached to what was open: of the nodes stored before, only those that
were open are open now, or are parents of nodes stored later. -/
structure Attached (before now : Arena S) : Prop where
  grounded : now.Grounded
  innermost : ∀ i, now.innermost = some i → i < before.size → before.IsOpen i
  parents : ∀ j < now.size, before.size ≤ j → ∀ p, now.parent? j = some p → p < before.size →
    before.IsOpen p

namespace Attached

variable [LawfulSlots S] {before now next : Arena S}

omit [LawfulSlots S] [DecidableEq L] in
theorem refl {arena : Arena S} (h : arena.Grounded) : arena.Attached arena where
  grounded := h
  innermost i hi _ := ⟨[], hi ▸ .nil⟩
  parents j hj hle := by omega

omit [LawfulSlots S] [DecidableEq L] in
/-- So it is with the node around the innermost open one. -/
theorem outer (h : before.Attached now) (hk : before.ParentsKept now before.size) {i p : Nat}
    (hi : now.innermost = some i) (hp : now.parent? i = some p) (hlt : p < before.size) :
    before.IsOpen p := by
  by_cases hs : i < before.size
  · -- The innermost open node was open, so the node around it was open too.
    rw [hk.parent?_eq hs] at hp
    obtain ⟨node, hn, hp⟩ := Option.bind_eq_some_iff.1 hp
    obtain ⟨ids, hpath⟩ := h.innermost i hi hs
    exact ⟨ids ++ [i], hp ▸ hpath.concat hn⟩
  · exact h.parents i (h.grounded.innermost_lt i hi) (by omega) p hp hlt

omit [DecidableEq L] in
theorem openNode? {label : L} {start : Nat} (h : before.Attached now) (hle : before.size ≤ now.size)
    (ho : now.openNode? label start = some next) : before.Attached next := by
  obtain ⟨hi, hsize, -⟩ := openNode?_eq_some ho
  refine ⟨h.grounded.openNode? ho, fun i hi' hlt => ?_, fun j hj hge p hp hlt => ?_⟩
  · obtain rfl := Option.some.inj (hi.symm.trans hi')
    omega
  · rw [parent?_openNode? ho] at hp
    split at hp
    · exact h.innermost p hp hlt
    · exact h.parents j (by omega) hge p hp hlt

theorem complete {label : L} {stop : Nat} (h : before.Attached now)
    (hk : before.ParentsKept now before.size) (hc : now.complete label stop = .ok next) :
    before.Attached next := by
  obtain ⟨i, -, hi, -, hparent, hsize, -⟩ := stored_of_complete hc
  refine ⟨h.grounded.complete hc, fun p hp hlt => ?_, fun j hj hge p hp hlt => ?_⟩
  · exact h.outer hk hi (hparent.symm.trans hp) hlt
  · rw [(parentsKept_complete hc _).parent?_eq hj] at hp
    exact h.parents j (by omega) hge p hp hlt

theorem abandon {label : L} (h : before.Attached now) (hk : before.ParentsKept now before.size)
    (ha : now.abandon label = .ok next) : before.Attached next := by
  have hg := h.grounded.abandon ha
  obtain ⟨i, hi, rfl⟩ := abandon_eq_ok ha
  have hsize := size_rewind now ⟨i, now.parent? i⟩
  dsimp only at hsize
  refine ⟨hg, fun p hp hlt => h.outer hk hi hp hlt, fun j hj hge p hp hlt => ?_⟩
  rw [parent?_rewind now (show j < i by omega)] at hp
  exact h.parents j (by omega) hge p hp hlt

end Attached

/-- Of the nodes that were stored before, only such as were open have been completed. -/
theorem Since.closed_isOpen [LawfulSlots S] {before now : Arena S} {closed : List (Nat × Nat)}
    (h : before.Since now closed) (hg : before.Grounded) : before.Attached now ∧
      ∀ i stop, (i, stop) ∈ closed → i < before.size → before.IsOpen i := by
  induction h with
  | start => exact ⟨.refl hg, nofun⟩
  | openNode? h ho ih => exact ⟨ih.1.openNode? h.stored.1 ho, ih.2⟩
  | complete h hi hc ih =>
    refine ⟨ih.1.complete h.parentsKept hc, fun j stop hmem hlt => ?_⟩
    rcases List.mem_cons.1 hmem with heq | hmem
    · cases heq
      exact ih.1.innermost _ hi hlt
    · exact ih.2 j stop hmem hlt
  | abandon h ha _ ih => exact ⟨ih.1.abandon h.parentsKept ha, ih.2⟩

/-- Going back to a mark brings back how many nodes were stored and which was the innermost open
one. Each node is as it was at the mark, but for where it stops: that is where it was completed last
since the mark, if it was. Only nodes that were open at the mark can have been. -/
theorem rewind_restores_all_but_stops [LawfulSlots S] {before now : Arena S}
    {closed : List (Nat × Nat)} (h : before.Since now closed) :
    (now.rewind before.mark).size = before.size ∧
    (now.rewind before.mark).innermost = before.innermost ∧
    (∀ i < before.size,
      (now.rewind before.mark).get? i = (before.get? i).map (stopped closed i)) ∧
    (before.Grounded → ∀ i stop, (i, stop) ∈ closed → i < before.size → before.IsOpen i) := by
  obtain ⟨hle, hstored⟩ := h.stored
  refine ⟨(size_rewind now before.mark).trans (Nat.min_eq_left hle), rfl, fun i hi => ?_,
    fun hg => (h.closed_isOpen hg).2⟩
  rw [get?_rewind now (show i < before.mark.size from hi), hstored i hi]

/-- An entry that was open at the mark and was completed since is open again, and stops where it was
completed. -/
theorem rewind_restores_all_but_stops_entry :
    let before : ArrayTree Sample.Label := ⟨#[⟨.entry, 0, 0, none⟩], some 0⟩
    let now : ArrayTree Sample.Label := ⟨#[⟨.entry, 0, 5, none⟩], none⟩
    before.Since now [(0, 5)] ∧ before.Grounded ∧
      (now.rewind before.mark).get? 0 = (before.get? 0).map (stopped [(0, 5)] 0) ∧
      before.IsOpen 0 := by
  intro before now
  have hc : before.complete .entry 5 = .ok now := by decide
  have ho : (ofSlots #[] : ArrayTree Sample.Label).openNode? .entry 0 = some before := by decide
  have h : before.Since now [(0, 5)] := Since.start.complete rfl hc
  have hg : before.Grounded := (grounded_ofSlots rfl).openNode? ho
  obtain ⟨-, -, hget, hopen⟩ := rewind_restores_all_but_stops h
  exact ⟨h, hg, hget 0 (by decide), hopen hg 0 5 List.mem_cons_self (by decide)⟩

/-- Not every change is undone: an entry that was open at the mark stopped where it started, and
stops where it was completed after going back to the mark. -/
theorem rewind_keeps_stop_of_entry :
    ∃ before now : ArrayTree Sample.Label, ∃ closed,
      Since (ofSlots #[]) before [] ∧ before.Since now closed ∧
      before.toList = [⟨.entry, 0, 0, none⟩] ∧
      (now.rewind before.mark).toList = [⟨.entry, 0, 5, none⟩] := by
  refine ⟨⟨#[⟨.entry, 0, 0, none⟩], some 0⟩, ⟨#[⟨.entry, 0, 5, none⟩], none⟩, [(0, 5)],
    ?_, ?_, by decide, by decide⟩
  · exact Since.start.openNode? (show openNode? _ .entry 0 = _ by decide)
  · exact Since.start.complete rfl (show complete _ .entry 5 = _ by decide)

/-! ## Marks of nodes that are gone -/

omit [DecidableEq L] in
/-- From a node that is its own parent the way outwards does not end. -/
theorem Path.not_out {arena : Arena S} {i : Nat} {node : Node L} {start : Option Nat}
    {ids : List Nat} (hn : arena.get? i = some node) (hp : node.parent = some i)
    (h : arena.Path start ids none) : start ≠ some i := by
  generalize hstop : none = stop at h
  induction h with
  | nil =>
    subst hstop
    nofun
  | @cons j ids other stop hj _ ih =>
    intro hji
    obtain rfl := Option.some.inj hji
    obtain rfl := Option.some.inj (hn.symm.trans hj)
    exact ih hstop hp

omit [DecidableEq L] in
/-- After going back to a mark whose innermost open node is gone, a node does not come after its
parent. -/
theorem parent_of_not_inPlace [LawfulSlots S] {arena next : Arena S} {mark : Mark} {label : L}
    {start : Nat} (h : arena.inPlace mark = false)
    (ho : (arena.rewind mark).openNode? label start = some next) :
    ∃ i, mark.innermost = some i ∧ (arena.rewind mark).size ≤ i ∧
      next.get? (arena.rewind mark).size = some ⟨label, start, start, some i⟩ := by
  obtain ⟨-, -, hget⟩ := openNode?_eq_some ho
  have hsize := size_rewind arena mark
  unfold inPlace at h
  cases hi : mark.innermost with
  | none =>
    rw [hi] at h
    cases h
  | some i =>
    rw [hi] at h
    have hle : ¬ i < arena.size := of_decide_eq_false h
    refine ⟨i, rfl, by omega, ?_⟩
    have hinner : (arena.rewind mark).innermost = some i := hi
    rw [hget, if_pos rfl, hinner]

end Arena

namespace Script

open Arena

variable {T S L : Type}

section

variable [NodeTree T L Mark] [NodeView T L]

/-- The states that calls on an empty tree lead to, of which those that go back go to marks that are
allowed, whenever these were saved. -/
inductive Calls (allowed : T → Mark → Bool) (empty : T) : TreeState T Mark → Prop
  | start : Calls allowed empty ⟨empty, []⟩
  | call {state call answer next} (h : Calls allowed empty state)
      (hr : ∀ name mark, call = .rewind name → state.marks.lookup name = some mark →
        allowed state.tree mark = true)
      (hc : state.call? call = some (answer, next)) : Calls allowed empty next

/-- Make calls one after the other; none if one of them goes back to a mark that is not allowed. -/
def TreeState.make? (allowed : T → Mark → Bool) (state : TreeState T Mark) :
    List (TreeCall L) → Option (TreeState T Mark)
  | [] => some state
  | call :: calls =>
    if (call.goal?.bind fun name => state.marks.lookup name).all (allowed state.tree) then
      (state.call? call).bind fun (_, next) => next.make? allowed calls
    else none

theorem Calls.make {allowed : T → Mark → Bool} {empty : T} {state last : TreeState T Mark}
    {calls : List (TreeCall L)} (h : Calls allowed empty state)
    (hm : state.make? allowed calls = some last) : Calls allowed empty last := by
  induction calls generalizing state with
  | nil =>
    cases hm
    exact h
  | cons call calls ih =>
    unfold TreeState.make? at hm
    split at hm
    · rename_i hr
      obtain ⟨⟨answer, next⟩, hc, hm⟩ := Option.bind_eq_some_iff.1 hm
      refine ih (h.call ?_ hc) hm
      rintro name mark rfl hl
      have hr : (state.marks.lookup name).all (allowed state.tree) = true := hr
      rwa [hl] at hr
    · cases hm

end

variable [Slots S L] [LawfulSlots S] [DecidableEq L]

theorem Effect.grounded {state next : TreeState (Arena S) Mark} {call : TreeCall L}
    (h : Effect state call next) (hg : state.tree.Grounded)
    (hr : ∀ name mark, call = .rewind name → state.marks.lookup name = some mark →
      ∀ i, mark.innermost = some i → i < mark.size ∧ i < state.tree.size) :
    next.tree.Grounded := by
  cases h with
  | same | mark | unwind => exact hg
  | openNode h => exact hg.openNode? h
  | complete h => exact hg.complete h
  | abandon h => exact hg.abandon h
  | rewind h => exact hg.rewind (hr _ _ rfl h)

/-- The arena is grounded, and so was every arena at which a mark was saved. -/
theorem Calls.grounded {empty : Arena S} (he : empty.Grounded) {state : TreeState (Arena S) Mark}
    (h : Calls inPlace empty state) : state.tree.Grounded ∧ ∀ name mark,
      state.marks.lookup name = some mark → ∀ i, mark.innermost = some i → i < mark.size := by
  induction h with
  | start => exact ⟨he, nofun⟩
  | @call state call answer next _ hr hc ih =>
    obtain ⟨hg, hmarks⟩ := ih
    obtain ⟨heffect, -⟩ := effect_of_call hc
    refine ⟨heffect.grounded hg fun name mark hcall hm i hi => ?_, fun name mark hm i hi => ?_⟩
    · exact ⟨hmarks name mark hm i hi, inPlace_lt (hr name mark hcall hm) hi⟩
    · have hn : name ∈ call.saved ++ [name] := List.mem_append_right _ List.mem_cons_self
      -- The mark was saved before the call, or is that of the arena before it.
      rcases heffect.lookup hn with ⟨-, hl⟩ | hl
      · exact hmarks name mark (hl.symm.trans hm) i hi
      · obtain rfl := Option.some.inj (hl.symm.trans hm)
        exact hg.innermost_lt i hi

/-- Whatever is called on an arena that was empty, as long as the innermost open node of each mark
that is gone back to is stored at that moment: each node comes after its parent, the way outwards
from the innermost open node ends, and its length is the depth. After going back to a mark whose
innermost open node is gone, the next node has a parent that it does not come after. -/
theorem in_place_calls_stay_grounded {slots : S} (he : Slots.size slots = 0) :
    (∀ state : TreeState (Arena S) Mark, Calls inPlace (.ofSlots slots) state →
      (∀ i < state.tree.size, ∃ node, state.tree.get? i = some node ∧
        ∀ p, node.parent = some p → p < i) ∧
      ∃ ids, state.tree.Path state.tree.innermost ids none ∧
        state.tree.openDepth? = some ids.length) ∧
    ∀ (arena next : Arena S) (mark : Mark) (label : L) (start : Nat),
      arena.inPlace mark = false → (arena.rewind mark).openNode? label start = some next →
        ∃ i, mark.innermost = some i ∧ (arena.rewind mark).size ≤ i ∧
          next.get? (arena.rewind mark).size = some ⟨label, start, start, some i⟩ := by
  refine ⟨fun state h => ?_, fun _ _ _ _ _ hm ho => parent_of_not_inPlace hm ho⟩
  have hg := (h.grounded (grounded_ofSlots he)).1
  refine ⟨fun i hi => ?_, hg.openDepth?_eq⟩
  obtain ⟨node, hn⟩ := hg.stored i hi
  exact ⟨node, hn, fun p hp => hg.parent_lt i hi p ((parent?_of_get? hn).trans hp)⟩

/-- A mark is gone back to after the list that was open at it was abandoned and an entry was opened
in its place: then the entry is open. With nothing stored in its place, a key would be opened inside
itself. -/
theorem in_place_calls_stay_grounded_entry :
    let emptied : ArrayTree Sample.Label := ⟨#[], none⟩
    let inside : Mark := ⟨2, some 0⟩
    Slots.size (#[] : Array (Node Sample.Label)) = 0 ∧
    (∃ state : TreeState (ArrayTree Sample.Label) Mark,
      Calls inPlace (.ofSlots #[]) state ∧ state.marks.lookup "inside" = some inside ∧
      state.tree = ⟨#[⟨.entry, 0, 0, none⟩, ⟨.key, 0, 0, some 0⟩], some 1⟩ ∧
      ∃ ids, state.tree.Path state.tree.innermost ids none ∧
        state.tree.openDepth? = some ids.length) ∧
    emptied.inPlace inside = false ∧ ∃ next,
      (emptied.rewind inside).openNode? .key 0 = some next ∧ ∃ i, inside.innermost = some i ∧
        (emptied.rewind inside).size ≤ i ∧
        next.get? (emptied.rewind inside).size = some ⟨.key, 0, 0, some i⟩ := by
  intro emptied inside
  have he : Slots.size (#[] : Array (Node Sample.Label)) = 0 := rfl
  obtain ⟨hcalls, hgone⟩ := in_place_calls_stay_grounded he
  refine ⟨he, ?_, by decide, ?_⟩
  · let calls : List (TreeCall Sample.Label) := [.openNode .list 0, .openNode .number 0,
      .complete .number 1, .mark "inside", .abandon .list, .openNode .entry 0, .rewind "inside",
      .openNode .key 0]
    have h : (TreeState.make? inPlace (.mk (.ofSlots #[]) []) calls).map
        (fun state => (state.tree, state.marks.lookup "inside")) =
        some ((⟨#[⟨.entry, 0, 0, none⟩, ⟨.key, 0, 0, some 0⟩], some 1⟩ :
          ArrayTree Sample.Label), some inside) := by decide +kernel
    obtain ⟨state, hm, hs⟩ := Option.map_eq_some_iff.1 h
    obtain ⟨ht, hl⟩ := Prod.mk.inj hs
    have hc := Calls.start.make hm
    exact ⟨state, hc, hl, ht, (hcalls state hc).2⟩
  · have ho : (emptied.rewind inside).openNode? .key 0 =
        some ⟨#[⟨.key, 0, 0, some 0⟩], some 0⟩ := by decide
    exact ⟨_, ho, hgone emptied _ inside .key 0 (by decide) ho⟩

/-- Not every mark can be gone back to: marks are saved before an entry and inside it, and gone back
to in that order. A node that is opened then is its own parent, so the way outwards does not end.
With a key in the entry, its parent is not stored. -/
theorem stale_mark_loops :
    (∃ state : TreeState (ArrayTree Sample.Label) Mark,
      Calls (fun _ _ => true) (.ofSlots #[]) state ∧
      state.tree = ⟨#[⟨.value, 0, 0, some 0⟩], some 0⟩ ∧ state.tree.openDepth? = none ∧
      ¬ ∃ ids, state.tree.Path state.tree.innermost ids none) ∧
    ∃ state : TreeState (ArrayTree Sample.Label) Mark,
      Calls (fun _ _ => true) (.ofSlots #[]) state ∧
      state.tree = ⟨#[⟨.value, 0, 0, some 1⟩], some 0⟩ := by
  refine ⟨?_, ?_⟩
  · let calls : List (TreeCall Sample.Label) := [.mark "before", .openNode .entry 0,
      .mark "inside", .rewind "before", .rewind "inside", .openNode .value 0]
    have h : (TreeState.make? (fun _ _ => true) (.mk (.ofSlots #[]) []) calls).map (·.tree) =
        some (⟨#[⟨.value, 0, 0, some 0⟩], some 0⟩ : ArrayTree Sample.Label) := by decide +kernel
    obtain ⟨state, hm, ht⟩ := Option.map_eq_some_iff.1 h
    refine ⟨state, Calls.start.make hm, ht, ?_, ?_⟩
    · rw [ht]
      decide
    · rintro ⟨ids, hpath⟩
      rw [ht] at hpath
      have hn : (⟨#[⟨.value, 0, 0, some 0⟩], some 0⟩ : ArrayTree Sample.Label).get? 0 =
        some ⟨.value, 0, 0, some 0⟩ := rfl
      exact Path.not_out hn rfl hpath rfl
  · let calls : List (TreeCall Sample.Label) := [.mark "before", .openNode .entry 0,
      .openNode .key 0, .mark "inside", .rewind "before", .rewind "inside", .openNode .value 0]
    have h : (TreeState.make? (fun _ _ => true) (.mk (.ofSlots #[]) []) calls).map (·.tree) =
        some (⟨#[⟨.value, 0, 0, some 1⟩], some 0⟩ : ArrayTree Sample.Label) := by decide +kernel
    obtain ⟨state, hm, ht⟩ := Option.map_eq_some_iff.1 h
    exact ⟨state, Calls.start.make hm, ht⟩

end Script

end Peg
