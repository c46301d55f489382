import Peg.Proofs.Balance
import Peg.Proofs.Coherence
import Peg.Sample.Grammar

/-
  Storing: what a match records is inside the node that is innermost open around it (`Hangs`). This
  is growth of a kind, and to keep it is all that a match relies on in a tree, so every match keeps
  it. A rule that is stored therefore leaves one node with all else that it recorded inside that
  node, or leaves the tree as it was (`store_records_or_restores`).
-/

namespace Peg

namespace Arena

variable {S L : Type} [Slots S L] {a b c d : Arena S}

/-- The arena has grown, and from each new node the way outwards comes to the node that is innermost
open. -/
structure Hangs (before after : Arena S) : Prop extends Grown before after where
  inside : ∀ i, before.size ≤ i → i < after.size →
    ∃ ids, after.Path (some i) ids before.innermost ∧ ∀ j ∈ ids, j < after.size

theorem Grown.parentsKept (h : a.Grown b) : a.ParentsKept b a.size := by
  intro i hi
  rw [h.get?_eq i hi]

namespace Hangs

/-- Where nothing is new, nothing hangs. -/
theorem of_same (hab : a.Grown b) (hba : b.Grown a) : a.Hangs b := by
  refine ⟨hab, fun i hi hlt => ?_⟩
  have := hba.size_le
  omega

theorem trans (hab : a.Hangs b) (hbc : b.Hangs c) : a.Hangs c := by
  refine ⟨hab.toGrown.trans hbc.toGrown, fun i hi hlt => ?_⟩
  by_cases hib : i < b.size
  · obtain ⟨ids, hpath, hids⟩ := hab.inside i hi hib
    have hle := hbc.size_le
    refine ⟨ids, hpath.kept hbc.toGrown.parentsKept hids, fun j hj => ?_⟩
    exact Nat.lt_of_lt_of_le (hids j hj) hle
  · rw [← hab.innermost_eq]
    exact hbc.inside i (by omega) hlt

variable [LawfulSlots S] {label : L} {start : Nat}

/-- All that is new since a node was opened is that node and what is inside it. -/
theorem path_to_opened (ho : a.openNode? label start = some b) (h : b.Hangs c) {i : Nat}
    (hi : a.size < i) (hlt : i < c.size) :
    ∃ ids, c.Path (some i) ids (some a.size) ∧ ∀ j ∈ ids, j < c.size := by
  obtain ⟨hinner, hsize, -⟩ := openNode?_eq_some ho
  rw [← hinner]
  exact h.inside i (by omega) hlt

variable [DecidableEq L]

theorem of_complete {stop : Nat} (ho : a.openNode? label start = some b) (h : b.Hangs c)
    (hc : c.complete label stop = .ok d) (hg : a.Grown d) : a.Hangs d := by
  obtain ⟨hinner, hnode, hlt, -⟩ := opened_of_grown ho h.toGrown
  obtain ⟨-, -, -, -, -, hsize, -⟩ := stored_of_complete hc
  have hk := parentsKept_complete hc c.size
  have hout : c.Path (some a.size) [a.size] a.innermost := .cons hnode .nil
  refine ⟨hg, fun i hi hid => ?_⟩
  rw [hsize] at hid ⊢
  by_cases heq : i = a.size
  · subst heq
    have hids : ∀ j ∈ [a.size], j < c.size := by simpa using hlt
    exact ⟨[a.size], hout.kept hk hids, hids⟩
  · obtain ⟨ids, hpath, hids⟩ := path_to_opened ho h (by omega) hid
    -- The way goes on through the node that was opened, and closing that moves no parent.
    have hall : ∀ j ∈ ids ++ [a.size], j < c.size := by
      intro j hj
      rcases List.mem_append.1 hj with hj | hj
      · exact hids j hj
      · rw [List.mem_singleton.1 hj]
        exact hlt
    exact ⟨ids ++ [a.size], (hpath.append hout).kept hk hall, hall⟩

end Hangs

/-- What a match relies on, with new nodes inside the node that is innermost open. -/
@[reducible]
def hanging [LawfulSlots S] [DecidableEq L] : LawfulTree (Arena S) where
  Grown := Hangs
  grown_refl a := .of_same (.refl a) (.refl a)
  grown_trans := Hangs.trans
  mark_eq hab hba := hab.toGrown.mark_eq hba.toGrown
  rewind_mark h := by
    obtain ⟨hg, hs⟩ := Arena.rewind_mark h.toGrown
    exact ⟨.of_same hg hs, .of_same hs hg⟩
  complete_opened stop ho h := by
    obtain ⟨d, hd, hg⟩ := Arena.complete_opened stop ho h.toGrown
    exact ⟨d, hd, h.of_complete ho hd hg⟩
  abandon_opened ho h := by
    obtain ⟨d, hd, hg, hs⟩ := Arena.abandon_opened ho h.toGrown
    exact ⟨d, hd, .of_same hg hs, .of_same hs hg⟩
  unwind_same a _ := ⟨.of_same (.refl a) (.refl a), .of_same (.refl a) (.refl a)⟩

end Arena

/-- What is relied on in an arena is relied on in an arena with a trail, whatever the trail. -/
@[reducible]
def LawfulTree.withTrail {L : Type} [DecidableEq L] (lawful : LawfulTree (ArrayTree L)) :
    LawfulTree (TrailTree L) where
  Grown t u := lawful.Grown t.arena u.arena
  grown_refl t := lawful.grown_refl t.arena
  grown_trans := lawful.grown_trans
  mark_eq := lawful.mark_eq
  rewind_mark := lawful.rewind_mark
  complete_opened {t u v label start} stop ho h := by
    obtain ⟨arena, ha, rfl⟩ := Option.map_eq_some_iff.1 ho
    obtain ⟨closed, hc, hg⟩ := lawful.complete_opened stop ha h
    exact ⟨⟨closed, v.trail⟩, congrArg (Except.map _) hc, hg⟩
  abandon_opened {t u v label start} ho h := by
    obtain ⟨arena, ha, rfl⟩ := Option.map_eq_some_iff.1 ho
    obtain ⟨closed, hc, hg⟩ := lawful.abandon_opened ha h
    exact ⟨⟨closed, v.trail⟩, congrArg (Except.map _) hc, hg⟩
  unwind_same t _ := ⟨lawful.grown_refl t.arena, lawful.grown_refl t.arena⟩

/-! ## A rule that is stored -/

namespace Matching

section

open LawfulTree

variable {U L T M : Type} [NodeTree T L M] [LawfulTree T] [InputUnit U] [DecidableEq U]
  [DecidableEq M] {setting : Setting U L} {label : L} {rule : Rule U L} {cursor inside : Cursor T}
  {result : Result T L M}

omit [DecidableEq M] in
/-- What comes of a match inside a node, when the node is closed: the node is completed, or the tree
is as it was before the node was opened. -/
theorem closeNode_completes_or_restores (hi : cursor.openNode? label = some inside)
    (hb : Grows inside result) (policy : Policy) :
    (∃ opened, NodeTree.openNode? cursor.tree label cursor.offset = some opened ∧
      Grown opened result.cursor.tree ∧
      (result.closeNode policy label).outcome = .matched ∧
      NodeTree.complete result.cursor.tree label (result.closeNode policy label).cursor.offset =
        .ok (result.closeNode policy label).cursor.tree) ∨
    ((result.closeNode policy label).outcome ≠ .matched ∧
      Grown cursor.tree (result.closeNode policy label).cursor.tree ∧
      Grown (result.closeNode policy label).cursor.tree cursor.tree) := by
  obtain ⟨opened, ht, rfl⟩ := Option.map_eq_some_iff.1 hi
  obtain ⟨completed, hc, -⟩ := complete_opened result.cursor.offset ht hb.grown
  obtain ⟨abandoned, ha, hag, has⟩ := abandon_opened ht hb.grown
  have hcomplete : result.cursor.complete label = .ok ⟨result.cursor.offset, completed⟩ :=
    congrArg (Except.map _) hc
  have habandon : result.cursor.abandon label = .ok ⟨result.cursor.offset, abandoned⟩ :=
    congrArg (Except.map _) ha
  unfold Result.closeNode
  cases ho : result.outcome with
  | matched =>
    simp only [hcomplete, Result.closing]
    exact Or.inl ⟨opened, ht, hb.grown, ho, hc⟩
  | unmatched =>
    simp only [habandon, Result.closing]
    exact Or.inr ⟨by simp [ho], hag, has⟩
  | failed failure =>
    simp only [habandon]
    obtain ⟨hug, hus⟩ := unwind_same abandoned label
    refine Or.inr ⟨nofun, ?_⟩
    split
    · exact ⟨grown_trans hag hug, grown_trans hus has⟩
    · exact ⟨hag, has⟩
  | faulted fault => exact absurd ho (hb.sound fault)

/-- A match of a rule that is stored completes a node that was opened where it began, around all
that the rule recorded, or it does not match and leaves the tree as it was. -/
theorem store_completes_or_restores (h : Returns setting (.store label rule) cursor result) :
    (∃ opened inner, NodeTree.openNode? cursor.tree label cursor.offset = some opened ∧
      Grown opened inner ∧ result.outcome = .matched ∧
      NodeTree.complete inner label result.cursor.offset = .ok result.cursor.tree) ∨
    (result.outcome ≠ .matched ∧ Grown cursor.tree result.cursor.tree ∧
      Grown result.cursor.tree cursor.tree) := by
  obtain ⟨parts, hg⟩ := returns_iff_goes.1 h
  cases hg with
  | done h =>
    simp only [atOnce?, step] at h
    split at h
    · cases h
    · cases h
      refine Or.inr ⟨?_, grown_refl _, grown_refl _⟩
      intro ho
      cases ho
  | @store _ _ _ inside _ tried hi hg =>
    rcases closeNode_completes_or_restores hi (goes_balanced hg).toGrows setting.policy with
      ⟨opened, ht, hgrown, ho, hc⟩ | hsame
    · exact Or.inl ⟨opened, tried.cursor.tree, ht, hgrown, ho, hc⟩
    · exact Or.inr hsame

end

end Matching

namespace Arena

variable {S L P : Type} [Slots S L]

/-- The node stands after those that were stored before, which are unchanged, and every node after
it is inside it. -/
structure Recorded (before after : Arena S) (node : Node L) : Prop where
  size_lt : before.size < after.size
  kept : ∀ i < before.size, after.get? i = before.get? i
  get?_size : after.get? before.size = some node
  inside : ∀ i, before.size < i → i < after.size → after.Within i before.size
  innermost_eq : after.innermost = before.innermost

/-- The same nodes, with the same one innermost open. -/
structure Restored (before after : Arena S) : Prop where
  toList_eq : after.toList = before.toList
  size_eq : after.size = before.size
  innermost_eq : after.innermost = before.innermost

/-- A match records the node, with all else inside it, and whatever else comes of it leaves nothing
behind. -/
structure RecordsOrRestores (before after : Arena S) (node : Node L) (outcome : Outcome P) :
    Prop where
  sound : ∀ fault, outcome ≠ .faulted fault
  recorded : outcome = .matched → before.Recorded after node
  restored : outcome ≠ .matched → before.Restored after

theorem Grown.restored {a b : Arena S} (hab : a.Grown b) (hba : b.Grown a) : a.Restored b :=
  ⟨hba.toList_eq hab, Nat.le_antisymm hba.size_le hab.size_le, hab.innermost_eq⟩

theorem Hangs.recorded [LawfulSlots S] [DecidableEq L] {a b c d : Arena S} {label : L}
    {start stop : Nat} (ho : a.openNode? label start = some b) (h : b.Hangs c)
    (hc : c.complete label stop = .ok d) : a.Recorded d ⟨label, start, stop, a.innermost⟩ := by
  obtain ⟨hinner, hnode, hlt, hkept⟩ := opened_of_grown ho h.toGrown
  obtain ⟨i, node, hi, -, hparent, hsize, hget⟩ := stored_of_complete hc
  obtain rfl : a.size = i := Option.some.inj (hinner.symm.trans hi)
  refine ⟨by omega, fun j hj => ?_, ?_, fun j hj hjd => ?_, ?_⟩
  · rw [hget, if_neg (by omega)]
    exact hkept j hj
  · rw [hget, if_pos rfl, hnode]
    rfl
  · rw [hsize] at hjd
    obtain ⟨ids, hpath, hids⟩ := path_to_opened ho h hj hjd
    exact ⟨ids, hpath.kept (parentsKept_complete hc c.size) hids⟩
  · rw [hparent, parent?_of_get? hnode]

end Arena

namespace Matching

open Arena

variable {U L : Type} [DecidableEq L] [InputUnit U] [DecidableEq U]

/-- A rule that is stored and matches leaves one more node where the nodes ended, with its label,
from where the match began to where it ended, inside the node that was innermost open, and all that
it recorded besides is inside that node. If it does not match, or fails, it leaves nothing. -/
theorem store_records_or_restores (setting : Setting U L) (label : L) (rule : Rule U L) :
    (∀ (cursor : Cursor (TrailTree L)) (result : Result (TrailTree L) L Mark),
      Returns setting (.store label rule) cursor result →
        cursor.tree.arena.RecordsOrRestores result.cursor.tree.arena
          ⟨label, cursor.offset, result.cursor.offset, cursor.tree.arena.innermost⟩
          result.outcome) ∧
    (∀ (cursor : Cursor (RowTree L)) (result : Result (RowTree L) L Mark),
      Returns setting (.store label rule) cursor result →
        cursor.tree.RecordsOrRestores result.cursor.tree
          ⟨label, cursor.offset, result.cursor.offset, cursor.tree.innermost⟩
          result.outcome) := by
  constructor
  · intro cursor result h
    have hsound := (returns_balanced h).sound
    let _ : LawfulTree (TrailTree L) := LawfulTree.withTrail hanging
    rcases store_completes_or_restores h with ⟨opened, inner, ht, hg, ho, hc⟩ | ⟨ho, hg, hs⟩
    · obtain ⟨arena, ha, rfl⟩ := Option.map_eq_some_iff.1 ht
      obtain ⟨closed, hd, htree⟩ := of_map_eq_ok hc
      have hg : arena.Hangs inner.arena := hg
      rw [htree]
      exact ⟨hsound, fun _ => hg.recorded ha hd, fun hm => absurd ho hm⟩
    · have hg : cursor.tree.arena.Hangs result.cursor.tree.arena := hg
      have hs : result.cursor.tree.arena.Hangs cursor.tree.arena := hs
      exact ⟨hsound, fun hm => absurd hm ho, fun _ => hg.toGrown.restored hs.toGrown⟩
  · intro cursor result h
    have hsound := (returns_balanced h).sound
    let _ : LawfulTree (RowTree L) := hanging
    rcases store_completes_or_restores h with ⟨opened, inner, ht, hg, ho, hc⟩ | ⟨ho, hg, hs⟩
    · have hg : opened.Hangs inner := hg
      exact ⟨hsound, fun _ => hg.recorded ht hc, fun hm => absurd ho hm⟩
    · have hg : cursor.tree.Hangs result.cursor.tree := hg
      have hs : result.cursor.tree.Hangs cursor.tree := hs
      exact ⟨hsound, fun hm => absurd hm ho, fun _ => hg.toGrown.restored hs.toGrown⟩

/-- A number with a sign is one node with the sign inside it. In a row with room for the number only,
there is no room for the sign, and the number does not stay either. -/
theorem store_records_or_restores_signed :
    let setting : Setting Char Sample.Label := ⟨.ofList ['-', '1', '2'], fun _ => .undefined, .text⟩
    let before : ArrayTree Sample.Label := ⟨#[⟨.entry, 0, 0, none⟩], some 0⟩
    let row : RowTree Sample.Label := Arena.ofSlots (SlotRow.ofCapacity 1)
    (∃ result, Returns setting Sample.numberRule ⟨0, TrailTree.mk before []⟩ result ∧
      result.outcome = .matched ∧ result.cursor.tree.arena.size = 3 ∧
      before.Recorded result.cursor.tree.arena ⟨.number, 0, 3, some 0⟩) ∧
    (∃ result : Result (RowTree Sample.Label) Sample.Label Mark,
      Returns setting Sample.numberRule ⟨0, row⟩ result ∧
      result.outcome = .failed .exhausted ∧ row.Restored result.cursor.tree) := by
  intro setting before row
  obtain ⟨htrail, hrow⟩ := store_records_or_restores setting .number
    (.seq [.opt (.store .sign (.is '-')), .plus .digit])
  have ht : (run setting 6 Sample.numberRule ⟨0, TrailTree.mk before []⟩).map (fun result =>
      (result.outcome, result.cursor.offset, result.cursor.tree.arena.size)) =
      some (.matched, 3, 3) := by decide +kernel
  have hr : (run setting 6 Sample.numberRule ⟨0, row⟩).map (·.outcome) =
      some (.failed .exhausted) := by decide +kernel
  obtain ⟨result, hrun, heq⟩ := Option.map_eq_some_iff.1 ht
  obtain ⟨result', hrun', ho'⟩ := Option.map_eq_some_iff.1 hr
  obtain ⟨ho, heq⟩ := Prod.mk.inj heq
  obtain ⟨hoff, hsize⟩ := Prod.mk.inj heq
  have hrec := (htrail _ _ ⟨_, hrun⟩).recorded ho
  rw [hoff] at hrec
  refine ⟨⟨result, ⟨_, hrun⟩, ho, hsize, hrec⟩, result', ⟨_, hrun'⟩, ho', ?_⟩
  exact (hrow _ _ ⟨_, hrun'⟩).restored (by simp [ho'])

end Matching

end Peg
