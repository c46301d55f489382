import Peg.Proofs.Begun
import Peg.Proofs.HardFailure

/-
  Invariants of cursors: what a cursor keeps if every operation on a cursor keeps it. It is kept at
  every moment of a match (`ComesBy.holds`): where something is begun, in the middle of given units
  or between two places of a scan, and where something has ended, even if the match itself never
  ends.
-/

namespace Peg.Matching

open Relation

variable {U L T M : Type} [InputUnit U] [NodeTree T L M]

/-- What holds of a cursor holds after every operation. To move back is to a position that was
taken where it held. -/
structure Invariant (input : Input U) (I : Cursor T → Prop) : Prop where
  advance : ∀ {cursor}, I cursor → I (cursor.advance input)
  moveTo : ∀ {origin cursor}, I origin → I cursor → I (cursor.moveTo origin.position)
  openNode? : ∀ {cursor inside} {label : L}, I cursor → cursor.openNode? label = some inside →
    I inside
  complete : ∀ {cursor closed} {label : L}, I cursor → cursor.complete label = .ok closed → I closed
  abandon : ∀ {cursor closed} {label : L}, I cursor → cursor.abandon label = .ok closed → I closed
  unwind : ∀ {cursor} (label : L), I cursor → I (cursor.unwind label)

/-- What holds of an offset and of the next. -/
theorem Invariant.ofOffset {input : Input U} {P : Nat → Prop}
    (h : ∀ offset, P offset → P (input.next offset)) :
    Invariant input fun cursor : Cursor T => P cursor.offset where
  advance {cursor} hc := by
    rw [Cursor.advance_offset]
    exact h _ hc
  moveTo ho _ := ho
  openNode? hc hi := by
    obtain ⟨tree, -, rfl⟩ := Option.map_eq_some_iff.1 hi
    exact hc
  complete hc hi := by
    obtain ⟨tree, -, rfl⟩ := of_map_eq_ok hi
    exact hc
  abandon hc hi := by
    obtain ⟨tree, -, rfl⟩ := of_map_eq_ok hi
    exact hc
  unwind _ hc := hc

/-- What holds of a tree after every operation on trees. -/
theorem Invariant.ofTree {input : Input U} {P : T → Prop}
    (rewind : ∀ {tree} (mark : M), P tree → P (NodeTree.rewind tree mark))
    (openNode? : ∀ {tree opened} {label : L} {start : Nat}, P tree →
      NodeTree.openNode? tree label start = some opened → P opened)
    (complete : ∀ {tree closed} {label : L} {stop : Nat}, P tree →
      NodeTree.complete tree label stop = .ok closed → P closed)
    (abandon : ∀ {tree closed} {label : L}, P tree →
      NodeTree.abandon tree label = .ok closed → P closed)
    (unwind : ∀ {tree} (label : L), P tree → P (NodeTree.unwind tree label)) :
    Invariant input fun cursor : Cursor T => P cursor.tree where
  advance {cursor} hc := by
    rw [Cursor.advance_tree]
    exact hc
  moveTo _ hc := rewind _ hc
  openNode? hc hi := by
    obtain ⟨tree, ht, rfl⟩ := Option.map_eq_some_iff.1 hi
    exact openNode? hc ht
  complete hc hi := by
    obtain ⟨tree, ht, rfl⟩ := of_map_eq_ok hi
    exact complete hc ht
  abandon hc hi := by
    obtain ⟨tree, ht, rfl⟩ := of_map_eq_ok hi
    exact abandon hc ht
  unwind label hc := unwind label hc

theorem Invariant.and {input : Input U} {I J : Cursor T → Prop} (hI : Invariant input I)
    (hJ : Invariant input J) : Invariant input fun cursor => I cursor ∧ J cursor where
  advance hc := ⟨hI.advance hc.1, hJ.advance hc.2⟩
  moveTo ho hc := ⟨hI.moveTo ho.1 hc.1, hJ.moveTo ho.2 hc.2⟩
  openNode? hc hi := ⟨hI.openNode? hc.1 hi, hJ.openNode? hc.2 hi⟩
  complete hc hi := ⟨hI.complete hc.1 hi, hJ.complete hc.2 hi⟩
  abandon hc hi := ⟨hI.abandon hc.1 hi, hJ.abandon hc.2 hi⟩
  unwind label hc := ⟨hI.unwind label hc.1, hJ.unwind label hc.2⟩

omit [InputUnit U] [NodeTree T L M] in
theorem closing_cases (result : Result T L M) (closed : Except Fault (Cursor T)) :
    closed = .ok (result.closing closed).cursor ∨
      (result.closing closed).cursor = result.cursor := by
  cases closed with
  | ok cursor => exact Or.inl rfl
  | error fault => exact Or.inr rfl

namespace Invariant

variable {input : Input U} {I : Cursor T → Prop} (hI : Invariant input I) {cursor : Cursor T}
  {result : Result T L M}
include hI

theorem take? {p : U → Bool} {next : Cursor T} (hc : I cursor)
    (h : cursor.take? input p = some next) : I next := by
  obtain ⟨u, hu, -, rfl⟩ := (Cursor.take?_eq_some_iff input).1 h
  rw [← Cursor.advance_of_unitAt? input hu]
  exact hI.advance hc

theorem takeAll? [DecidableEq U] {us : List U} {next : Cursor T} (hc : I cursor)
    (h : cursor.takeAll? input us = some next) : I next := by
  induction us generalizing cursor with
  | nil =>
    cases h
    exact hc
  | cons u us ih =>
    obtain ⟨middle, hm, h⟩ := Option.bind_eq_some_iff.1 h
    exact ih (hI.take? hc hm) h

theorem backTo (hc : I cursor) (hr : I result.cursor) :
    I (result.backTo cursor.position).cursor := by
  unfold Result.backTo
  split
  · exact hI.moveTo hc hr
  · exact hr

theorem lookFrom (hc : I cursor) (hr : I result.cursor) :
    I (result.lookFrom cursor.position).cursor := by
  unfold Result.lookFrom
  split
  · exact hI.moveTo hc hr
  · exact hI.moveTo hc hr
  · exact hr

theorem recoverTo (hc : I cursor) (hr : I result.cursor) :
    I (result.recoverTo cursor.position).cursor := by
  unfold Result.recoverTo
  split
  · exact hI.moveTo hc hr
  · exact hr

theorem closeNode {policy : Policy} {label : L} (hr : I result.cursor) :
    I (result.closeNode policy label).cursor := by
  unfold Result.closeNode
  split
  · rcases closing_cases result (result.cursor.complete label) with h | h
    · exact hI.complete hr h
    · rw [h]
      exact hr
  · rcases closing_cases result (result.cursor.abandon label) with h | h
    · exact hI.abandon hr h
    · rw [h]
      exact hr
  · split
    · rename_i closed ha
      show I (if policy.keepsTrail then closed.unwind label else closed)
      split
      · exact hI.unwind label (hI.abandon hr ha)
      · exact hI.abandon hr ha
    · exact hr
  · exact hr

end Invariant

/-- The position that a scan goes back to was taken where this holds. -/
def Task.FoundedIn (I : Cursor T → Prop) : Task U L M → Prop
  | .scan _ start => ∃ origin, I origin ∧ origin.position = start
  | _ => True

variable [DecidableEq U] [DecidableEq M] {setting : Setting U L} {I : Cursor T → Prop}

namespace Invariant

variable (hI : Invariant setting.input I)
include hI

theorem done {rule : Rule U L} {cursor : Cursor T} {result : Result T L M} (hc : I cursor)
    (h : atOnce? setting rule cursor = some result) : I result.cursor := by
  cases rule with
  | unit p =>
    simp only [atOnce?, step] at h
    split at h <;> cases h
    · rename_i hn
      exact hI.take? hc hn
    · exact hc
  | units us =>
    simp only [atOnce?, step] at h
    split at h <;> cases h
    · rename_i hn
      exact hI.takeAll? hc hn
    · exact hI.moveTo hc hc
  | atEnd | succeed | fail | exhaust =>
    cases h
    exact hc
  | opt | store | ref =>
    simp only [atOnce?, step] at h
    split at h <;> cases h <;> exact hc
  | seq | or | star | plus | times | ahead | notAhead | untilPast | mandatory | recover
  | counted => cases h

theorem goes {task : Task U L M} {cursor : Cursor T} {parts : List (Course U L T M)}
    {result : Result T L M} (h : Goes setting task cursor parts result) (ht : task.FoundedIn I)
    (hc : I cursor) : I result.cursor := by
  induction h with
  | done h => exact hI.done hc h
  | seq _ ih | times _ ih => exact hI.backTo hc (ih trivial hc)
  | or _ ih | star _ ih | plusStop _ _ ih | ref _ _ ih | counted _ ih | eachStop _ _ ih
  | firstStop _ _ ih | greedyStill _ _ _ _ ih | scanStop _ _ ih => exact ih trivial hc
  | opt _ _ ih | greedyStop _ _ _ ih =>
    rw [accept_cursor]
    exact ih trivial hc
  | ahead _ ih => exact hI.lookFrom hc (ih trivial hc)
  | notAhead _ ih =>
    rw [negate_cursor]
    exact hI.lookFrom hc (ih trivial hc)
  | untilPast _ ih => exact ih ⟨_, hc, rfl⟩ hc
  | mandatory _ ih =>
    rw [demand_cursor]
    exact ih trivial hc
  | recover _ ih => exact hI.recoverTo hc (ih trivial hc)
  | store hi _ ih => exact hI.closeNode (ih trivial (hI.openNode? hc hi))
  | eachNil | firstNil | greedyEnd => exact hc
  | plusOn _ _ _ ih ihn | eachOn _ _ _ ih ihn | firstOn _ _ _ ih ihn
  | greedyOn _ _ _ _ _ ih ihn => exact ihn trivial (ih trivial hc)
  | scanEnd _ _ _ ih =>
    obtain ⟨origin, ho, rfl⟩ := ht
    exact hI.moveTo ho (hI.advance (ih trivial hc))
  | scanOn _ _ _ _ ih ihn => exact ihn ht (hI.advance (ih trivial hc))

theorem returns {rule : Rule U L} {cursor : Cursor T} {result : Result T L M}
    (h : Returns setting rule cursor result) (hc : I cursor) : I result.cursor := by
  obtain ⟨parts, hg⟩ := returns_iff_goes.1 h
  exact hI.goes hg trivial hc

theorem begins {start next : Task U L M × Cursor T} (h : Begins setting start next)
    (ht : start.1.FoundedIn I) (hc : I start.2) : next.1.FoundedIn I ∧ I next.2 := by
  cases h with
  | untilPast => exact ⟨⟨_, hc, rfl⟩, hc⟩
  | store hi => exact ⟨trivial, hI.openNode? hc hi⟩
  | plusOn h | eachOn h | firstOn h | greedyOn _ h => exact ⟨trivial, hI.goes h trivial hc⟩
  | scanOn h => exact ⟨ht, hI.advance (hI.goes h trivial hc)⟩
  | _ => exact ⟨trivial, hc⟩

theorem begun {start last : Task U L M × Cursor T} (h : ReflTransGen (Begins setting) start last)
    (ht : start.1.FoundedIn I) (hc : I start.2) : last.1.FoundedIn I ∧ I last.2 := by
  induction h with
  | refl => exact ⟨ht, hc⟩
  | tail _ hb ih => exact hI.begins hb ih.1 ih.2

end Invariant

/-- The cursors that a match comes by: where a task is begun and where one has ended, and where a
unit was gone past in the course of one. -/
inductive ComesBy (setting : Setting U L) (start : Task U L M × Cursor T) : Cursor T → Prop
  | begun {task cursor} (hb : ReflTransGen (Begins setting) start (task, cursor)) :
      ComesBy setting start cursor
  | ended {task cursor parts result} (hb : ReflTransGen (Begins setting) start (task, cursor))
      (h : Goes setting task cursor parts result) : ComesBy setting start result.cursor
  | amid {us vs cursor next} (hb : ReflTransGen (Begins setting) start (.rule (.units us), cursor))
      (hv : vs <+: us) (h : cursor.takeAll? setting.input vs = some next) :
      ComesBy setting start next
  | between {rule position cursor parts result}
      (hb : ReflTransGen (Begins setting) start (.scan rule position, cursor))
      (h : Goes setting (.rule rule) cursor parts result) (ho : result.outcome = .unmatched) :
      ComesBy setting start (result.cursor.advance setting.input)

theorem ComesBy.holds (hI : Invariant setting.input I) {rule : Rule U L} {cursor moment : Cursor T}
    (h : ComesBy (M := M) setting (.rule rule, cursor) moment) (hc : I cursor) : I moment := by
  cases h with
  | begun hb => exact (hI.begun hb trivial hc).2
  | ended hb h =>
    obtain ⟨ht, hc⟩ := hI.begun hb trivial hc
    exact hI.goes h ht hc
  | amid hb _ h => exact hI.takeAll? (hI.begun hb trivial hc).2 h
  | between hb h => exact hI.advance (hI.goes h trivial (hI.begun hb trivial hc).2)

end Peg.Matching
