import Peg.Proofs.Nesting

/-
  Coherence: an arena is coherent if the parent of each node, and the innermost open node, are met
  on the way outwards from the node stored just before (`Coherent`). Every call keeps an arena
  coherent. So does going back to a mark that holds, as it does until the arena is truncated below
  it (`Holds.follows`). In a coherent arena the nodes are in pre-order (`Coherent.preordered`).
-/

namespace Peg.Arena

variable {S L : Type} [Slots S L]

/-! ## The way outwards -/

namespace Path

variable {arena : Arena S} {start mid stop : Option Nat} {ids rest : List Nat}

theorem append (h : arena.Path start ids mid) (hr : arena.Path mid rest stop) :
    arena.Path start (ids ++ rest) stop := by
  induction h with
  | nil => exact hr
  | cons hn _ ih => exact .cons hn (ih hr)

/-- Where parents come before children, indices only fall. -/
theorem lt (h : arena.Path start ids stop) {bound : Nat}
    (hp : ∀ i < bound, ∀ node, arena.get? i = some node → ∀ p, node.parent = some p → p < i)
    (hs : ∀ i, start = some i → i < bound) :
    (∀ i ∈ ids, i < bound) ∧ ∀ p, stop = some p → p < bound := by
  induction h with
  | nil => exact ⟨nofun, hs⟩
  | @cons i ids node stop hn _ ih =>
    have hi : i < bound := hs i rfl
    obtain ⟨hids, hstop⟩ := ih fun p hq => Nat.lt_trans (hp i hi node hn p hq) hi
    refine ⟨fun j hj => ?_, hstop⟩
    rcases List.mem_cons.1 hj with rfl | hj
    · exact hi
    · exact hids j hj

end Path

/-- The one is met on the way outwards from the other: it is the same node, or a node around it, or
none, which is past the last. -/
def Outwards (arena : Arena S) (start stop : Option Nat) : Prop := ∃ ids, arena.Path start ids stop

/-- The second node is the first or an ancestor of it. -/
def Within (arena : Arena S) (i p : Nat) : Prop := arena.Outwards (some i) (some p)

/-- Up to an index, both hold nodes with the same parents. -/
def ParentsKept (before after : Arena S) (size : Nat) : Prop :=
  ∀ i < size, (after.get? i).map (·.parent) = (before.get? i).map (·.parent)

theorem ParentsKept.get? {before after : Arena S} {size i : Nat} {node : Node L}
    (h : before.ParentsKept after size) (hi : i < size) (hn : before.get? i = some node) :
    ∃ other, after.get? i = some other ∧ other.parent = node.parent := by
  have hp := h i hi
  rw [hn] at hp
  exact Option.map_eq_some_iff.1 hp

theorem ParentsKept.parent?_eq {before after : Arena S} {size i : Nat}
    (h : before.ParentsKept after size) (hi : i < size) : after.parent? i = before.parent? i := by
  have hp := h i hi
  have hj : ∀ arena : Arena S, arena.parent? i = ((arena.get? i).map (·.parent)).join :=
    fun arena => by cases hn : arena.get? i <;> simp [parent?, hn]
  rw [hj, hj, hp]

theorem Path.kept {before after : Arena S} {start stop : Option Nat} {ids : List Nat} {size : Nat}
    (h : before.Path start ids stop) (hk : before.ParentsKept after size)
    (hi : ∀ i ∈ ids, i < size) : after.Path start ids stop := by
  induction h with
  | nil => exact .nil
  | @cons i ids node stop hn _ ih =>
    obtain ⟨other, ho, hp⟩ := hk.get? (hi i List.mem_cons_self) hn
    refine .cons ho ?_
    rw [hp]
    exact ih fun j hj => hi j (List.mem_cons_of_mem _ hj)

/-! ## Threaded nodes -/

/-- The index before: of the last node, if it is given the size. -/
def previous? : Nat → Option Nat
  | 0 => none
  | i + 1 => some i

theorem previous?_lt {n i : Nat} (h : previous? n = some i) : i < n := by
  cases n with
  | zero => cases h
  | succ n =>
    cases h
    exact Nat.lt_succ_self _

/-- Each node up to an index is stored, and its parent is met outwards from the node before it. -/
def Threaded (arena : Arena S) (size : Nat) : Prop :=
  ∀ i < size, ∃ node, arena.get? i = some node ∧ arena.Outwards (previous? i) node.parent

namespace Threaded

variable {before after : Arena S} {size n : Nat} {stop : Option Nat}

theorem mono (h : before.Threaded size) (hn : n ≤ size) : before.Threaded n :=
  fun i hi => h i (Nat.lt_of_lt_of_le hi hn)

theorem parent_lt (h : before.Threaded size) (i : Nat) (hi : i < size) (node : Node L)
    (hn : before.get? i = some node) (p : Nat) (hp : node.parent = some p) : p < i := by
  induction i using Nat.strongRecOn generalizing node p with
  | _ i ih =>
    obtain ⟨node', hn', ids, hpath⟩ := h i hi
    obtain rfl := Option.some.inj (hn.symm.trans hn')
    rw [hp] at hpath
    have hlt : ∀ j < i, ∀ node, before.get? j = some node → ∀ p, node.parent = some p → p < j :=
      fun j hj node hn p hp => ih j hj (by omega) node hn p hp
    exact (hpath.lt hlt fun j hj => previous?_lt hj).2 p rfl

theorem path_lt (h : before.Threaded size) {ids : List Nat}
    (hpath : before.Path (previous? size) ids stop) :
    (∀ i ∈ ids, i < size) ∧ ∀ p, stop = some p → p < size :=
  hpath.lt h.parent_lt fun _ => previous?_lt

/-- What is met outwards from the last of these nodes depends on their parents only. -/
theorem outwards_kept (h : before.Threaded size) (hk : before.ParentsKept after size)
    (ho : before.Outwards (previous? size) stop) : after.Outwards (previous? size) stop := by
  obtain ⟨ids, hpath⟩ := ho
  exact ⟨ids, hpath.kept hk (h.path_lt hpath).1⟩

theorem kept (h : before.Threaded size) (hk : before.ParentsKept after size) :
    after.Threaded size := by
  intro i hi
  obtain ⟨node, hn, ho⟩ := h i hi
  obtain ⟨other, hn', hp⟩ := hk.get? hi hn
  refine ⟨other, hn', ?_⟩
  rw [hp]
  exact (h.mono (Nat.le_of_lt hi)).outwards_kept (fun j hj => hk j (by omega)) ho

end Threaded

/-! ## Coherent arenas -/

/-- A mark of a state that the arena can still go back to: its nodes are there, and its innermost
open node is met outwards from the last of them. -/
structure Holds (arena : Arena S) (mark : Mark) : Prop where
  size_le : mark.size ≤ arena.size
  innermost : arena.Outwards (previous? mark.size) mark.innermost

/-- All nodes are threaded, and the arena can go back to where it is. -/
structure Coherent (arena : Arena S) : Prop where
  threaded : arena.Threaded arena.size
  holds : arena.Holds arena.mark

/-- What comes of a call: a coherent arena, in which nodes that remain have the same parents. -/
structure Follows (before after : Arena S) : Prop where
  coherent : after.Coherent
  kept : before.ParentsKept after (min before.size after.size)

theorem Coherent.follows_self {arena : Arena S} (h : arena.Coherent) : arena.Follows arena :=
  ⟨h, fun _ _ => rfl⟩

/-- A mark holds on while the arena is as large as it was at the mark. -/
theorem Holds.follows {before after : Arena S} {mark : Mark} (h : before.Holds mark)
    (hc : before.Coherent) (hf : before.Follows after) (hs : mark.size ≤ after.size) :
    after.Holds mark where
  size_le := hs
  innermost :=
    (hc.threaded.mono h.size_le).outwards_kept
      (fun i hi => hf.kept i (by have := h.size_le; omega)) h.innermost

theorem coherent_ofSlots {slots : S} (h : Slots.size slots = 0) : (ofSlots slots).Coherent := by
  have hs : (ofSlots slots).size = 0 := h
  refine ⟨fun i hi => by omega, Nat.le_refl _, ?_⟩
  show (ofSlots slots).Outwards (previous? (ofSlots slots).size) none
  rw [hs]
  exact ⟨[], .nil⟩

theorem parentsKept_complete [LawfulSlots S] [DecidableEq L] {arena next : Arena S} {label : L}
    {stop : Nat} (h : arena.complete label stop = .ok next) (size : Nat) :
    arena.ParentsKept next size := by
  obtain ⟨i, -, -, -, -, -, hget⟩ := stored_of_complete h
  intro j _
  rw [hget]
  split
  · rw [Option.map_map]
    rfl
  · rfl

namespace Coherent

variable [LawfulSlots S] {arena next : Arena S}

theorem openNode? {label : L} {start : Nat} (h : arena.Coherent)
    (ho : arena.openNode? label start = some next) : arena.Follows next := by
  obtain ⟨hlast, hsize, hget⟩ := openNode?_eq_some ho
  have hk : arena.ParentsKept next arena.size := by
    intro i hi
    rw [hget, if_neg (Nat.ne_of_lt hi)]
  refine ⟨⟨?_, Nat.le_refl _, ?_⟩, fun i hi => hk i (Nat.lt_of_lt_of_le hi (Nat.min_le_left _ _))⟩
  · intro i hi
    by_cases hnew : i = arena.size
    · subst hnew
      exact ⟨_, (hget _).trans (if_pos rfl), h.threaded.outwards_kept hk h.holds.innermost⟩
    · exact h.threaded.kept hk i (by omega)
  · show next.Outwards (previous? next.size) next.innermost
    rw [hsize, hlast]
    exact ⟨[], .nil⟩

theorem rewind {mark : Mark} (h : arena.Coherent) (hm : arena.Holds mark) :
    arena.Follows (arena.rewind mark) := by
  have hsize : (arena.rewind mark).size = mark.size :=
    (size_rewind arena mark).trans (Nat.min_eq_left hm.size_le)
  have hk : arena.ParentsKept (arena.rewind mark) mark.size := by
    intro i hi
    rw [get?_rewind arena hi]
  have ht := h.threaded.mono hm.size_le
  refine ⟨⟨?_, Nat.le_refl _, ?_⟩, fun i hi => hk i (by omega)⟩
  · rw [hsize]
    exact ht.kept hk
  · show Outwards _ (previous? (arena.rewind mark).size) mark.innermost
    rw [hsize]
    exact ht.outwards_kept hk hm.innermost

variable [DecidableEq L]

theorem complete {label : L} {stop : Nat} (h : arena.Coherent)
    (hc : arena.complete label stop = .ok next) : arena.Follows next := by
  have hk := parentsKept_complete hc
  obtain ⟨i, node, hi, hn, hparent, hsize, -⟩ := stored_of_complete hc
  -- The node around the one that was completed is the next on the way outwards.
  have ho : arena.Outwards (previous? arena.size) (arena.parent? i) := by
    obtain ⟨ids, hpath⟩ := h.holds.innermost
    have hpath : arena.Path (previous? arena.size) ids arena.innermost := hpath
    rw [hi] at hpath
    rw [parent?_of_get? hn]
    exact ⟨_, hpath.concat hn⟩
  refine ⟨⟨?_, Nat.le_refl _, ?_⟩, hk _⟩
  · rw [hsize]
    exact h.threaded.kept (hk _)
  · show next.Outwards (previous? next.size) next.innermost
    rw [hsize, hparent]
    exact h.threaded.outwards_kept (hk _) ho

omit [LawfulSlots S] [DecidableEq L] in
theorem innermost_lt (h : arena.Coherent) {i : Nat} (hi : arena.innermost = some i) :
    i < arena.size := by
  obtain ⟨ids, hpath⟩ := h.holds.innermost
  exact (h.threaded.path_lt hpath).2 i hi

/-- Where the innermost open node was opened is a state to go back to. -/
theorem abandon {label : L} (h : arena.Coherent) (ha : arena.abandon label = .ok next) :
    arena.Follows next := by
  obtain ⟨i, hi, rfl⟩ := abandon_eq_ok ha
  have hlt := h.innermost_lt hi
  obtain ⟨node, hn, ho⟩ := h.threaded i hlt
  refine h.rewind ⟨Nat.le_of_lt hlt, ?_⟩
  rw [parent?_of_get? hn]
  exact ho

end Coherent

/-! ## Pre-order -/

/-- The nodes are in pre-order: the parent of each is the node before it or a node around that one,
and what is inside a node follows it without a gap. The innermost open node is the last node or a
node around it, and as many nodes are open as are on the way outwards from it. -/
structure Preordered (arena : Arena S) : Prop where
  stored : ∀ i < arena.size, ∃ node, arena.get? i = some node
  innermost_cases : arena.innermost = none ∨
    ∃ i, arena.innermost = some i ∧ i < arena.size ∧ arena.Within (arena.size - 1) i
  parent_cases : ∀ i < arena.size, ∀ node, arena.get? i = some node → node.parent = none ∨
    ∃ p, node.parent = some p ∧ p < i ∧ arena.Within (i - 1) p
  contiguous : ∀ i j, j < arena.size → arena.Within j i →
    i ≤ j ∧ ∀ k, i ≤ k → k ≤ j → arena.Within k i
  openDepth?_eq : ∃ ids, arena.Path arena.innermost ids none ∧ arena.openDepth? = some ids.length

namespace Threaded

variable {arena : Arena S} {size : Nat}

theorem le_of_within (h : arena.Threaded size) {i j : Nat} (hj : j < size)
    (hw : arena.Within j i) : i ≤ j := by
  obtain ⟨ids, hpath⟩ := hw
  have hlt := hpath.lt (h.mono (n := j + 1) hj).parent_lt fun k hk => by cases hk; omega
  exact Nat.le_of_lt_succ (hlt.2 i rfl)

/-- What is outwards from a node, and is not the node itself, is outwards from the node before. -/
theorem within_pred (h : arena.Threaded size) {i j : Nat} (hj : j < size) (hij : i < j)
    (hw : arena.Within j i) : arena.Within (j - 1) i := by
  obtain ⟨ids, hpath⟩ := hw
  cases hpath with
  | nil => omega
  | @cons _ ids node _ hn hpath =>
    obtain ⟨node', hn', ids', hpath'⟩ := h j hj
    obtain rfl := Option.some.inj (hn.symm.trans hn')
    obtain ⟨k, rfl⟩ : ∃ k, j = k + 1 := ⟨j - 1, by omega⟩
    exact ⟨_, hpath'.append hpath⟩

theorem within_of_le (h : arena.Threaded size) {i j k : Nat} (hj : j < size) (hik : i ≤ k)
    (hkj : k ≤ j) (hw : arena.Within j i) : arena.Within k i := by
  induction j with
  | zero =>
    obtain rfl : k = 0 := by omega
    exact hw
  | succ j ih =>
    by_cases hk : k = j + 1
    · rw [hk]
      exact hw
    · exact ih (by omega) (by omega) (h.within_pred hj (by omega) hw)

end Threaded

theorem Path.openDepth?_eq {arena : Arena S} {ids : List Nat}
    (h : arena.Path arena.innermost ids none) (hl : ids.length ≤ arena.size) :
    arena.openDepth? = some ids.length := by
  obtain ⟨n, hn⟩ : ∃ n, arena.size + 1 = ids.length + n := ⟨arena.size + 1 - ids.length, by omega⟩
  unfold openDepth? openNodes?
  rw [hn, h.outwards?_eq, outwards?, Option.map_some, Option.map_some, List.append_nil]

/-- Parents come before children, the innermost open node is a stored one, and each node up to the
last is stored. -/
structure Grounded (arena : Arena S) : Prop extends Ordered arena where
  stored : ∀ i < arena.size, ∃ node, arena.get? i = some node

namespace Grounded

variable {arena : Arena S}

/-- From each node the way outwards ends, after no more nodes than are stored up to it. -/
theorem path_out (h : arena.Grounded) (i : Nat) (hi : i < arena.size) :
    ∃ ids, arena.Path (some i) ids none ∧ ids.length ≤ i + 1 := by
  induction i using Nat.strongRecOn with
  | _ i ih =>
    obtain ⟨node, hn⟩ := h.stored i hi
    cases hp : node.parent with
    | none =>
      refine ⟨[i], .cons hn ?_, by simp⟩
      rw [hp]
      exact .nil
    | some p =>
      have hlt : p < i := h.parent_lt i hi p ((parent?_of_get? hn).trans hp)
      obtain ⟨ids, hpath, hlen⟩ := ih p hlt (by omega)
      refine ⟨i :: ids, .cons hn ?_, by rw [List.length_cons]; omega⟩
      rw [hp]
      exact hpath

/-- The way outwards from the innermost open node ends, and its length is the depth. -/
theorem openDepth?_eq (h : arena.Grounded) :
    ∃ ids, arena.Path arena.innermost ids none ∧ arena.openDepth? = some ids.length := by
  cases hi : arena.innermost with
  | none => exact ⟨[], .nil, Path.openDepth?_eq (by rw [hi]; exact .nil) (Nat.zero_le _)⟩
  | some i =>
    have hlt := h.innermost_lt i hi
    obtain ⟨ids, hpath, hl⟩ := h.path_out i hlt
    exact ⟨ids, hpath, Path.openDepth?_eq (by rw [hi]; exact hpath) (by omega)⟩

end Grounded

theorem Coherent.grounded {arena : Arena S} (h : arena.Coherent) : arena.Grounded where
  innermost_lt _ hi := h.innermost_lt hi
  parent_lt i hi p hp := by
    obtain ⟨node, hn, -⟩ := h.threaded i hi
    exact h.threaded.parent_lt i hi node hn p ((parent?_of_get? hn).symm.trans hp)
  stored i hi := by
    obtain ⟨node, hn, -⟩ := h.threaded i hi
    exact ⟨node, hn⟩

theorem Coherent.preordered {arena : Arena S} (h : arena.Coherent) : arena.Preordered where
  stored := h.grounded.stored
  innermost_cases := by
    cases hi : arena.innermost with
    | none => exact Or.inl rfl
    | some i =>
      have hlt := h.innermost_lt hi
      obtain ⟨ids, hpath⟩ := h.holds.innermost
      have hpath : arena.Path (previous? arena.size) ids arena.innermost := hpath
      obtain ⟨n, hn⟩ : ∃ n, arena.size = n + 1 := ⟨arena.size - 1, by omega⟩
      rw [hi, hn] at hpath
      refine Or.inr ⟨i, rfl, hlt, ids, ?_⟩
      rw [hn]
      exact hpath
  parent_cases i hi node hn := by
    cases hp : node.parent with
    | none => exact Or.inl rfl
    | some p =>
      have hlt := h.threaded.parent_lt i hi node hn p hp
      have hw : arena.Within i p := by
        refine ⟨[i], .cons hn ?_⟩
        rw [hp]
        exact .nil
      exact Or.inr ⟨p, rfl, hlt, h.threaded.within_pred hi hlt hw⟩
  contiguous i j hj hw :=
    ⟨h.threaded.le_of_within hj hw, fun k hik hkj => h.threaded.within_of_le hj hik hkj hw⟩
  openDepth?_eq := h.grounded.openDepth?_eq

end Peg.Arena
