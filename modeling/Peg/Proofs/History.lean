import Peg.Proofs.Coherence
import Peg.Proofs.Preorder
import Peg.Sample.Grammar
import Peg.Script.Tree

/-
  History: scripts of calls on an arena that is empty at first, in any order and whatever comes of
  each call. A script goes back only to marks that are live: since they were saved, the arena was
  never truncated below them. Every arena on the way is coherent and holds the live marks
  (`History.sound`). So its nodes are in pre-order, and a tree without open nodes can be finished
  (`calls_keep_preorder`).
-/

namespace Peg.Script

variable {T S L : Type}

section

variable [NodeTree T L Mark] [NodeView T L]

/-- The name under which the call saves a mark. -/
def TreeCall.saved : TreeCall L → List String
  | mark name => [name]
  | _ => []

/-- Of the given names, those of marks that the tree is not smaller than. -/
def TreeState.reached (state : TreeState T Mark) (names : List String) : List String :=
  names.filter fun name =>
    (state.marks.lookup name).any (·.size ≤ (NodeTree.mark state.tree).size)

/-- The state that calls on an empty tree lead to, and the names of the live marks in it. -/
inductive History (empty : T) : TreeState T Mark → List String → Prop
  | start : History empty ⟨empty, []⟩ []
  | call {state live call answer next} (h : History empty state live)
      (hr : ∀ name, call = .rewind name → name ∈ live)
      (hc : state.call? call = some (answer, next)) :
      History empty next (next.reached (call.saved ++ live))

/-- The name of the mark that the call goes back to. -/
def TreeCall.goal? : TreeCall L → Option String
  | rewind name => some name
  | _ => none

/-- Make calls one after the other; none if one of them is not to a live mark. -/
def TreeState.follow? (state : TreeState T Mark) (live : List String) :
    List (TreeCall L) → Option (TreeState T Mark × List String)
  | [] => some (state, live)
  | call :: calls =>
    if call.goal?.all (· ∈ live) then
      (state.call? call).bind fun (_, next) =>
        next.follow? (next.reached (call.saved ++ live)) calls
    else none

theorem History.follow {empty : T} {state last : TreeState T Mark} {live live' : List String}
    {calls : List (TreeCall L)} (h : History empty state live)
    (hf : state.follow? live calls = some (last, live')) : History empty last live' := by
  induction calls generalizing state live with
  | nil =>
    cases hf
    exact h
  | cons call calls ih =>
    unfold TreeState.follow? at hf
    split at hf
    · rename_i hr
      obtain ⟨⟨answer, next⟩, hc, hf⟩ := Option.bind_eq_some_iff.1 hf
      refine ih (h.call ?_ hc) hf
      rintro name rfl
      exact of_decide_eq_true hr
    · cases hf

/-- The call reports a fault, or that there is no room. -/
def TreeAnswer.refuses : TreeAnswer T L Mark → Bool
  | exhausted | fault _ => true
  | _ => false

/-! ## What a call can do -/

/-- All that calls do to a tree and to the marks. -/
inductive Effect (state : TreeState T Mark) : TreeCall L → TreeState T Mark → Prop
  | same {call} (hs : call.saved = []) : Effect state call state
  | openNode {label start tree} (h : NodeTree.openNode? state.tree label start = some tree) :
      Effect state (.openNode label start) { state with tree := tree }
  | complete {label stop tree} (h : NodeTree.complete state.tree label stop = .ok tree) :
      Effect state (.complete label stop) { state with tree := tree }
  | abandon {label tree} (h : NodeTree.abandon state.tree label = .ok tree) :
      Effect state (.abandon label) { state with tree := tree }
  | unwind {label} : Effect state (.unwind label)
      { state with tree := NodeTree.unwind state.tree label }
  | mark {name} : Effect state (.mark name)
      { state with marks := state.marks.put name (NodeTree.mark state.tree) }
  | rewind {name mark} (h : state.marks.lookup name = some mark) :
      Effect state (.rewind name) { state with tree := NodeTree.rewind state.tree mark }

omit [NodeTree T L Mark] [NodeView T L] in
theorem changed_cases {state next : TreeState T Mark} {answer : TreeAnswer T L Mark}
    {attempt : Except Fault T} (hc : state.changed attempt = (answer, next)) :
    (∃ tree, attempt = .ok tree ∧ answer = .done ∧ next = { state with tree := tree }) ∨
      next = state := by
  cases attempt with
  | ok tree =>
    cases hc
    exact Or.inl ⟨tree, rfl, rfl, rfl⟩
  | error fault =>
    cases hc
    exact Or.inr rfl

/-- A call that is refused changes nothing. -/
theorem effect_of_call {state next : TreeState T Mark} {call : TreeCall L}
    {answer : TreeAnswer T L Mark} (hc : state.call? call = some (answer, next)) :
    Effect state call next ∧ (answer.refuses = true → next = state) := by
  cases call with
  | openNode label start =>
    simp only [TreeState.call?] at hc
    split at hc
    · rename_i tree ho
      cases hc
      exact ⟨.openNode ho, nofun⟩
    · cases hc
      exact ⟨.same rfl, fun _ => rfl⟩
  | complete label stop =>
    rcases changed_cases (Option.some.inj hc) with ⟨tree, ho, rfl, rfl⟩ | rfl
    · exact ⟨.complete ho, nofun⟩
    · exact ⟨.same rfl, fun _ => rfl⟩
  | abandon label =>
    rcases changed_cases (Option.some.inj hc) with ⟨tree, ho, rfl, rfl⟩ | rfl
    · exact ⟨.abandon ho, nofun⟩
    · exact ⟨.same rfl, fun _ => rfl⟩
  | unwind label =>
    cases hc
    exact ⟨.unwind, nofun⟩
  | mark name =>
    cases hc
    exact ⟨.mark, nofun⟩
  | rewind name =>
    obtain ⟨mark, hm, hc⟩ := Option.map_eq_some_iff.1 hc
    cases hc
    exact ⟨.rewind hm, nofun⟩
  | same name =>
    obtain ⟨mark, hm, hc⟩ := Option.map_eq_some_iff.1 hc
    cases hc
    exact ⟨.same rfl, fun _ => rfl⟩
  | get i =>
    cases hc
    exact ⟨.same rfl, fun _ => rfl⟩
  | fork label start =>
    cases hc
    exact ⟨.same rfl, fun _ => rfl⟩

omit [NodeView T L] in
/-- The mark of a name is the one that was live before, or was saved just now. -/
theorem Effect.lookup {state next : TreeState T Mark} {call : TreeCall L} {live : List String}
    {name : String} (h : Effect state call next) (hn : name ∈ call.saved ++ live) :
    (name ∈ live ∧ next.marks.lookup name = state.marks.lookup name) ∨
      next.marks.lookup name = some (NodeTree.mark state.tree) := by
  cases h with
  | @mark saved =>
    by_cases hs : name = saved
    · right
      subst hs
      exact List.lookup_cons_self
    · left
      have hl : name ∈ live := by
        rcases List.mem_cons.1 hn with h | h
        · exact absurd h hs
        · exact h
      refine ⟨hl, ?_⟩
      show List.lookup name ((saved, _) :: state.marks) = _
      rw [List.lookup_cons, beq_false_of_ne hs]
  | same hs =>
    rw [hs] at hn
    exact Or.inl ⟨hn, rfl⟩
  | openNode | complete | abandon | unwind | rewind => exact Or.inl ⟨hn, rfl⟩

end

/-! ## Arenas -/

section

variable [NodeTree T L Mark] [NodeView T L] [Slots S L] [DecidableEq L]

/-- What is done to a tree is done to the arena in it. -/
structure ArenaIn (view : T → Arena S) : Prop where
  mark_eq : ∀ tree, NodeTree.mark tree = (view tree).mark
  rewind_eq : ∀ tree mark, view (NodeTree.rewind tree mark) = (view tree).rewind mark
  unwind_eq : ∀ tree label, view (NodeTree.unwind tree label) = view tree
  openNode? : ∀ {tree label start next}, NodeTree.openNode? tree label start = some next →
    (view tree).openNode? label start = some (view next)
  complete : ∀ {tree label stop next}, NodeTree.complete tree label stop = .ok next →
    (view tree).complete label stop = .ok (view next)
  abandon : ∀ {tree label next}, NodeTree.abandon tree label = .ok next →
    (view tree).abandon label = .ok (view next)

theorem arenaIn_self : ArenaIn (fun tree : Arena S => tree) :=
  ⟨fun _ => rfl, fun _ _ => rfl, fun _ _ => rfl, id, id, id⟩

theorem arenaIn_trail : ArenaIn (TrailTree.arena (L := L)) where
  mark_eq _ := rfl
  rewind_eq _ _ := rfl
  unwind_eq _ _ := rfl
  openNode? h := by
    obtain ⟨arena, ha, rfl⟩ := Option.map_eq_some_iff.1 h
    exact ha
  complete h := by
    obtain ⟨arena, ha, rfl⟩ := of_map_eq_ok h
    exact ha
  abandon h := by
    obtain ⟨arena, ha, rfl⟩ := of_map_eq_ok h
    exact ha

variable [LawfulSlots S] {view : T → Arena S}

omit [NodeView T L] in
theorem Effect.follows (hv : ArenaIn view) {state next : TreeState T Mark} {call : TreeCall L}
    (h : Effect state call next) (hc : (view state.tree).Coherent)
    (hr : ∀ name mark, call = .rewind name → state.marks.lookup name = some mark →
      (view state.tree).Holds mark) : (view state.tree).Follows (view next.tree) := by
  cases h with
  | same | mark => exact hc.follows_self
  | openNode h => exact hc.openNode? (hv.openNode? h)
  | complete h => exact hc.complete (hv.complete h)
  | abandon h => exact hc.abandon (hv.abandon h)
  | unwind =>
    rw [hv.unwind_eq]
    exact hc.follows_self
  | rewind h =>
    rw [hv.rewind_eq]
    exact hc.rewind (hr _ _ rfl h)

/-- The arena is coherent, and holds all marks that are live. -/
theorem History.sound (hv : ArenaIn view) {empty : T} (he : (view empty).Coherent)
    {state : TreeState T Mark} {live : List String} (h : History empty state live) :
    (view state.tree).Coherent ∧ ∀ name ∈ live, ∃ mark, state.marks.lookup name = some mark ∧
      (view state.tree).Holds mark := by
  induction h with
  | start => exact ⟨he, nofun⟩
  | @call state live call answer next _ hr hc ih =>
    obtain ⟨hcoherent, hlive⟩ := ih
    obtain ⟨heffect, -⟩ := effect_of_call hc
    have hf : (view state.tree).Follows (view next.tree) := by
      refine heffect.follows hv hcoherent fun name mark hcall hm => ?_
      obtain ⟨mark', hm', hh⟩ := hlive name (hr name hcall)
      obtain rfl := Option.some.inj (hm.symm.trans hm')
      exact hh
    refine ⟨hf.coherent, fun name hn => ?_⟩
    obtain ⟨hn, hs⟩ := List.mem_filter.1 hn
    obtain ⟨mark, hm, hs⟩ := (Option.any_eq_true _ _).1 hs
    have hs : mark.size ≤ (NodeTree.mark next.tree).size := of_decide_eq_true hs
    rw [hv.mark_eq] at hs
    refine ⟨mark, hm, ?_⟩
    -- The mark was live before the call or is the one that the call saved.
    rcases heffect.lookup hn with ⟨hn, hl⟩ | hl
    · obtain ⟨mark', hm', hh⟩ := hlive name hn
      obtain rfl := Option.some.inj ((hl.trans hm').symm.trans hm)
      exact hh.follows hcoherent hf hs
    · rw [hv.mark_eq] at hl
      obtain rfl := Option.some.inj (hl.symm.trans hm)
      exact hcoherent.holds.follows hcoherent hf hs

/-- In the state, a call that is refused changes nothing. -/
def TreeState.KeptOnRefusal (state : TreeState T Mark) : Prop :=
  ∀ (call : TreeCall L) (answer : TreeAnswer T L Mark) (next : TreeState T Mark),
    state.call? call = some (answer, next) → answer.refuses = true → next = state

omit [DecidableEq L] in
theorem TreeState.keptOnRefusal (state : TreeState T Mark) : state.KeptOnRefusal :=
  fun _ _ _ hc => (effect_of_call hc).2

end

variable [DecidableEq L]

/-- Whatever is called on an arena that was empty, over an array or a row of any size, if it goes
back to live marks only, the nodes are in pre-order and a call that is refused changes nothing. So a
tree in which no node is open can be finished. -/
theorem calls_keep_preorder :
    (∀ (state : TreeState (ArrayTree L) Mark) (live : List String),
      History (.ofSlots #[]) state live → state.tree.Preordered ∧ state.KeptOnRefusal) ∧
    (∀ (cells : Array (Option (Node L))) (state : TreeState (RowTree L) Mark)
      (live : List String), History (.ofSlots (.reuse cells)) state live →
        state.tree.Preordered ∧ state.KeptOnRefusal) ∧
    (∀ (state : TreeState (TrailTree L) Mark) (live : List String),
      History .empty state live → state.tree.arena.Preordered ∧ state.KeptOnRefusal ∧
        (state.tree.arena.innermost = none → ∃ parsed, state.tree.finish = .ok parsed)) := by
  refine ⟨?_, ?_, ?_⟩
  · intro state live h
    have hc := (h.sound arenaIn_self (Arena.coherent_ofSlots rfl)).1
    exact ⟨hc.preordered, state.keptOnRefusal⟩
  · intro cells state live h
    have hc := (h.sound arenaIn_self (Arena.coherent_ofSlots rfl)).1
    exact ⟨hc.preordered, state.keptOnRefusal⟩
  · intro state live h
    have hc := (h.sound arenaIn_trail (Arena.coherent_ofSlots rfl)).1
    refine ⟨hc.preordered, state.keptOnRefusal, fun ho => ?_⟩
    have hp : parentsFirst state.tree.arena.slots = true := by
      refine parentsFirst_of_lt fun i node hn p hp => ?_
      obtain ⟨hi, -⟩ := Array.getElem?_eq_some_iff.1 hn
      exact hc.threaded.parent_lt i hi node hn p hp
    exact ⟨_, TrailTree.finish_eq_ok ho hp⟩

/-- An entry that was completed is open again after going back inside it, and all after that is
gone. In a row of one slot there is no room for more than the entry. -/
theorem calls_keep_preorder_entry :
    let entry : Node Sample.Label := ⟨.entry, 0, 2, none⟩
    (∃ (state : TreeState (ArrayTree Sample.Label) Mark) (live : List String),
      History (.ofSlots #[]) state live ∧ state.tree = ⟨#[entry], some 0⟩ ∧ live = ["inside"] ∧
      state.tree.Preordered) ∧
    (∃ (state : TreeState (RowTree Sample.Label) Mark) (live : List String),
      History (.ofSlots (.reuse #[none])) state live ∧
      state.tree = ⟨⟨#[some entry], 1⟩, some 0⟩ ∧ live = ["after", "inside"] ∧
      state.tree.Preordered) ∧
    (∃ (state : TreeState (TrailTree Sample.Label) Mark) (live : List String),
      History .empty state live ∧ state.tree = ⟨⟨#[entry], none⟩, []⟩ ∧ live = ["inside"] ∧
      state.tree.arena.Preordered ∧ ∃ parsed, state.tree.finish = .ok parsed) := by
  intro entry
  let calls : List (TreeCall Sample.Label) := [.openNode .entry 0, .mark "inside",
    .openNode .key 0, .complete .value 1, .complete .key 1, .mark "after", .openNode .number 1,
    .rewind "after", .complete .entry 2, .rewind "inside"]
  obtain ⟨harray, hrow, htrail⟩ := calls_keep_preorder (L := Sample.Label)
  refine ⟨?_, ?_, ?_⟩
  · have h : (TreeState.follow? (.mk (.ofSlots #[]) []) [] calls).map
        (fun (state, live) => (state.tree, live)) =
        some ((⟨#[entry], some 0⟩ : ArrayTree Sample.Label), ["inside"]) := by decide +kernel
    obtain ⟨⟨state, live⟩, hf, hs⟩ := Option.map_eq_some_iff.1 h
    obtain ⟨ht, hl⟩ := Prod.mk.inj hs
    have hh := History.start.follow hf
    exact ⟨state, live, hh, ht, hl, (harray state live hh).1⟩
  · have h : (TreeState.follow? (.mk (.ofSlots (.reuse #[none])) []) [] calls).map
        (fun (state, live) => (state.tree, live)) =
        some ((⟨⟨#[some entry], 1⟩, some 0⟩ : RowTree Sample.Label), ["after", "inside"]) := by
      decide +kernel
    obtain ⟨⟨state, live⟩, hf, hs⟩ := Option.map_eq_some_iff.1 h
    obtain ⟨ht, hl⟩ := Prod.mk.inj hs
    have hh := History.start.follow hf
    exact ⟨state, live, hh, ht, hl, (hrow _ state live hh).1⟩
  · have h : (TreeState.follow? (.mk .empty []) [] (calls ++ [.complete .entry 2])).map
        (fun (state, live) => (state.tree, live)) =
        some ((⟨⟨#[entry], none⟩, []⟩ : TrailTree Sample.Label), ["inside"]) := by decide +kernel
    obtain ⟨⟨state, live⟩, hf, hs⟩ := Option.map_eq_some_iff.1 h
    obtain ⟨ht, hl⟩ := Prod.mk.inj hs
    have hh := History.start.follow hf
    obtain ⟨hp, -, hfinish⟩ := htrail state live hh
    refine ⟨state, live, hh, ht, hl, hp, hfinish ?_⟩
    have ht : state.tree = ⟨⟨#[entry], none⟩, []⟩ := ht
    rw [ht]

end Peg.Script
