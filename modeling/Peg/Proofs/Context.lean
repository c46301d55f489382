import Peg.Proofs.Shadow

/-
  Contexts: what stands before the place where a match begins, in the input and in the tree. A
  match in a context is the match of the rest of the input over an empty tree, moved along
  (`match_in_context`): no rule looks back.
-/

namespace Peg

/-- The nodes that are stored already, the innermost open one of them, and the offset. -/
structure Context (L : Type) where
  nodes : Array (Node L)
  innermost : Option Nat
  offset : Nat

/-- The same event, at a position that is moved along. -/
def Event.map {L M N : Type} (f : Position M → Position N) : Event L M → Event L N
  | mandatoryFailed position => mandatoryFailed (f position)
  | recovered position => recovered (f position)
  | whileParsing label => whileParsing label
  | notDefined => notDefined
  | dropped => dropped
  | tried counter => tried counter

namespace Context

variable {L : Type} (context : Context L)

/-- Where an index among the new nodes points to among all; outside the new nodes is the innermost
node of the context. -/
def index : Option Nat → Option Nat
  | none => context.innermost
  | some i => some (context.nodes.size + i)

def node (node : Node L) : Node L :=
  ⟨node.label, node.start + context.offset, node.stop + context.offset, context.index node.parent⟩

example : (Context.mk #[⟨'a', 0, 0, none⟩] (some 0) 2).node ⟨'b', 0, 1, none⟩ =
    ⟨'b', 2, 3, some 0⟩ := rfl

def mark (mark : Mark) : Mark := ⟨context.nodes.size + mark.size, context.index mark.innermost⟩

def position (position : Position Mark) : Position Mark :=
  ⟨position.offset + context.offset, context.mark position.mark⟩

def arena (arena : ArrayTree L) : ArrayTree L :=
  ⟨context.nodes ++ arena.slots.map context.node, context.index arena.innermost⟩

def tree (tree : TrailTree L) : TrailTree L := ⟨context.arena tree.arena, tree.trail⟩

def cursor (cursor : Cursor (TrailTree L)) : Cursor (TrailTree L) :=
  ⟨cursor.offset + context.offset, context.tree cursor.tree⟩

/-- The same result after what the context holds. -/
def result (result : Result (TrailTree L) L Mark) : Result (TrailTree L) L Mark :=
  ⟨result.outcome.map context.position, context.cursor result.cursor,
    result.events.map (.map context.position)⟩

/-! ## Arenas in a context -/

variable {context} {a b : ArrayTree L} {label : L}

theorem size_arena (a : ArrayTree L) : (context.arena a).size = context.nodes.size + a.size := by
  show (context.nodes ++ a.slots.map context.node).size = context.nodes.size + a.slots.size
  rw [Array.size_append, Array.size_map]

theorem mark_arena (a : ArrayTree L) : (context.arena a).mark = context.mark a.mark := by
  show Mark.mk (context.arena a).size (context.index a.innermost) = _
  rw [size_arena]
  rfl

theorem get?_arena (a : ArrayTree L) (i : Nat) :
    (context.arena a).get? (context.nodes.size + i) = (a.get? i).map context.node := by
  show (context.nodes ++ a.slots.map context.node)[context.nodes.size + i]? = a.slots[i]?.map _
  rw [Array.getElem?_append_right (Nat.le_add_right _ _), Nat.add_sub_cancel_left,
    Array.getElem?_map]

theorem rewind_arena (a : ArrayTree L) (mark : Mark) :
    (context.arena a).rewind (context.mark mark) = context.arena (a.rewind mark) := by
  have hs : (context.nodes ++ a.slots.map context.node).shrink (context.nodes.size + mark.size) =
      context.nodes ++ (a.slots.shrink mark.size).map context.node := by
    apply Array.ext'
    rw [Array.toList_shrink, Array.toList_append, Array.toList_append, Array.toList_map,
      Array.toList_map, Array.toList_shrink, ← Array.length_toList, List.take_length_add_append,
      List.map_take]
  exact congrArg (Arena.mk · (context.index mark.innermost)) hs

theorem openNode?_arena {start : Nat} (ho : a.openNode? label start = some b) :
    (context.arena a).openNode? label (start + context.offset) = some (context.arena b) := by
  cases ho
  have hs : (context.nodes ++ a.slots.map context.node).push
      (context.node ⟨label, start, start, a.innermost⟩) =
      context.nodes ++ (a.slots.push ⟨label, start, start, a.innermost⟩).map context.node := by
    rw [Array.map_push, Array.append_push]
  have hi : some (context.arena a).size = context.index (some a.size) := by
    rw [size_arena]
    rfl
  show some (Arena.mk _ (some (context.arena a).size)) = some (Arena.mk _ _)
  rw [hi]
  exact congrArg (fun slots => some (Arena.mk slots (context.index (some a.size)))) hs

theorem modify_arena (slots : Array (Node L)) (i stop : Nat) :
    (context.nodes ++ slots.map context.node).modify (context.nodes.size + i)
        ({ · with stop := stop + context.offset }) =
      context.nodes ++ (slots.modify i ({ · with stop := stop })).map context.node := by
  apply Array.ext_getElem?
  intro j
  rw [Array.getElem?_modify]
  by_cases hj : j < context.nodes.size
  · rw [if_neg (by omega), Array.getElem?_append_left hj, Array.getElem?_append_left hj]
  · rw [Array.getElem?_append_right (by omega), Array.getElem?_append_right (by omega),
      Array.getElem?_map, Array.getElem?_map, Array.getElem?_modify]
    by_cases hi : i = j - context.nodes.size
    · rw [if_pos (by omega), if_pos hi, Option.map_map, Option.map_map]
      rfl
    · rw [if_neg (by omega), if_neg hi]

variable [DecidableEq L]

theorem complete_arena {stop : Nat} {c : ArrayTree L} (h : a.complete label stop = .ok b)
    (hc : (context.arena a).complete label (stop + context.offset) = .ok c) :
    c = context.arena b := by
  obtain ⟨i, node, hi, hn, rfl⟩ := Arena.complete_eq_ok h
  obtain ⟨i', node', hi', hn', rfl⟩ := Arena.complete_eq_ok hc
  have hi : context.index a.innermost = some (context.nodes.size + i) := by
    rw [hi]
    rfl
  obtain rfl : context.nodes.size + i = i' := Option.some.inj (hi.symm.trans hi')
  rw [get?_arena, hn] at hn'
  obtain rfl : context.node node = node' := Option.some.inj hn'
  exact congrArg (Arena.mk · (context.index node.parent)) (modify_arena a.slots i stop)

/-- The node that is abandoned is one of the new ones. -/
theorem abandon_arena {c : ArrayTree L} (h : a.abandon label = .ok b)
    (hn : ∀ i, a.innermost = some i → (a.get? i).isSome)
    (hc : (context.arena a).abandon label = .ok c) : c = context.arena b := by
  obtain ⟨i, hi, rfl⟩ := Arena.abandon_eq_ok h
  obtain ⟨i', hi', rfl⟩ := Arena.abandon_eq_ok hc
  obtain ⟨node, hn⟩ := Option.isSome_iff_exists.1 (hn i hi)
  have hi : context.index a.innermost = some (context.nodes.size + i) := by
    rw [hi]
    rfl
  obtain rfl : context.nodes.size + i = i' := Option.some.inj (hi.symm.trans hi')
  have hp : (context.arena a).parent? (context.nodes.size + i) =
      context.index (a.parent? i) := by
    unfold Arena.parent?
    rw [get?_arena, hn]
    rfl
  rw [hp]
  exact rewind_arena a ⟨i, a.parent? i⟩

end Context

/-! ## The rest of an input -/

section

variable {U : Type} [InputUnit U]

theorem Input.length_ofList (us : List U) : (Input.ofList us).length = extent us :=
  Input.length_eq _

theorem Input.unitAt?_ofList_append (xs ys : List U) (offset : Nat) :
    (Input.ofList (xs ++ ys)).unitAt? (offset + extent xs) = (Input.ofList ys).unitAt? offset := by
  rw [Input.unitAt?_eq, Input.unitAt?_eq]
  show ((layout (xs ++ ys))[offset + extent xs]?).join = ((layout ys)[offset]?).join
  rw [layout_append, List.getElem?_append_right (by rw [layout_length]; omega), layout_length,
    Nat.add_sub_cancel]

/-- The rest of an input starts where the units before it end. -/
def Alignment.rest (xs ys : List U) : Alignment (Input.ofList ys) (Input.ofList (xs ++ ys)) where
  At a b := b = a + extent xs
  unitAt?_eq h := by rw [h, Input.unitAt?_ofList_append]
  length_le_iff h := by
    rw [h, Input.length_ofList, Input.length_ofList, extent_append]
    omega
  add h n := by
    rw [h]
    omega
  eq_iff h h' := by
    rw [h, h']
    omega

end

/-! ## A match in a context -/

theorem Event.eq_map_of_alike {L M N : Type} {R : Position M → Position N → Prop}
    {f : Position M → Position N} (hf : ∀ p q, R p q → q = f p) {events : List (Event L M)}
    {events' : List (Event L N)} (h : List.Forall₂ (Event.Alike R) events events') :
    events' = events.map (.map f) := by
  induction h with
  | nil => rfl
  | cons ha _ ih =>
    rw [List.map_cons, ← ih]
    cases ha with
    | mandatoryFailed hp | recovered hp =>
      rw [hf _ _ hp]
      rfl
    | whileParsing | notDefined | dropped | tried => rfl

/-- The node that is innermost open is a stored one. -/
theorem Opened.isSome_innermost {L : Type} [DecidableEq L] {label : L} {tree : TrailTree L}
    (h : Opened label tree) {i : Nat} (hi : tree.arena.innermost = some i) :
    (tree.arena.get? i).isSome := by
  obtain ⟨before, opened, start, ho, hg⟩ := h
  obtain ⟨arena, ha, rfl⟩ := Option.map_eq_some_iff.1 ho
  obtain ⟨hi', hn, -⟩ := Arena.opened_of_grown ha hg
  obtain rfl : before.arena.size = i := Option.some.inj (hi'.symm.trans hi)
  rw [hn]
  rfl

namespace Matching

variable {U L : Type} [InputUnit U] [DecidableEq L]

/-- Over the rest of the input, a match in a context follows the match out of it. -/
def contextShadow (context : Context L) (xs ys : List U) (hk : context.offset = extent xs) :
    Shadow (.ofList ys) (.ofList (xs ++ ys)) (TrailTree L) (TrailTree L) where
  toAlignment := .rest xs ys
  Rel t u := u = context.tree t
  Fits _ := True
  fits _ := trivial
  rewind {t t' u u'} h h' := by
    subst h
    subst h'
    show TrailTree.mk ((context.arena t'.arena).rewind (context.arena t.arena).mark) [] = _
    rw [Context.mark_arena, Context.rewind_arena]
    rfl
  opened {t t' u label a b} h hb ho := by
    subst h
    obtain rfl : b = a + context.offset := by rw [hk]; exact hb
    obtain ⟨arena, ha, rfl⟩ := Option.map_eq_some_iff.1 ho
    exact Or.inl ⟨_, Option.map_eq_some_iff.2 ⟨_, Context.openNode?_arena ha, rfl⟩, rfl⟩
  full _ _ ho := by cases ho
  complete {t t' u u' label a b} h hb _ ht _ hu := by
    subst h
    obtain rfl : b = a + context.offset := by rw [hk]; exact hb
    obtain ⟨arena, ha, rfl⟩ := of_map_eq_ok ht
    obtain ⟨arena', ha', rfl⟩ := of_map_eq_ok hu
    rw [Context.complete_arena ha ha']
    rfl
  abandon {t t' u u' label} h ho ht _ hu := by
    subst h
    obtain ⟨arena, ha, rfl⟩ := of_map_eq_ok ht
    obtain ⟨arena', ha', rfl⟩ := of_map_eq_ok hu
    rw [Context.abandon_arena ha (fun i hi => ho.isSome_innermost hi) ha']
    rfl
  unwind {t u} label h := by
    subst h
    rfl

section

variable {context : Context L} {xs ys : List U} {hk : context.offset = extent xs}

theorem position_in_context {p q : Position Mark}
    (h : (contextShadow context xs ys hk).Positions p q) : q = context.position p := by
  obtain ⟨offset, mark⟩ := p
  obtain ⟨offset', mark'⟩ := q
  obtain ⟨ho, t, u, rfl, ht, hu⟩ := h
  obtain rfl : offset' = offset + context.offset := by rw [hk]; exact ho
  obtain rfl : mark = t.arena.mark := ht
  obtain rfl : mark' = (context.arena t.arena).mark := hu
  rw [Context.mark_arena]
  rfl

theorem result_in_context {result last : Result (TrailTree L) L Mark}
    (h : (contextShadow context xs ys hk).Results result last) : last = context.result result := by
  obtain ⟨outcome, ⟨offset, tree⟩, events⟩ := last
  obtain ⟨ho, ⟨hoff, ht⟩, he⟩ := h
  have hout : outcome.map id = result.outcome.map context.position :=
    ho.map_eq fun p q hp => position_in_context hp
  have hlog : events = result.events.map (.map context.position) :=
    Event.eq_map_of_alike (fun p q hp => position_in_context hp) he
  obtain rfl : tree = context.tree result.cursor.tree := ht
  obtain rfl : offset = result.cursor.offset + context.offset := by rw [hk]; exact hoff
  rw [Outcome.map_id] at hout
  rw [hout, hlog]
  rfl

end

variable [DecidableEq U] {references : Nat → Reference U L} {rule : Rule U L}
  {cursor : Cursor (TrailTree L)} {result last : Result (TrailTree L) L Mark}

/-- A match of the rest of the input is found again in every context. -/
theorem returns_in_context {policy : Policy} (hp : policy.nodesAreProgress = false)
    (context : Context L) {xs ys : List U} (hk : context.offset = extent xs)
    (h : Returns ⟨.ofList ys, references, policy⟩ rule cursor result) :
    Returns ⟨.ofList (xs ++ ys), references, policy⟩ rule (context.cursor cursor)
      (context.result result) := by
  obtain ⟨course, hc⟩ := h.traced
  obtain ⟨hh, rfl, rfl, rfl, -⟩ := hc
  have hs : (contextShadow context xs ys hk).Cursors course.cursor
      (context.cursor course.cursor) := ⟨congrArg (course.cursor.offset + ·) hk, rfl⟩
  obtain ⟨last, hl, hf⟩ := Shadow.returns_follows hp hh hs
  obtain rfl := result_in_context (hf.resolve_right fun hx => hx.1 fun _ _ => trivial).2
  exact hl

/-- Out of its context, a match of the rest of the input returns too. -/
theorem returns_out_of_context {policy : Policy} (hp : policy.nodesAreProgress = false)
    (context : Context L) {xs ys : List U} (hk : context.offset = extent xs)
    (h : Returns ⟨.ofList (xs ++ ys), references, policy⟩ rule (context.cursor cursor) last) :
    ∃ result, Returns ⟨.ofList ys, references, policy⟩ rule cursor result ∧
      last = context.result result := by
  obtain ⟨course, hc⟩ := h.traced
  obtain ⟨hh, rfl, hcursor, rfl, -⟩ := hc
  have hs : ((contextShadow context xs ys hk).flip fun _ => trivial).Cursors course.cursor
      cursor := by
    rw [hcursor]
    exact ⟨congrArg (cursor.offset + ·) hk, rfl⟩
  obtain ⟨result, hr, -⟩ := Shadow.returns_follows hp hh hs
  exact ⟨result, hr, h.unique _ (returns_in_context hp context hk hr)⟩

/-- Matching at a place in the input, over a tree that holds nodes already, is matching the rest of
the input over an empty tree: it returns exactly then, with that result moved along. -/
theorem match_in_context (xs ys : List U) (references : Nat → Reference U L) (rule : Rule U L)
    (nodes : Array (Node L)) (innermost : Option Nat) (last : Result (TrailTree L) L Mark) :
    Returns ⟨.ofList (xs ++ ys), references, .text⟩ rule
        ⟨extent xs, ⟨⟨nodes, innermost⟩, []⟩⟩ last ↔
      ∃ result, Returns ⟨.ofList ys, references, .text⟩ rule (.start .empty) result ∧
        last = (Context.mk nodes innermost (extent xs)).result result := by
  let context : Context L := ⟨nodes, innermost, extent xs⟩
  have hc : context.cursor (.start .empty) = ⟨extent xs, ⟨⟨nodes, innermost⟩, []⟩⟩ := by
    show Cursor.mk (0 + extent xs)
      (TrailTree.mk ⟨nodes ++ Array.map context.node #[], innermost⟩ []) = _
    rw [Nat.zero_add, Array.map_empty, Array.append_empty]
  rw [← hc]
  constructor
  · exact returns_out_of_context rfl context rfl
  · rintro ⟨result, hr, rfl⟩
    exact returns_in_context rfl context rfl hr

end Matching

end Peg
