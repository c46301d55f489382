import Peg.Parse
import Peg.Proofs.Preorder
import Peg.Proofs.Refinement
import Peg.Proofs.Scanning

/-
  Well nested trees: what a rule means is a forest of spans inside each other and one after the
  other, from where it starts to where it ends, and all at boundaries of the input (`Means.nested`).
  So the tree of a parse is one of text inside text (`parse_well_nested`).
-/

namespace Peg

/-! ## Nested forests -/

/-- The spans lie one after the other between two offsets, and so does what is inside them. They
start and end at offsets with the property. -/
inductive Nested {L : Type} (ok : Nat → Prop) : Nat → Nat → Forest L → Prop
  | nil {lo hi} (h : lo ≤ hi) (hh : ok hi) : Nested ok lo hi []
  | cons {label lo start stop hi} {inside rest : Forest L} (hlo : lo ≤ start) (hs : ok start)
      (inner : Nested ok start stop inside) (later : Nested ok stop hi rest) :
      Nested ok lo hi (.mk label start stop inside :: rest)

namespace Nested

variable {L : Type} {ok : Nat → Prop} {lo mid hi : Nat} {xs ys : Forest L}

theorem ok_hi (h : Nested ok lo hi xs) : ok hi := by
  induction h with
  | nil _ hh => exact hh
  | cons _ _ _ _ _ ih => exact ih

theorem mono {lo' : Nat} (hl : lo' ≤ lo) (h : Nested ok lo hi xs) : Nested ok lo' hi xs := by
  cases h with
  | nil hle hh => exact .nil (Nat.le_trans hl hle) hh
  | cons hlo hs inner later => exact .cons (Nat.le_trans hl hlo) hs inner later

theorem append (hx : Nested ok lo mid xs) (hy : Nested ok mid hi ys) :
    Nested ok lo hi (xs ++ ys) := by
  induction hx with
  | nil h _ => exact hy.mono h
  | cons hlo hs inner _ _ ih => exact .cons hlo hs inner (ih hy)

end Nested

theorem cons_prefix_drop {α : Type} {x : α} {xs ys : List α} {i : Nat} (h : x :: xs <+: ys.drop i) :
    ys[i]? = some x ∧ xs <+: ys.drop (i + 1) := by
  obtain ⟨tail, ht⟩ := h
  refine ⟨?_, tail, ?_⟩
  · have hx : (ys.drop i)[0]? = some x := by rw [← ht]; rfl
    rwa [List.getElem?_drop] at hx
  · rw [← List.drop_drop, ← ht]
    rfl

theorem append_prefix_drop {α : Type} {xs xs' ys : List α} {i : Nat}
    (h : xs ++ xs' <+: ys.drop i) : xs <+: ys.drop i ∧ xs' <+: ys.drop (i + xs.length) := by
  obtain ⟨tail, ht⟩ := h
  refine ⟨⟨xs' ++ tail, by rw [← ht, List.append_assoc]⟩, tail, ?_⟩
  rw [← List.drop_drop, ← ht, List.append_assoc, List.drop_left]

/-- The nodes of a nested forest stand in pre-order. -/
theorem Nested.laid {L : Type} {ok : Nat → Prop} {lo hi : Nat} {forest : Forest L}
    (h : Nested ok lo hi forest) {nodes : Array (Node L)} {parent : Option Nat} {first : Nat}
    (hn : forestNodes parent first forest <+: nodes.toList.drop first) :
    Laid ok nodes parent lo hi first (first + (forestNodes parent first forest).length) := by
  induction h generalizing parent first with
  | nil h => exact .nil h
  | cons hlo hs inner later ihi ihr =>
    rw [forestNodes_cons] at hn ⊢
    obtain ⟨hnode, hn⟩ := cons_prefix_drop hn
    obtain ⟨hinside, hrest⟩ := append_prefix_drop hn
    have hr := ihr hrest
    rw [Array.getElem?_toList] at hnode
    rw [List.length_cons, List.length_append, ← Nat.add_assoc, ← Nat.add_assoc, Nat.add_right_comm,
      Nat.add_right_comm first _ 1]
    exact .cons hnode hlo hs inner.ok_hi (ihi hinside) hr

/-- The indices of the roots of a forest, if its first node is stored at an index. -/
def forestRoots {L : Type} (index : Nat) : Forest L → List Nat
  | [] => []
  | .mk _ _ _ inside :: rest =>
    index :: forestRoots (index + 1 + (forestNodes (some index) (index + 1) inside).length) rest

open ParseTree in
/-- From where a nested forest is stored on, its roots are the children of their parent, if the
node after the forest is not in there. -/
theorem Nested.childrenFrom_eq {L : Type} {ok : Nat → Prop} {tree : ParseTree L} {lo hi : Nat}
    {forest : Forest L} (h : Nested ok lo hi forest) {parent : Option Nat} {first : Nat}
    (hn : forestNodes parent first forest <+: tree.nodes.toList.drop first)
    (hp : ∀ p, parent = some p → p < first)
    (hend : ∀ node, tree.get? (first + (forestNodes parent first forest).length) = some node →
      parentLE parent node.parent = false) :
    tree.childrenFrom first parent = forestRoots first forest := by
  induction h generalizing first with
  | nil =>
    cases hg : tree.get? first with
    | none => exact childrenFrom_of_none hg
    | some node =>
      rw [childrenFrom_of_some hg, hend node hg]
      rfl
  | @cons label lo start stop hi inside rest hlo hs inner later _ ih =>
    rw [forestNodes_cons] at hn hend
    obtain ⟨hnode, hn⟩ := cons_prefix_drop hn
    obtain ⟨hinside, hrest⟩ := append_prefix_drop hn
    rw [Array.getElem?_toList] at hnode
    rw [List.length_cons, List.length_append] at hend
    have hparent : ∀ p, parent = some p →
        p < first + 1 + (forestNodes (some first) (first + 1) inside).length := by
      intro p hq
      have := hp p hq
      omega
    rw [childrenFrom_sibling hnode hp (inner.laid hinside), forestRoots]
    refine congrArg (first :: ·) (ih hrest hparent fun node hg => hend node ?_)
    rw [← hg]
    congr 1
    omega

theorem Nested.roots_eq {L : Type} {ok : Nat → Prop} {tree : ParseTree L} {lo hi : Nat}
    {forest : Forest L} (h : Nested ok lo hi forest)
    (hn : tree.nodes.toList = forestNodes none 0 forest) : tree.roots = forestRoots 0 forest := by
  have hp : forestNodes none 0 forest <+: tree.nodes.toList.drop 0 := by
    rw [hn]
    exact List.prefix_refl _
  refine h.childrenFrom_eq hp nofun fun node hnode => ?_
  obtain ⟨hlt, -⟩ := Array.getElem?_eq_some_iff.1 hnode
  rw [← hn, Array.length_toList] at hlt
  omega

/-! ## What a rule means is nested -/

section

variable {U L : Type} [InputUnit U] {input : Input U}

/-- The forest of a match is nested between where the match starts and where it ends. -/
def Answer.NestedFrom (ok : Nat → Prop) (offset : Nat) : Answer L → Prop
  | .yes stop forest => Nested ok offset stop forest
  | .no | .failed _ _ => True

namespace Answer.NestedFrom

variable {ok : Nat → Prop} {offset : Nat} {answer : Answer L}

theorem here (ho : ok offset) : (Answer.yes offset [] : Answer L).NestedFrom ok offset :=
  .nil (Nat.le_refl _) ho

theorem after {stop : Nat} {forest : Forest L} (h : Nested ok offset stop forest)
    (hn : answer.NestedFrom ok stop) : (answer.after forest).NestedFrom ok offset := by
  cases answer with
  | yes => exact h.append hn
  | no | failed => trivial

theorem accept (h : answer.NestedFrom ok offset) (ho : ok offset) :
    (answer.accept offset).NestedFrom ok offset := by
  cases answer with
  | yes => exact h
  | no => exact here ho
  | failed => trivial

theorem mono {next : Nat} (hn : offset ≤ next) (h : answer.NestedFrom ok next) :
    answer.NestedFrom ok offset := by
  cases answer with
  | yes => exact Nested.mono hn h
  | no | failed => trivial

theorem wrap {label : L} (h : answer.NestedFrom ok offset) (ho : ok offset) :
    (answer.wrap label offset).NestedFrom ok offset := by
  cases answer with
  | yes stop forest =>
    have h : Nested ok offset stop forest := h
    exact .cons (Nat.le_refl _) ho h (.nil (Nat.le_refl _) h.ok_hi)
  | no | failed => trivial

end Answer.NestedFrom

open Matching Answer in
/-- From a boundary on, what a rule means is nested and stays at boundaries. -/
theorem Matching.Means.nested {references : Nat → Reference U L} {rule : Rule U L} {offset : Nat}
    {answer : Answer L} (h : Means input references rule offset answer)
    (ho : input.isBoundary offset = true) :
    answer.NestedFrom (input.isBoundary · = true) offset := by
  induction h with
  | unit hu => exact .nil (Nat.le_add_right _ _) (Input.isBoundary_add hu)
  | units h => exact .nil (Nat.le_add_right _ _) (Input.isBoundary_of_spells h ho)
  | unitNot | unitsNot | atEndNot | fail | exhaust | orNil | scanEnd | refNot => trivial
  | atEnd | succeed | seqNil | starEnd | optEnd | timesNil => exact .here ho
  | seqStop _ _ ih | orStop _ _ ih | plusStop _ _ ih | timesStop _ _ ih | scanStop _ _ ih
  | starStill _ _ ih | ref _ _ ih | counted _ ih => exact ih ho
  | orOn _ _ _ ihn => exact ihn ho
  | seqOn _ _ ih ihn | starOn _ _ _ _ ih ihn | plusOn _ _ ih ihn | timesOn _ _ ih ihn =>
    exact .after (ih ho) (ihn (ih ho).ok_hi)
  | starStop _ _ _ ih | opt _ _ ih => exact (ih ho).accept ho
  | @ahead _ _ answer _ ih =>
    cases answer with
    | yes => exact .here ho
    | no | failed => trivial
  | @notAhead _ _ answer _ ih =>
    cases answer with
    | no => exact .here ho
    | yes | failed => trivial
  | scanOn _ _ _ _ ihn => exact (ihn (Input.isBoundary_next ho)).mono (input.le_next _)
  | @mandatory _ _ answer _ ih =>
    cases answer with
    | yes => exact ih ho
    | no | failed => trivial
  | @recover _ _ answer _ ih =>
    cases answer with
    | yes => exact ih ho
    | no => trivial
    | failed failure => cases failure <;> trivial
  | store _ ih => exact (ih ho).wrap ho

end

/-! ## The text of a node -/

theorem eq_nil_of_extent {U : Type} [InputUnit U] {us : List U} (h : extent us = 0) : us = [] := by
  cases us with
  | nil => rfl
  | cons u us =>
    have := InputUnit.width_pos u
    unfold extent at h
    omega

/-- What is sliced between two boundaries is what stands between them. -/
theorem Input.slice?_eq_some {U : Type} [InputUnit U] {input : Input U} {start stop : Nat}
    (hle : start ≤ stop) (hs : input.isBoundary start = true)
    (he : input.isBoundary stop = true) : ∃ before inside after,
      input.units = before ++ inside ++ after ∧ extent before = start ∧
      extent (before ++ inside) = stop ∧ input.slice? start stop = some inside := by
  obtain ⟨before, rest, hb, rfl⟩ := (input.isBoundary_iff start).1 hs
  obtain ⟨upTo, after, hu, rfl⟩ := (input.isBoundary_iff stop).1 he
  obtain ⟨inside, rfl, rfl⟩ : ∃ inside, upTo = before ++ inside ∧ rest = inside ++ after := by
    rcases List.append_eq_append_iff.1 (hb.symm.trans hu) with ⟨inside, hx, hy⟩ | ⟨more, hx, hy⟩
    · exact ⟨inside, hx, hy⟩
    · rw [hx, extent_append] at hle
      have hm : extent more = 0 := by omega
      obtain rfl := eq_nil_of_extent hm
      exact ⟨[], by simpa using hx.symm, by simpa using hy.symm⟩
  refine ⟨before, inside, after, hu, rfl, rfl, ?_⟩
  unfold slice?
  rw [hs, he, decide_eq_true hle]
  have hcells : (input.cells.extract (extent before) (extent (before ++ inside))).toList =
      layout inside := by
    rw [input.cells_eq, hu, layout_append, layout_append, extent_append, Array.toList_extract,
      List.extract_eq_take_drop, ← layout_length before, ← layout_length inside,
      List.append_assoc, List.drop_left, Nat.add_sub_cancel_left, List.take_left]
  rw [hcells, layout_filterMap]
  rfl

theorem Input.Stands.slice? {U : Type} [InputUnit U] {input : Input U} {start : Nat}
    {text rest : List U} (h : input.Stands start (text ++ rest)) :
    input.slice? start (start + extent text) = some text := by
  obtain ⟨before, hu, rfl⟩ := h
  have hb : input.isBoundary (extent before) = true :=
    (input.isBoundary_iff _).2 ⟨before, text ++ rest, hu, rfl⟩
  have he : input.isBoundary (extent before + extent text) = true := by
    refine (input.isBoundary_iff _).2 ⟨before ++ text, rest, ?_, extent_append _ _⟩
    rw [hu, List.append_assoc]
  obtain ⟨before', inside, after, hu', hb', hi', hslice⟩ :=
    Input.slice?_eq_some (Nat.le_add_right _ _) hb he
  rw [hu, List.append_assoc] at hu'
  obtain rfl := eq_of_extent_eq hu' hb'.symm
  rw [extent_append] at hi'
  have hi : extent inside = extent text := Nat.add_left_cancel hi'
  obtain rfl := eq_of_extent_eq (List.append_cancel_left hu') hi.symm
  exact hslice

/-! ## The tree of a parse -/

open Relation Matching

/-- The tree is one of text inside text: parents stand right before what is inside them, which lies
in their span, siblings come one after the other, every span is a stretch of the input, and a walk
through the tree goes through the nodes in the order in which they are stored, if there is an index
for each. -/
structure WellNested {L : Type} (input : Input Char) (parsed : Parsed L) : Prop where
  preorder : ∀ p i, ParentIn parsed.tree.nodes p i →
    0 < i ∧ ReflTransGen (ParentIn parsed.tree.nodes) p (i - 1)
  span : ∀ i node, parsed.tree.get? i = some node →
    node.start ≤ node.stop ∧ node.stop ≤ parsed.length
  inside : ∀ i node p, parsed.tree.get? i = some node → node.parent = some p →
    ∃ outer, parsed.tree.get? p = some outer ∧
      outer.start ≤ node.start ∧ node.stop ≤ outer.stop
  siblings : ∀ i j a b, i < j → parsed.tree.get? i = some a → parsed.tree.get? j = some b →
    a.parent = b.parent → a.stop ≤ b.start
  boundaries : ∀ i node, parsed.tree.get? i = some node →
    input.isBoundary node.start = true ∧ input.isBoundary node.stop = true
  text : ∀ i node, parsed.tree.get? i = some node → ∃ before inside after,
    input.units = before ++ inside ++ after ∧ extent before = node.start ∧
    extent (before ++ inside) = node.stop ∧
    parsed.tree.text? i input = some (String.ofList inside)
  walk : parsed.tree.length ≤ ParseTree.maxIndex → ∀ visited,
    parsed.tree.Walks parsed.tree.roots visited ↔ visited = List.range parsed.tree.length

variable {L : Type}

theorem Laid.parentsFirst {ok : Nat → Prop} {nodes : Array (Node L)} {lo hi : Nat}
    (h : Laid ok nodes none lo hi 0 nodes.size) : parentsFirst nodes = true := by
  refine parentsFirst_of_lt fun i node hn q hq => ?_
  obtain ⟨hi, -⟩ := Array.getElem?_eq_some_iff.1 hn
  obtain ⟨node', hn', hd⟩ := h.liesIn (Nat.zero_le i) hi
  obtain rfl := Option.some.inj (hn'.symm.trans hn)
  rcases hd.parent_cases with hp | ⟨p, -, hp, -, hpi, -⟩
  · cases hp.symm.trans hq
  · cases hp.symm.trans hq
    exact hpi

/-- A tree that is laid out from the start of the input is well nested. -/
theorem Laid.wellNested {input : Input Char} {parsed : Parsed L}
    (h : Laid (input.isBoundary · = true) parsed.tree.nodes none 0 parsed.length 0
      parsed.tree.nodes.size) : WellNested input parsed := by
  have hp : ∀ p, (none : Option Nat) = some p → p < 0 := nofun
  have lies {i : Nat} {node : Node L} (hn : parsed.tree.get? i = some node) :
      i < parsed.tree.nodes.size ∧ LiesIn (input.isBoundary · = true) parsed.tree.nodes none 0
        parsed.length 0 i node := by
    obtain ⟨hi, -⟩ := Array.getElem?_eq_some_iff.1 hn
    obtain ⟨node', hn', hd⟩ := h.liesIn (Nat.zero_le i) hi
    obtain rfl := Option.some.inj (hn'.symm.trans hn)
    exact ⟨hi, hd⟩
  refine ⟨?_, ?_, ?_, ?_, ?_, ?_, ?_⟩
  · intro p i hpi
    obtain ⟨node, hn, hpn⟩ := id hpi
    have hi : 0 < i := by
      rcases Nat.eq_zero_or_pos i with rfl | hi
      · rw [h.parent_first (lies hn).1 hn] at hpn
        cases hpn
      · exact hi
    exact ⟨hi, h.parent_before hi (lies hn).1 hpi⟩
  · intro i node hn
    exact ⟨(lies hn).2.start_le, (lies hn).2.le_hi⟩
  · intro i node p hn hpn
    rcases (lies hn).2.parent_cases with hq | ⟨q, outer, hq, -, -, ho, hos, hoe⟩
    · rw [hpn] at hq
      cases hq
    · obtain rfl := Option.some.inj (hq.symm.trans hpn)
      exact ⟨outer, ho, hos, hoe⟩
  · intro i j a b hij ha hb hab
    exact h.stop_le_start hp (Nat.zero_le i) hij (lies hb).1 ha hb hab
  · intro i node hn
    exact ⟨(lies hn).2.ok_start, (lies hn).2.ok_stop⟩
  · intro i node hn
    have hd := (lies hn).2
    obtain ⟨before, inside, after, hu, hb, hi, hs⟩ :=
      Input.slice?_eq_some hd.start_le hd.ok_start hd.ok_stop
    refine ⟨before, inside, after, hu, hb, hi, ?_⟩
    unfold ParseTree.text? ParseTree.slice?
    rw [hn, Option.bind_some, hs]
    rfl
  · intro hm visited
    have hend : ∀ node, parsed.tree.get? parsed.tree.nodes.size = some node →
        ParseTree.parentLE none node.parent = false := by
      intro node hn
      exact absurd (lies hn).1 (Nat.lt_irrefl _)
    have hw := h.walks hp hm hend
    rw [Nat.sub_zero, ← List.range_eq_range'] at hw
    constructor
    · intro hv
      exact hv.unique hw
    · rintro rfl
      exact hw

/-! ## Every parse -/

variable [DecidableEq L]

/-- What a match over an empty tree has recorded is laid out from the start of the input to where
the match ended, and no node is open. -/
theorem returns_laid {U : Type} [InputUnit U] [DecidableEq U] {input : Input U}
    {references : Nat → Reference U L} {rule : Rule U L} {result : Result (TrailTree L) L Mark}
    (h : Returns ⟨input, references, .text⟩ rule (.start .empty) result)
    (ho : result.outcome = .matched) :
    result.cursor.tree.arena.innermost = none ∧
    Laid (input.isBoundary · = true) result.cursor.tree.arena.slots none 0 result.cursor.offset 0
      result.cursor.tree.arena.slots.size := by
  obtain ⟨parts, hg⟩ := returns_iff_goes.1 h
  obtain ⟨answer, hm, ht⟩ := goes_means rfl hg
  obtain ⟨forest, rfl, hl⟩ := ht.eq_yes ho
  have hl : (TrailTree.empty : TrailTree L).arena.Lays forest result.cursor.tree.arena := hl
  have hb : input.isBoundary 0 = true := (input.isBoundary_iff 0).2 ⟨[], input.units, rfl, rfl⟩
  have hnested : Nested (input.isBoundary · = true) 0 result.cursor.offset forest := hm.nested hb
  have hn : result.cursor.tree.arena.slots.toList = forestNodes none 0 forest := by
    rw [← Arena.toList_eq]
    exact hl.nodes_eq
  have hlaid : Laid (input.isBoundary · = true) result.cursor.tree.arena.slots none 0
      result.cursor.offset 0 (0 + (forestNodes none 0 forest).length) :=
    hnested.laid (by rw [hn]; exact List.prefix_refl _)
  rw [← hn, Nat.zero_add] at hlaid
  exact ⟨hl.innermost_eq, hlaid⟩

omit [DecidableEq L] in
theorem finish_of_laid {ok : Nat → Prop} {tree : TrailTree L} {hi : Nat}
    (ho : tree.arena.innermost = none)
    (h : Laid ok tree.arena.slots none 0 hi 0 tree.arena.slots.size) :
    tree.finish = .ok ⟨tree.arena.slots, h.parentsFirst⟩ :=
  TrailTree.finish_eq_ok ho h.parentsFirst

/-- A parse never ends in a fault, and the tree that it gives is well nested. -/
theorem parse_well_nested [Describe L] (references : Nat → Reference Char L) (bound : Nat)
    (rule : Rule Char L) (input : Input Char) (report : ParseReport L)
    (h : parse references bound rule input = some report) :
    (∀ fault, report.answer ≠ .error fault) ∧
    ∀ parsed, report.answer = .ok (.ok parsed) → WellNested input parsed := by
  obtain ⟨result, hr, rfl⟩ := Option.map_eq_some_iff.1 h
  have hret : Returns ⟨input, references, .text⟩ rule (.start .empty) result := ⟨bound, hr⟩
  unfold ParseReport.ofResult
  cases ho : result.outcome with
  | matched =>
    obtain ⟨hi, hl⟩ := returns_laid hret ho
    dsimp only
    rw [finish_of_laid hi hl]
    refine ⟨nofun, fun parsed hp => ?_⟩
    cases hp
    exact Laid.wellNested hl
  | unmatched => exact ⟨nofun, nofun⟩
  | failed failure =>
    cases failure with
    | mandatory position => exact ⟨nofun, nofun⟩
    | exhausted => exact ⟨nofun, nofun⟩
  | faulted fault => exact absurd ho ((returns_balanced hret).sound fault)

/-- A list in a list, between words of which the first is not ASCII: `(é,(1),b)`. -/
theorem parse_well_nested_list :
    let input : Input Char := .ofList ['(', 'é', ',', '(', '1', ')', ',', 'b', ')']
    ∃ report parsed, parse Sample.workspace.registry.lookup 30 Sample.listRule input = some report ∧
      report.answer = .ok (.ok parsed) ∧ parsed.length = 10 ∧
      parsed.tree.nodes = #[⟨.list, 0, 10, none⟩, ⟨.item, 1, 3, some 0⟩, ⟨.word, 1, 3, some 1⟩,
        ⟨.item, 4, 7, some 0⟩, ⟨.list, 4, 7, some 3⟩, ⟨.item, 5, 6, some 4⟩,
        ⟨.number, 5, 6, some 5⟩, ⟨.item, 8, 9, some 0⟩, ⟨.word, 8, 9, some 7⟩] ∧
      WellNested input parsed := by
  intro input
  have h : (parse Sample.workspace.registry.lookup 30 Sample.listRule input).bind (fun report =>
      match report.answer with
      | .ok (.ok parsed) => some (parsed.length, parsed.tree.nodes)
      | _ => none) =
      some (10, #[⟨.list, 0, 10, none⟩, ⟨.item, 1, 3, some 0⟩, ⟨.word, 1, 3, some 1⟩,
        ⟨.item, 4, 7, some 0⟩, ⟨.list, 4, 7, some 3⟩, ⟨.item, 5, 6, some 4⟩,
        ⟨.number, 5, 6, some 5⟩, ⟨.item, 8, 9, some 0⟩, ⟨.word, 8, 9, some 7⟩]) := by
    decide +kernel
  obtain ⟨report, hr, hs⟩ := Option.bind_eq_some_iff.1 h
  have hw := (parse_well_nested _ 30 _ input report hr).2
  split at hs
  · rename_i parsed ha
    obtain ⟨hl, hn⟩ := Prod.mk.inj (Option.some.inj hs)
    exact ⟨report, parsed, hr, ha, hl, hn, hw parsed ha⟩
  · cases hs

end Peg
