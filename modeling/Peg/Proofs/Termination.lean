import Peg.Proofs.Commitment
import Peg.Proofs.Invariant
import Peg.Proofs.Trace

/-
  Termination: a rule that does not come to itself again through references is matched in the end,
  from every place where the units to come can be read. The measure of a loop is the units left. A
  round that goes on has consumed one of them, since a match never moves back, and between two
  places of a scan one is skipped. It also bounds how often a loop tries its rule (`Tries`), even if
  the last try never comes back.
-/

namespace Peg

open Relation

/-! ## The units left -/

namespace Input

variable {U : Type} [InputUnit U]

/-- The units that start at the offset or later. -/
def rest (input : Input U) (offset : Nat) : List U :=
  (input.cells.toList.drop offset).filterMap id

/-- A unit starts at the offset, or the input does not go past it. -/
def Legible (input : Input U) (offset : Nat) : Prop :=
  input.isBoundary offset = true ∨ input.length ≤ offset

variable {input : Input U} {offset later : Nat}

theorem Legible.unitAt? (h : input.Legible offset) (hl : offset < input.length) :
    ∃ u, input.unitAt? offset = some u :=
  (boundary_cases (h.resolve_right (Nat.not_le_of_lt hl))).resolve_left (Nat.ne_of_lt hl)

theorem Legible.next (h : input.Legible offset) : input.Legible (input.next offset) :=
  h.imp isBoundary_next fun hl => Nat.le_trans hl (input.le_next offset)

/-- Where all units are of one width, one starts at every offset. -/
theorem legible_of_width (hw : ∀ u : U, InputUnit.width u = 1) (input : Input U) (offset : Nat) :
    input.Legible offset := by
  rcases Nat.lt_or_ge offset input.length with hl | hl
  · have he : ∀ us : List U, extent us = us.length := by
      intro us
      induction us with
      | nil => rfl
      | cons u us ih => rw [extent, hw, ih, List.length_cons, Nat.add_comm]
    rw [length_eq, he] at hl
    have hs := (List.take_append_drop offset input.units).symm
    refine Or.inl ((isBoundary_iff input offset).2 ⟨_, _, hs, ?_⟩)
    rw [he, List.length_take, Nat.min_eq_left (Nat.le_of_lt hl)]
  · exact Or.inr hl

/-- From a boundary, or past the end, or over units of one width, the input can be read on. -/
theorem legible_of_start (h : (∀ u : U, InputUnit.width u = 1) ∨ input.isBoundary offset = true ∨
    input.length ≤ offset) : input.Legible offset :=
  h.elim (fun hw => legible_of_width hw input offset) id

theorem rest_eq_cons {u : U} (h : input.unitAt? offset = some u) :
    input.rest offset = u :: input.rest (offset + 1) := by
  have hc : input.cells.toList[offset]? = some (some u) := by
    rw [Array.getElem?_toList]
    exact Option.join_eq_some_iff.1 h
  obtain ⟨hl, hc⟩ := List.getElem?_eq_some_iff.1 hc
  rw [rest, List.drop_eq_getElem_cons hl, hc]
  rfl

theorem length_rest_le (input : Input U) (h : offset ≤ later) :
    (input.rest later).length ≤ (input.rest offset).length := by
  refine (List.Sublist.filterMap id ?_).length_le
  exact (List.drop_sublist_drop_left _ h)

/-- Past the unit at an offset, fewer units are left. -/
theorem length_rest_lt {u : U} (h : input.unitAt? offset = some u) (hl : offset < later) :
    (input.rest later).length < (input.rest offset).length := by
  rw [rest_eq_cons h, List.length_cons]
  exact Nat.lt_succ_of_le (length_rest_le input hl)

end Input

/-! ## Rules that are not recursive -/

namespace Rule

variable {U L : Type}

/-- There is no way without an end from the rule into what it is made of and what it refers to. -/
def NonRecursive (references : Nat → Reference U L) (rule : Rule U L) : Prop :=
  Acc (fun part whole => Leads references whole part) rule

mutual

/-- Whether there is a reference in the rule. -/
def refers : Rule U L → Bool
  | ref _ => true
  | seq rules | or rules => refersIn rules
  | star rule | plus rule | opt rule | times rule _ | ahead rule | notAhead rule
  | untilPast rule | mandatory rule | recover rule | store _ rule | counted _ rule => rule.refers
  | unit _ | units _ | atEnd | succeed | fail | exhaust => false

def refersIn : List (Rule U L) → Bool
  | [] => false
  | rule :: rules => rule.refers || refersIn rules

end

theorem refers_of_mem {rules : List (Rule U L)} (h : refersIn rules = false) {rule : Rule U L}
    (hm : rule ∈ rules) : rule.refers = false := by
  induction rules with
  | nil => cases hm
  | cons first rules ih =>
    rw [refersIn, Bool.or_eq_false_iff] at h
    rcases List.mem_cons.1 hm with rfl | hm
    · exact h.1
    · exact ih h.2 hm

theorem refers_of_inner {rule part : Rule U L} (h : rule.refers = false)
    (hp : part ∈ rule.inner) : part.refers = false := by
  cases rule with
  | seq rules | or rules =>
    rw [refers] at h
    exact refers_of_mem h hp
  | unit | units | atEnd | succeed | fail | exhaust => cases hp
  | ref i => cases h
  | _ =>
    obtain rfl := List.mem_singleton.1 hp
    rw [refers] at h
    exact h

theorem sizeOf_lt_of_inner {rule part : Rule U L} (hp : part ∈ rule.inner) :
    sizeOf part < sizeOf rule := by
  cases rule with
  | seq rules | or rules =>
    have : sizeOf part < sizeOf rules := List.sizeOf_lt_of_mem hp
    simp only [seq.sizeOf_spec, or.sizeOf_spec]
    omega
  | unit | units | atEnd | succeed | fail | exhaust | ref => cases hp
  | _ =>
    obtain rfl := List.mem_singleton.1 hp
    simp only [star.sizeOf_spec, plus.sizeOf_spec, opt.sizeOf_spec, times.sizeOf_spec,
      ahead.sizeOf_spec, notAhead.sizeOf_spec, untilPast.sizeOf_spec, mandatory.sizeOf_spec,
      recover.sizeOf_spec, store.sizeOf_spec, counted.sizeOf_spec]
    omega

/-- A rule without references is as deep as it is written. -/
theorem nonRecursive_of_refers (references : Nat → Reference U L) (rule : Rule U L)
    (h : rule.refers = false) : rule.NonRecursive references := by
  refine .intro rule fun part hl => ?_
  cases hl with
  | inner hp =>
    have := sizeOf_lt_of_inner hp
    exact nonRecursive_of_refers references part (refers_of_inner h hp)
  | ref => cases h
termination_by sizeOf rule

end Rule

/-! ## Loops that come down -/

namespace Matching

variable {U L T M : Type} [InputUnit U] [DecidableEq U] [NodeTree T L M] [DecidableEq M]

/-- Something is left as long as there is input, and a loop that goes on leaves less of it, as long
as the invariant holds. -/
structure Descends (setting : Setting U L) (I : Cursor T → Prop) (left : Cursor T → Nat) : Prop
    extends Invariant setting.input I where
  left_pos : ∀ {cursor}, I cursor → cursor.atEnd setting.input = false → 0 < left cursor
  round : ∀ {rule cursor parts result}, I cursor → cursor.atEnd setting.input = false →
    Goes setting (.rule rule) cursor parts result → result.outcome = .matched →
    setting.policy.progressed cursor.position result.cursor = true →
    left result.cursor < left cursor
  skip : ∀ {rule cursor parts result}, I cursor →
    Goes setting (.rule rule) cursor parts result → result.outcome = .unmatched →
    (result.cursor.advance setting.input).atEnd setting.input = false →
    left (result.cursor.advance setting.input) < left cursor

/-- The rule comes to an end wherever the invariant holds. -/
def EndsIn (setting : Setting U L) (I : Cursor T → Prop) (rule : Rule U L) : Prop :=
  ∀ cursor, I cursor → Ends setting (.rule rule, cursor)

namespace Descends

variable {setting : Setting U L} {I : Cursor T → Prop} {left : Cursor T → Nat}
  (hd : Descends setting I left)
include hd

theorem ends_each {rules : List (Rule U L)} (h : ∀ rule ∈ rules, EndsIn setting I rule)
    {cursor : Cursor T} (hc : I cursor) : Ends setting (.each rules, cursor) := by
  induction rules generalizing cursor with
  | nil => exact .intro _ fun next hb => nomatch hb
  | cons rule rules ih =>
    refine .intro _ fun next hb => ?_
    cases hb with
    | each => exact h rule List.mem_cons_self cursor hc
    | eachOn hg =>
      exact ih (fun part hp => h part (List.mem_cons_of_mem rule hp)) (hd.goes hg trivial hc)

theorem ends_first {rules : List (Rule U L)} (h : ∀ rule ∈ rules, EndsIn setting I rule)
    {cursor : Cursor T} (hc : I cursor) : Ends setting (.first rules, cursor) := by
  induction rules generalizing cursor with
  | nil => exact .intro _ fun next hb => nomatch hb
  | cons rule rules ih =>
    refine .intro _ fun next hb => ?_
    cases hb with
    | first => exact h rule List.mem_cons_self cursor hc
    | firstOn hg =>
      exact ih (fun part hp => h part (List.mem_cons_of_mem rule hp)) (hd.goes hg trivial hc)

theorem ends_greedy {rule : Rule U L} (h : EndsIn setting I rule) {cursor : Cursor T}
    (hc : I cursor) : Ends setting (.greedy rule, cursor) := by
  -- What is left at the cursor bounds the rounds to come.
  induction hn : left cursor using Nat.strongRecOn generalizing cursor with
  | _ n ih =>
    subst hn
    refine .intro _ fun next hb => ?_
    cases hb with
    | greedy => exact h cursor hc
    | greedyOn he hg ho hp =>
      exact ih _ (hd.round hc he hg ho hp) (hd.goes hg trivial hc) rfl

theorem ends_scan {rule : Rule U L} {start : Position M} (h : EndsIn setting I rule)
    {cursor : Cursor T} (hc : I cursor) : Ends setting (.scan rule start, cursor) := by
  induction hn : left cursor using Nat.strongRecOn generalizing cursor with
  | _ n ih =>
    subst hn
    refine .intro _ fun next hb => ?_
    cases hb with
    | scan => exact h cursor hc
    | scanOn hg ho he =>
      exact ih _ (hd.skip hc hg ho he) (hd.advance (hd.goes hg trivial hc)) rfl

/-- A rule that is not recursive comes to an end. -/
theorem endsIn {rule : Rule U L} (hr : rule.NonRecursive setting.references) :
    EndsIn setting I rule := by
  induction hr with
  | intro rule _ ih =>
    have inner {part : Rule U L} (hp : part ∈ rule.inner) : EndsIn setting I part :=
      ih part (.inner hp)
    intro cursor hc
    refine .intro _ fun next hb => ?_
    cases hb with
    | seq => exact hd.ends_each (fun part hp => inner hp) hc
    | times =>
      refine hd.ends_each (fun part hp => inner ?_) hc
      exact List.mem_singleton.2 (List.eq_of_mem_replicate hp)
    | or => exact hd.ends_first (fun part hp => inner hp) hc
    | star => exact hd.ends_greedy (inner List.mem_cons_self) hc
    | plusOn hg => exact hd.ends_greedy (inner List.mem_cons_self) (hd.goes hg trivial hc)
    | untilPast => exact hd.ends_scan (inner List.mem_cons_self) hc
    | store hi => exact inner List.mem_cons_self _ (hd.openNode? hc hi)
    | ref hi => exact ih _ (.ref hi) cursor hc
    | plus | opt | ahead | notAhead | mandatory | recover | counted =>
      exact inner List.mem_cons_self cursor hc

end Descends

/-! ## How often a loop tries its rule -/

/-- So far, the loop at the cursor has tried its rule at these cursors, in order. -/
inductive Tries (setting : Setting U L) (loop : Task U L M) : Cursor T → List (Cursor T) → Prop
  | none {cursor} : Tries setting loop cursor []
  | one {rule cursor} (h : Begins setting (loop, cursor) (.rule rule, cursor)) :
      Tries setting loop cursor [cursor]
  | more {cursor next tried} (h : Begins setting (loop, cursor) (loop, next))
      (hn : Tries setting loop next tried) : Tries setting loop cursor (cursor :: tried)

/-- To match the whole at the cursor tries the part at most so many times: no more tries are begun
at any time, and there were no more in the end. -/
structure TriesAtMost (setting : Setting U L) (whole part : Rule U L) (cursor : Cursor T)
    (n : Nat) : Prop where
  begun : ∀ loop tried, Begins setting (.rule whole, cursor) (loop, cursor) →
    Tries setting loop cursor tried → tried.length ≤ n
  ended : ∀ result course, Course.Traces setting whole cursor result course →
    (∀ attempt ∈ course.parts, attempt.rule = part) ∧ course.parts.length ≤ n

/-- The rule that the task tries over and over, if it is a loop. -/
def Task.looped? : Task U L M → Option (Rule U L)
  | greedy r | scan r _ => some r
  | _ => none

/-- The parts of a loop that has ended are the tries it began. -/
theorem goes_tries {setting : Setting U L} {loop : Task U L M} {rule : Rule U L}
    (hl : loop.looped? = some rule) {cursor : Cursor T} {parts : List (Course U L T M)}
    {result : Result T L M} (h : Goes setting loop cursor parts result) :
    (∀ attempt ∈ parts, attempt.rule = rule) ∧
      Tries setting loop cursor (parts.map Course.cursor) := by
  induction h with
  | greedyEnd => exact ⟨nofun, .none⟩
  | greedyStop he | greedyStill he =>
    cases hl
    exact ⟨List.forall_mem_singleton.2 rfl, .one (.greedy he)⟩
  | scanStop | scanEnd =>
    cases hl
    exact ⟨List.forall_mem_singleton.2 rfl, .one .scan⟩
  | greedyOn he hg ho hp _ _ ihn =>
    obtain ⟨hr, ht⟩ := ihn hl
    cases hl
    exact ⟨List.forall_mem_cons.2 ⟨rfl, hr⟩, .more (.greedyOn he hg ho hp) ht⟩
  | scanOn hg ho he _ _ ihn =>
    obtain ⟨hr, ht⟩ := ihn hl
    cases hl
    exact ⟨List.forall_mem_cons.2 ⟨rfl, hr⟩, .more (.scanOn hg ho he) ht⟩
  | _ => cases hl

namespace Descends

variable {setting : Setting U L} {I : Cursor T → Prop} {left : Cursor T → Nat}
  (hd : Descends setting I left)
include hd

theorem greedy_tries {rule : Rule U L} {cursor : Cursor T} {tried : List (Cursor T)}
    (h : Tries setting (.greedy rule) cursor tried) (hc : I cursor) :
    tried.length ≤ left cursor := by
  induction h with
  | none => exact Nat.zero_le _
  | one h =>
    cases h with
    | greedy he => exact hd.left_pos hc he
  | more h _ ih =>
    cases h with
    | greedyOn he hg ho hp =>
      exact Nat.lt_of_le_of_lt (ih (hd.goes hg trivial hc)) (hd.round hc he hg ho hp)

theorem scan_tries {rule : Rule U L} {start : Position M} {cursor : Cursor T}
    {tried : List (Cursor T)} (h : Tries setting (.scan rule start) cursor tried) (hc : I cursor) :
    tried.length ≤ max 1 (left cursor) := by
  induction h with
  | none => exact Nat.zero_le _
  | one => exact Nat.le_max_left _ _
  | more h _ ih =>
    cases h with
    | scanOn hg ho he =>
      have hn := hd.advance (hd.goes hg trivial hc)
      have := ih hn
      have := hd.left_pos hn he
      have := hd.skip hc hg ho he
      rw [List.length_cons]
      omega

end Descends

theorem triesAtMost_of_loop {setting : Setting U L} {whole part : Rule U L} {cursor : Cursor T}
    {n : Nat} (loop : Task U L M) (hl : loop.looped? = some part)
    (hb : ∀ task, Begins setting (.rule whole, cursor) (task, cursor) → task = loop)
    (hg : ∀ parts result, Goes setting (.rule whole) cursor parts result →
      Goes setting loop cursor parts result)
    (hn : ∀ tried, Tries setting loop cursor tried → tried.length ≤ n) :
    TriesAtMost setting whole part cursor n where
  begun task tried h ht := by
    obtain rfl := hb task h
    exact hn tried ht
  ended result course hc := by
    obtain ⟨_, _, parts, result⟩ := course
    obtain ⟨hh, rfl, rfl, -, -⟩ := hc
    obtain ⟨hp, ht⟩ := goes_tries hl (hg parts result hh)
    refine ⟨hp, ?_⟩
    have := hn _ ht
    rwa [List.length_map] at this

namespace Descends

variable {setting : Setting U L} {I : Cursor T → Prop} {left : Cursor T → Nat}
  (hd : Descends setting I left)
include hd

theorem star_triesAtMost (rule : Rule U L) {cursor : Cursor T} (hc : I cursor) :
    TriesAtMost setting (.star rule) rule cursor (left cursor) := by
  refine triesAtMost_of_loop (.greedy rule) rfl ?_ ?_ fun _ ht => hd.greedy_tries ht hc
  · rintro task ⟨⟩
    rfl
  · intro parts result hg
    cases hg with
    | done h => cases h
    | star hg => exact hg

theorem untilPast_triesAtMost (rule : Rule U L) {cursor : Cursor T} (hc : I cursor) :
    TriesAtMost setting (.untilPast rule) rule cursor (max 1 (left cursor)) := by
  refine triesAtMost_of_loop (.scan rule cursor.position) rfl ?_ ?_ fun _ ht =>
    hd.scan_tries ht hc
  · rintro task ⟨⟩
    rfl
  · intro parts result hg
    cases hg with
    | done h => cases h
    | untilPast hg => exact hg

end Descends

/-! ## Text and lists of units -/

omit [DecidableEq U] in
theorem atEnd_eq_false {cursor : Cursor T} {input : Input U} :
    cursor.atEnd input = false ↔ cursor.offset < input.length := by
  rw [Cursor.atEnd, decide_eq_false_iff_not, Nat.not_le]

/-- Where only consumed input is progress, what is left are the units left. -/
theorem descends_text (input : Input U) (references : Nat → Reference U L) :
    Descends ⟨input, references, .text⟩ (fun cursor : Cursor T => input.Legible cursor.offset)
      (fun cursor => (input.rest cursor.offset).length) where
  toInvariant := .ofOffset fun _ h => h.next
  left_pos hc he := by
    obtain ⟨u, hu⟩ := hc.unitAt? (atEnd_eq_false.1 he)
    rw [Input.rest_eq_cons hu]
    exact Nat.succ_pos _
  round {_ cursor _ result} hc he hg _ hp := by
    obtain ⟨u, hu⟩ := hc.unitAt? (atEnd_eq_false.1 he)
    have hf : cursor.offset ≤ result.cursor.offset := goes_forward hg
    have hne : result.cursor.offset ≠ cursor.offset := bne_iff_ne.1 hp
    exact Input.length_rest_lt hu (Nat.lt_of_le_of_ne hf hne.symm)
  skip {_ cursor _ result} hc hg _ he := by
    have hf : cursor.offset ≤ result.cursor.offset := goes_forward hg
    have hl := atEnd_eq_false.1 he
    rw [Cursor.advance_offset] at hl ⊢
    -- The skip ends before the end of input, so it started there, at a unit.
    have hr := Nat.lt_of_le_of_lt (input.le_next _) hl
    obtain ⟨u, hu⟩ := hc.unitAt? (Nat.lt_of_le_of_lt hf hr)
    have hi : input.Legible result.cursor.offset :=
      (Invariant.ofOffset fun _ h => Input.Legible.next h).goes hg trivial hc
    obtain ⟨v, hv⟩ := hi.unitAt? hr
    refine Input.length_rest_lt hu (Nat.lt_of_le_of_lt hf ?_)
    rw [Input.next, hv]
    exact Nat.lt_add_of_pos_right (InputUnit.width_pos v)

/-- Without recursion, every match of text or of units of one width comes to an end, wherever it
starts between units or past them all, and never in a fault. And whether there is recursion or not,
`star` tries its rule at most once for each unit left, and `untilPast` as well, but once at
least. -/
theorem nonrecursive_ends (input : Input U) (references : Nat → Reference U L) (cursor : Cursor T)
    (hc : (∀ u : U, InputUnit.width u = 1) ∨ input.isBoundary cursor.offset = true ∨
      input.length ≤ cursor.offset) :
    (∀ rule : Rule U L, rule.refers = false ∨ rule.NonRecursive references →
      ∃ result, Returns ⟨input, references, .text⟩ rule cursor result ∧
        ∀ _ : LawfulTree T, ∀ fault, result.outcome ≠ .faulted fault) ∧
    ∀ rule : Rule U L,
      TriesAtMost ⟨input, references, .text⟩ (.star rule) rule cursor
        (input.rest cursor.offset).length ∧
      TriesAtMost ⟨input, references, .text⟩ (.untilPast rule) rule cursor
        (max 1 (input.rest cursor.offset).length) := by
  have hd := descends_text (T := T) input references
  have hl : input.Legible cursor.offset := Input.legible_of_start hc
  refine ⟨fun rule hr => ?_, fun rule => ⟨?_, ?_⟩⟩
  · have hn := hr.elim (Rule.nonRecursive_of_refers references rule) id
    obtain ⟨result, h⟩ := (hd.endsIn hn cursor hl).returns
    exact ⟨result, h, fun _ => (returns_balanced h).sound⟩
  · exact hd.star_triesAtMost rule hl
  · exact hd.untilPast_triesAtMost rule hl

/-- One letter is left, past one that is two bytes wide. A rule without references comes to an end
there, and one that only refers to itself is tried once. -/
theorem nonrecursive_ends_last_letter :
    let setting : Setting Char Sample.Label :=
      ⟨.ofList ['é', 'b'], fun _ => .defined (.ref 0), .text⟩
    let cursor : Cursor (TrailTree Sample.Label) := ⟨2, .empty⟩
    setting.input.isBoundary cursor.offset = true ∧
      Rule.refers (.star (.opt Sample.numberRule)) = false ∧
      (∃ result, Returns setting (.star (.opt Sample.numberRule)) cursor result) ∧
      TriesAtMost setting (.star (.ref 0)) (.ref 0) cursor 1 ∧
      TriesAtMost setting (.untilPast (.ref 0)) (.ref 0) cursor 1 := by
  intro setting cursor
  have hb : setting.input.isBoundary cursor.offset = true := by decide +kernel
  have hr : Rule.refers (.star (.opt Sample.numberRule)) = false := by decide +kernel
  have hn : (setting.input.rest cursor.offset).length = 1 := by decide +kernel
  obtain ⟨hret, hloops⟩ :=
    nonrecursive_ends setting.input setting.references cursor (Or.inr (Or.inl hb))
  obtain ⟨result, h, -⟩ := hret _ (Or.inl hr)
  obtain ⟨hs, hu⟩ := hloops (.ref 0)
  rw [hn] at hs hu
  exact ⟨hb, hr, ⟨result, h⟩, hs, hu⟩

end Matching

end Peg
