import Peg.Proofs.Termination
import Peg.Proofs.TreesAgree

/-
  Progress: what becomes of a match if nodes are progress too, and not consumed input alone. Over a
  counter nothing does, since a match leaves the depth as it found it (`goes_heedless`). In a row of
  slots a loop may go on for the nodes that a round recorded, but no round takes nodes away, so the
  bytes and the slots left bound the rounds of every loop (`node_progress_is_safe`).
-/

namespace Peg.Matching

open Relation

variable {U L : Type} [InputUnit U] [DecidableEq U]

theorem position_ne_of_progressed {T M : Type} [NodeTree T L M] [DecidableEq M] {policy : Policy}
    {before after : Cursor T} (h : policy.progressed before.position after = true) :
    after.position ≠ before.position := by
  unfold Policy.progressed at h
  split at h
  · exact bne_iff_ne.1 h
  · exact fun he => bne_iff_ne.1 h (congrArg Position.offset he)

/-! ## Counters -/

section

variable {input : Input U} {references : Nat → Reference U L} {policy : Policy}

/-- At the depth at which the position was taken, only consumed input is progress. -/
theorem progressed_at_depth {before after : Cursor (DepthTree L)}
    (h : after.tree.depth = before.tree.depth) :
    policy.progressed before.position after = true ↔ after.offset ≠ before.offset := by
  constructor
  · intro hp ho
    refine position_ne_of_progressed hp ?_
    unfold Cursor.position
    rw [ho]
    exact congrArg _ h
  · intro ho
    unfold Policy.progressed
    split
    · exact bne_iff_ne.2 fun he => ho (congrArg Position.offset he)
    · exact bne_iff_ne.2 ho

theorem atOnce?_heedless {T M : Type} [NodeTree T L M] [DecidableEq M] (policy' : Policy)
    (rule : Rule U L) (cursor : Cursor T) :
    atOnce? ⟨input, references, policy⟩ rule cursor =
      atOnce? ⟨input, references, policy'⟩ rule cursor := by
  cases rule <;> rfl

/-- A counter does not heed where a hard failure passes through. -/
theorem closeNode_heedless (policy' : Policy) (label : L)
    (result : Result (DepthTree L) L Nat) :
    result.closeNode policy label = result.closeNode policy' label := by
  have hu (policy : Policy) (cursor : Cursor (DepthTree L)) :
      (if policy.keepsTrail then cursor.unwind label else cursor) = cursor := ite_self cursor
  unfold Result.closeNode
  simp only [hu]

theorem progressed_heedless [DecidableEq L] (policy' : Policy) {rule : Rule U L}
    {cursor : Cursor (DepthTree L)} {parts : List (Course U L (DepthTree L) Nat)}
    {result : Result (DepthTree L) L Nat}
    (h : Goes ⟨input, references, policy⟩ (.rule rule) cursor parts result) :
    policy.progressed cursor.position result.cursor =
      policy'.progressed cursor.position result.cursor := by
  have hd : result.cursor.tree.depth = cursor.tree.depth := (goes_balanced h).grown
  rw [Bool.eq_iff_iff, progressed_at_depth hd, progressed_at_depth hd]

/-- Over a counter, a match goes the same course whatever counts as progress. -/
theorem goes_heedless [DecidableEq L] (policy' : Policy) {task : Task U L Nat}
    {cursor : Cursor (DepthTree L)} {parts : List (Course U L (DepthTree L) Nat)}
    {result : Result (DepthTree L) L Nat}
    (h : Goes ⟨input, references, policy⟩ task cursor parts result) :
    Goes ⟨input, references, policy'⟩ task cursor parts result := by
  induction h with
  | done h => exact .done ((atOnce?_heedless policy' _ _).symm.trans h)
  | seq _ ih => exact .seq ih
  | or _ ih => exact .or ih
  | star _ ih => exact .star ih
  | plusStop _ ho ih => exact .plusStop ih ho
  | plusOn _ ho _ ih ihn => exact .plusOn ih ho ihn
  | opt he _ ih => exact .opt he ih
  | times _ ih => exact .times ih
  | ahead _ ih => exact .ahead ih
  | notAhead _ ih => exact .notAhead ih
  | untilPast _ ih => exact .untilPast ih
  | mandatory _ ih => exact .mandatory ih
  | recover _ ih => exact .recover ih
  | store hi _ ih =>
    rw [closeNode_heedless policy']
    exact .store hi ih
  | ref hi _ ih => exact .ref hi ih
  | counted _ ih => exact .counted ih
  | eachNil => exact .eachNil
  | eachStop _ ho ih => exact .eachStop ih ho
  | eachOn _ ho _ ih ihn => exact .eachOn ih ho ihn
  | firstNil => exact .firstNil
  | firstStop _ ho ih => exact .firstStop ih ho
  | firstOn _ ho _ ih ihn => exact .firstOn ih ho ihn
  | greedyEnd he => exact .greedyEnd he
  | greedyStop he _ ho ih => exact .greedyStop he ih ho
  | greedyStill he h ho hp ih =>
    rw [progressed_heedless policy' h] at hp
    exact .greedyStill he ih ho hp
  | greedyOn he h ho hp _ ih ihn =>
    rw [progressed_heedless policy' h] at hp
    exact .greedyOn he ih ho hp ihn
  | scanStop _ ho ih => exact .scanStop ih ho
  | scanEnd _ ho he ih => exact .scanEnd ih ho he
  | scanOn _ ho he _ ih ihn => exact .scanOn ih ho he ihn

end

/-! ## Rounds of a repetition -/

section

variable {T M : Type} [NodeTree T L M] [DecidableEq M]

/-- So far, the repetition of the part at the cursor has tried it at these cursors, in order. -/
inductive Rounds (setting : Setting U L) (part : Rule U L) :
    Rule U L → Cursor T → List (Cursor T) → Prop
  | star {cursor tried} (ht : Tries setting (.greedy part) cursor tried) :
      Rounds setting part (.star part) cursor tried
  | plus {cursor} : Rounds setting part (.plus part) cursor [cursor]
  | plusOn {cursor next tried}
      (h : Begins setting (.rule (.plus part), cursor) (.greedy part, next))
      (ht : Tries setting (.greedy part) next tried) :
      Rounds setting part (.plus part) cursor (cursor :: tried)

/-- The repetition at the cursor tries the part at most so many times: no more tries are begun at
any time, and there were no more in the end. -/
structure RoundsAtMost (setting : Setting U L) (whole part : Rule U L) (cursor : Cursor T)
    (n : Nat) : Prop where
  begun : ∀ tried, Rounds setting part whole cursor tried → tried.length ≤ n
  ended : ∀ result course, Course.Traces setting whole cursor result course →
    (∀ attempt ∈ course.parts, attempt.rule = part) ∧ course.parts.length ≤ n

variable {setting : Setting U L} {whole part : Rule U L} {cursor : Cursor T} {n : Nat}

/-- The parts of a repetition that has ended are its rounds. -/
theorem goes_rounds (hw : whole = .star part ∨ whole = .plus part)
    {parts : List (Course U L T M)} {result : Result T L M}
    (h : Goes setting (.rule whole) cursor parts result) :
    (∀ attempt ∈ parts, attempt.rule = part) ∧
      Rounds setting part whole cursor (parts.map Course.cursor) := by
  rcases hw with rfl | rfl
  · cases h with
    | done h => cases h
    | star h =>
      obtain ⟨hp, ht⟩ := goes_tries rfl h
      exact ⟨hp, .star ht⟩
  · cases h with
    | done h => cases h
    | plusStop h ho => exact ⟨List.forall_mem_singleton.2 rfl, .plus⟩
    | plusOn h ho hn =>
      obtain ⟨hp, ht⟩ := goes_tries rfl hn
      exact ⟨List.forall_mem_cons.2 ⟨rfl, hp⟩, .plusOn (.plusOn h ho) ht⟩

theorem roundsAtMost (hw : whole = .star part ∨ whole = .plus part)
    (hn : ∀ tried, Rounds setting part whole cursor tried → tried.length ≤ n) :
    RoundsAtMost setting whole part cursor n where
  begun := hn
  ended result course hc := by
    obtain ⟨_, _, parts, result⟩ := course
    obtain ⟨hh, rfl, rfl, -, -⟩ := hc
    obtain ⟨hp, hr⟩ := goes_rounds hw hh
    have hl := hn _ hr
    rw [List.length_map] at hl
    exact ⟨hp, hl⟩

end

/-! ## Rows of slots -/

/-- The bytes that are left, and the slots that are left up to a ceiling. -/
def spare (input : Input U) (ceiling : Nat) (cursor : Cursor (RowTree L)) : Nat :=
  (input.length - cursor.offset) + (ceiling - cursor.tree.slots.used)

/-- The cursor is between units or past them all, and its row does not go past the ceiling. -/
def Within (input : Input U) (ceiling : Nat) (cursor : Cursor (RowTree L)) : Prop :=
  input.Legible cursor.offset ∧ cursor.tree.slots.used ≤ ceiling ∧
    cursor.tree.slots.capacity ≤ ceiling

section

variable [DecidableEq L] {setting : Setting U L} {ceiling : Nat}

omit [DecidableEq U] in
theorem invariant_ceiling (input : Input U) (ceiling : Nat) :
    Invariant input fun cursor : Cursor (RowTree L) =>
      cursor.tree.slots.used ≤ ceiling ∧ cursor.tree.slots.capacity ≤ ceiling := by
  have truncate (row : SlotRow L) (size : Nat)
      (h : row.used ≤ ceiling ∧ row.capacity ≤ ceiling) :
      (row.truncate size).used ≤ ceiling ∧ (row.truncate size).capacity ≤ ceiling := by
    have hs : (row.truncate size).used = min size row.used := LawfulSlots.size_truncate row size
    rw [hs, SlotRow.capacity_truncate]
    exact ⟨Nat.le_trans (Nat.min_le_right _ _) h.1, h.2⟩
  refine .ofTree (P := fun tree : RowTree L =>
    tree.slots.used ≤ ceiling ∧ tree.slots.capacity ≤ ceiling) ?_ ?_ ?_ ?_ ?_
  · exact fun mark h => truncate _ mark.size h
  · intro tree opened label start h ho
    obtain ⟨slots, hp, rfl⟩ := Option.map_eq_some_iff.1 ho
    have hs : slots.used = tree.slots.used + 1 := LawfulSlots.size_push hp
    obtain ⟨hlt, -⟩ := SlotRow.push?_eq_some hp
    have hc := SlotRow.capacity_push? hp
    show slots.used ≤ ceiling ∧ slots.capacity ≤ ceiling
    omega
  · intro tree closed label stop h hc
    obtain ⟨i, node, -, -, rfl⟩ := Arena.complete_eq_ok hc
    exact ⟨h.1, Nat.le_trans (Nat.le_of_eq (SlotRow.capacity_modify _ _ _)) h.2⟩
  · intro tree closed label h ha
    obtain ⟨i, -, rfl⟩ := Arena.abandon_eq_ok ha
    exact truncate _ i h
  · exact fun _ h => h

omit [DecidableEq U] in
theorem invariant_within (input : Input U) (ceiling : Nat) :
    Invariant input (Within (L := L) input ceiling) :=
  (Invariant.ofOffset fun _ h => h.next).and (invariant_ceiling input ceiling)

section

variable {rule : Rule U L} {cursor : Cursor (RowTree L)}
  {parts : List (Course U L (RowTree L) Mark)} {result : Result (RowTree L) L Mark}
  (h : Goes setting (.rule rule) cursor parts result)
include h

/-- No match moves back or takes earlier nodes away. -/
theorem goes_onward : cursor.offset ≤ result.cursor.offset ∧
    cursor.tree.slots.used ≤ result.cursor.tree.slots.used ∧
    result.cursor.tree.innermost = cursor.tree.innermost :=
  have hg : Arena.Grown cursor.tree result.cursor.tree := (goes_balanced h).grown
  ⟨goes_forward h, hg.size_le, hg.innermost_eq⟩

theorem spare_le :
    spare setting.input ceiling result.cursor ≤ spare setting.input ceiling cursor := by
  obtain ⟨ho, hu, -⟩ := goes_onward h
  unfold spare
  omega

/-- Progress uses up bytes or slots. -/
theorem spare_lt (hc : Within setting.input ceiling cursor)
    (he : cursor.atEnd setting.input = false)
    (hp : setting.policy.progressed cursor.position result.cursor = true) :
    spare setting.input ceiling result.cursor < spare setting.input ceiling cursor := by
  obtain ⟨ho, hu, hi⟩ := goes_onward h
  obtain ⟨-, hle, -⟩ := (invariant_within setting.input ceiling).goes h trivial hc
  have hl := atEnd_eq_false.1 he
  have hne : ¬ (result.cursor.offset = cursor.offset ∧
      result.cursor.tree.slots.used = cursor.tree.slots.used) := by
    rintro ⟨ho, hu⟩
    refine position_ne_of_progressed hp ?_
    have hm : NodeTree.mark result.cursor.tree = NodeTree.mark cursor.tree :=
      congrArg₂ Mark.mk hu hi
    unfold Cursor.position
    rw [ho, hm]
  unfold spare
  omega

end

/-- Where nodes may be progress, what comes down are the bytes and slots to spare. -/
theorem descends_row (setting : Setting U L) (ceiling : Nat) :
    Descends setting (Within (L := L) setting.input ceiling) (spare setting.input ceiling) where
  toInvariant := invariant_within setting.input ceiling
  left_pos _ he := by
    have := atEnd_eq_false.1 he
    unfold spare
    omega
  round hc he hg _ hp := spare_lt hg hc he hp
  skip {_ cursor _ result} hc hg ho he := by
    obtain ⟨hoff, -⟩ := (goes_balanced hg).restored ho
    obtain ⟨-, hused, -⟩ := goes_onward hg
    have hl := atEnd_eq_false.1 he
    rw [Cursor.advance_offset, hoff] at hl
    -- The skip ends before the end of input, so there is a unit to go past.
    obtain ⟨u, hu⟩ := hc.1.unitAt? (Nat.lt_of_le_of_lt (setting.input.le_next _) hl)
    have hn : setting.input.next cursor.offset = cursor.offset + InputUnit.width u := by
      rw [Input.next, hu]
    have := InputUnit.width_pos u
    unfold spare
    rw [Cursor.advance_offset, Cursor.advance_tree, hoff]
    omega

theorem rounds_le {whole part : Rule U L} {cursor : Cursor (RowTree L)}
    {tried : List (Cursor (RowTree L))} (h : Rounds setting part whole cursor tried)
    (hc : Within setting.input ceiling cursor) :
    tried.length ≤ spare setting.input ceiling cursor + 1 := by
  have hd := descends_row (L := L) setting ceiling
  cases h with
  | star ht => exact Nat.le_succ_of_le (hd.greedy_tries ht hc)
  | plus => exact Nat.succ_le_succ (Nat.zero_le _)
  | plusOn hb ht =>
    cases hb with
    | plusOn hg =>
      have hn := hd.greedy_tries ht (hd.goes hg trivial hc)
      exact Nat.succ_le_succ (Nat.le_trans hn (spare_le hg))

omit [DecidableEq U] [DecidableEq L] in
/-- Of the slots up to a ceiling that is no lower than the row, those of the row are to spare. -/
theorem within_ceiling {input : Input U} {cursor : Cursor (RowTree L)}
    (h : input.Legible cursor.offset) : ∃ ceiling, Within input ceiling cursor ∧
      spare input ceiling cursor = spare input cursor.tree.slots.capacity cursor := by
  refine ⟨max cursor.tree.slots.used cursor.tree.slots.capacity,
    ⟨h, Nat.le_max_left _ _, Nat.le_max_right _ _⟩, ?_⟩
  unfold spare
  omega

end

/-- Nodes may safely count as progress where they cannot go on for ever. Over a counter, a match
returns the same, however much of the tree is heeded. In a row of slots, whatever it holds, every
match without recursion comes to an end and not in a fault, if it starts between units or past them
all; and whether there is recursion or not, every repetition in a match tries its rule at most once
for each byte and each slot left where it starts, and once more. -/
theorem node_progress_is_safe [DecidableEq L] (input : Input U)
    (references : Nat → Reference U L) :
    (∀ (policy policy' : Policy) (rule : Rule U L) (cursor : Cursor (DepthTree L))
      (result : Result (DepthTree L) L Nat),
      Returns ⟨input, references, policy⟩ rule cursor result ↔
        Returns ⟨input, references, policy'⟩ rule cursor result) ∧
    ∀ (policy : Policy) (cursor : Cursor (RowTree L)),
      (∀ u : U, InputUnit.width u = 1) ∨ input.isBoundary cursor.offset = true ∨
        input.length ≤ cursor.offset →
      (∀ rule : Rule U L, rule.refers = false ∨ rule.NonRecursive references →
        ∃ result, Returns ⟨input, references, policy⟩ rule cursor result ∧
          ∀ fault, result.outcome ≠ .faulted fault) ∧
      ∀ (rule whole part : Rule U L) (inside : Cursor (RowTree L)),
        whole = .star part ∨ whole = .plus part →
        ReflTransGen (Begins ⟨input, references, policy⟩) (.rule rule, cursor)
          (.rule whole, inside) →
        RoundsAtMost ⟨input, references, policy⟩ whole part inside
          (spare input inside.tree.slots.capacity inside + 1) := by
  refine ⟨fun policy policy' rule cursor result => ?_, fun policy cursor hc => ⟨?_, ?_⟩⟩
  · rw [returns_iff_goes, returns_iff_goes]
    exact exists_congr fun parts => ⟨goes_heedless policy', goes_heedless policy⟩
  · intro rule hr
    have hn := hr.elim (Rule.nonRecursive_of_refers references rule) id
    obtain ⟨ceiling, hw, -⟩ := within_ceiling (Input.legible_of_start hc)
    have hd := descends_row (L := L) ⟨input, references, policy⟩ ceiling
    obtain ⟨result, h⟩ := (hd.endsIn hn cursor hw).returns
    exact ⟨result, h, (returns_balanced h).sound⟩
  · intro rule whole part inside hw hb
    have hl := ((Invariant.ofOffset fun _ h => Input.Legible.next h).begun hb trivial
      (Input.legible_of_start hc)).2
    obtain ⟨ceiling, hwithin, hs⟩ := within_ceiling hl
    rw [← hs]
    exact roundsAtMost hw fun tried ht => rounds_le ht hwithin

/-- A round that consumes nothing stores a node each time. In a row of two slots there is no room
for a third. Over a counter the first such round is the last. -/
theorem node_progress_is_safe_empty_numbers :
    let input : Input Char := .ofList ['a', 'b']
    let references : Nat → Reference Char Sample.Label := fun _ => .undefined
    let number : Rule Char Sample.Label := .store .number (.opt (.is 'x'))
    let row : Cursor (RowTree Sample.Label) := ⟨0, .ofSlots (.ofCapacity 2)⟩
    let depth : Cursor (DepthTree Sample.Label) := ⟨0, .empty⟩
    input.isBoundary row.offset = true ∧ (Rule.star number).refers = false ∧
    (∃ result, Returns ⟨input, references, .plain⟩ (.star number) row result ∧
      result.outcome = .failed .exhausted) ∧
    RoundsAtMost ⟨input, references, .plain⟩ (.star number) number row 5 ∧
    ∃ result, Returns ⟨input, references, .text⟩ (.star number) depth result ∧
      Returns ⟨input, references, .plain⟩ (.star number) depth result ∧
      result.outcome = .matched := by
  intro input references number row depth
  have hb : input.isBoundary row.offset = true := by decide +kernel
  have hr : (Rule.star number).refers = false := by decide +kernel
  have hrow : (run ⟨input, references, .plain⟩ 9 (.star number) row).map (·.outcome) =
      some (.failed .exhausted) := by decide +kernel
  have hdepth : (run ⟨input, references, .text⟩ 9 (.star number) depth).map (·.outcome) =
      some .matched := by decide +kernel
  obtain ⟨hpolicy, hsafe⟩ := node_progress_is_safe input references
  obtain ⟨hret, hrounds⟩ := hsafe .plain row (.inr (.inl hb))
  obtain ⟨result, h, -⟩ := hret _ (.inl hr)
  obtain ⟨result', h', ho'⟩ := Option.map_eq_some_iff.1 hrow
  obtain rfl := Returns.unique _ ⟨_, h'⟩ h
  obtain ⟨counted, hcounted, ho⟩ := Option.map_eq_some_iff.1 hdepth
  refine ⟨hb, hr, ⟨_, h, ho'⟩, ?_, counted, ⟨_, hcounted⟩, ?_, ho⟩
  · exact hrounds _ _ _ row (.inl rfl) .refl
  · exact (hpolicy .text .plain _ _ _).1 ⟨_, hcounted⟩

end Peg.Matching
