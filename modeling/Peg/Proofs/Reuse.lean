import Peg.Proofs.Invariant
import Peg.Proofs.TreesAgree
import Peg.Sample.Grammar
import Peg.Trial

/-
  Reuse: one tree serves any number of trials, and none of them can be told from a trial on a new
  tree. Whatever comes of a trial, no node is open in the end, and going back to where the trial
  began leaves the tree as it was made: without nodes, without a trail, and in a row of slots with
  every slot vacant (`reuse_never_leaks`).
-/

namespace Peg

variable {U L : Type} [InputUnit U]

/-! ## A row of slots is clean past its end -/

namespace SlotRow

/-- The row has so many slots, and those past its end are vacant. -/
structure Clean (capacity : Nat) (row : SlotRow L) : Prop where
  capacity_eq : row.capacity = capacity
  vacant : ∀ i ≥ row.used, row.get? i = none

variable {capacity : Nat} {row row' : SlotRow L}

/-- Nothing is left of what the slots held before. -/
theorem reuse_eq_ofCapacity (cells : Array (Option (Node L))) :
    reuse cells = ofCapacity cells.size := by
  unfold reuse ofCapacity
  rw [Array.map_const']

theorem clean_ofCapacity (capacity : Nat) :
    (ofCapacity capacity : SlotRow L).Clean capacity where
  capacity_eq := Array.size_replicate
  vacant i _ := by
    show ((Array.replicate capacity none)[i]?).join = none
    rw [Array.getElem?_replicate]
    split <;> rfl

theorem Clean.push? {node : Node L} (h : row.Clean capacity) (hp : row.push? node = some row') :
    row'.Clean capacity where
  capacity_eq := (capacity_push? hp).trans h.capacity_eq
  vacant i hi := by
    have hp : Slots.push? row node = some row' := hp
    have hs : row'.used = row.used + 1 := LawfulSlots.size_push hp
    have hg : row'.get? i = if i = row.used then some node else row.get? i :=
      LawfulSlots.get?_push hp i
    rw [hg, if_neg (by omega)]
    exact h.vacant i (by omega)

theorem Clean.truncate (h : row.Clean capacity) (size : Nat) :
    (row.truncate size).Clean capacity where
  capacity_eq := (capacity_truncate row size).trans h.capacity_eq
  vacant i hi := by
    have hs : (row.truncate size).used = min size row.used := LawfulSlots.size_truncate row size
    by_cases hi' : size ≤ i
    · exact get?_truncate_of_le h.vacant hi'
    · have hg : (row.truncate size).get? i = row.get? i :=
        LawfulSlots.get?_truncate row (Nat.lt_of_not_le hi')
      rw [hg]
      exact h.vacant i (by omega)

theorem Clean.modify (h : row.Clean capacity) (i : Nat) (f : Node L → Node L) :
    (row.modify i f).Clean capacity where
  capacity_eq := (capacity_modify row i f).trans h.capacity_eq
  vacant j hj := by
    have hg : (row.modify i f).get? j = if i = j then (row.get? j).map f else row.get? j :=
      LawfulSlots.get?_modify row i f j
    have hv : row.get? j = none := h.vacant j hj
    rw [hg, hv]
    exact ite_self none

/-- A clean row without nodes is as it was made. -/
theorem Clean.eq_ofCapacity (h : row.Clean capacity) (hu : row.used = 0) :
    row = ofCapacity capacity := by
  obtain ⟨cells, used⟩ := row
  obtain ⟨rfl, hv⟩ := h
  obtain rfl : used = 0 := hu
  have hc : cells = Array.replicate cells.size none := by
    refine Array.ext (by simp) fun i hi _ => ?_
    have hn : (cells[i]?).join = none := hv i (Nat.zero_le i)
    rw [Array.getElem?_eq_getElem hi] at hn
    rw [Array.getElem_replicate]
    exact hn
  exact congrArg (SlotRow.mk · 0) hc

end SlotRow

namespace Matching

variable [DecidableEq L]

/-- No operation leaves anything in a slot past the end. -/
theorem invariant_clean (input : Input U) (capacity : Nat) :
    Invariant input fun cursor : Cursor (RowTree L) => cursor.tree.slots.Clean capacity := by
  refine .ofTree (P := fun tree : RowTree L => tree.slots.Clean capacity) ?_ ?_ ?_ ?_ ?_
  · intro tree mark h
    exact h.truncate mark.size
  · intro tree opened label start h ho
    obtain ⟨slots, hp, rfl⟩ := Option.map_eq_some_iff.1 ho
    exact h.push? hp
  · intro tree closed label stop h hc
    obtain ⟨i, node, -, -, rfl⟩ := Arena.complete_eq_ok hc
    exact h.modify i _
  · intro tree closed label h ha
    obtain ⟨i, -, rfl⟩ := Arena.abandon_eq_ok ha
    exact h.truncate i
  · intro tree label h
    exact h

end Matching

/-! ## What is left in a trail counts for nothing -/

section

variable [DecidableEq L]

/-- The same nodes, whatever the trails. -/
def trailShadow (input : Input U) : Shadow input input (TrailTree L) (TrailTree L) where
  toAlignment := .refl input
  Rel tree other := other.arena = tree.arena
  Fits _ := True
  fits _ := trivial
  rewind {t t' u u'} h h' := by
    show u'.arena.rewind u.arena.mark = t'.arena.rewind t.arena.mark
    rw [h, h']
  opened {t t' u label a b} h hb ho := by
    obtain rfl : b = a := hb
    obtain ⟨arena, ha, rfl⟩ := Option.map_eq_some_iff.1 ho
    refine Or.inl ⟨⟨arena, u.trail⟩, ?_, rfl⟩
    show (u.arena.openNode? label b).map _ = _
    rw [h, ha]
    rfl
  full _ _ h := by cases h
  complete {t t' u u' label a b} h hb _ ht _ hu := by
    obtain rfl : b = a := hb
    obtain ⟨arena, ha, rfl⟩ := of_map_eq_ok ht
    obtain ⟨arena', ha', rfl⟩ := of_map_eq_ok hu
    rw [h, ha] at ha'
    exact (Except.ok.inj ha').symm
  abandon {t t' u u' label} h _ ht _ hu := by
    obtain ⟨arena, ha, rfl⟩ := of_map_eq_ok ht
    obtain ⟨arena', ha', rfl⟩ := of_map_eq_ok hu
    rw [h, ha] at ha'
    exact (Except.ok.inj ha').symm
  unwind _ h := h

theorem Matching.Returns.retrailed [DecidableEq U] {input : Input U}
    {references : Nat → Reference U L} {rule : Rule U L} {cursor other : Cursor (TrailTree L)}
    {result : Result (TrailTree L) L Mark}
    (h : Returns ⟨input, references, .text⟩ rule cursor result)
    (hc : (trailShadow input).Cursors cursor other) :
    ∃ result', Returns ⟨input, references, .text⟩ rule other result' ∧
      (trailShadow input).Results result result' :=
  Shadow.returns_results (fun _ => trivial) rfl h hc

end

/-! ## Trials -/

/-- A trial to make: the input, what references stand for, the rule, and what leads up to it. -/
structure TrialCase (U L : Type) [InputUnit U] where
  input : Input U
  references : Nat → Reference U L
  lead : Rule U L
  rule : Rule U L

namespace TrialCase

variable {T M : Type} [NodeTree T L M] [DecidableEq M] [DecidableEq U]

def setting (given : TrialCase U L) : Setting U L := ⟨given.input, given.references, .text⟩

/-- What leads up to the rule matches, when it starts on the tree. -/
def Led (given : TrialCase U L) (tree : T) : Prop :=
  ∃ before, Matching.Returns given.setting given.lead (.start tree) before ∧
    before.outcome = .matched

variable [NodeView T L]

/-- The trial is what comes of the case on the tree. -/
def Gives (given : TrialCase U L) (tree : T) (trial : Trial T L M) : Prop :=
  ∃ bound, Trial.runAfter given.setting bound given.lead given.rule tree = some trial

/-- The trial ended without a fault and left the tree as if it was new, and it reports what the case
alone gives on a new tree. -/
structure Isolated (fresh : T) (given : TrialCase U L) (trial : Trial T L M) : Prop where
  report_ok : ∃ report, trial.report = .ok report
  tree_eq : trial.tree = fresh
  alone : ∃ other, given.Gives fresh other
  report_eq : ∀ other, given.Gives fresh other → other.report = trial.report

end TrialCase

/-- Trials of the cases are made one after another, each on the tree that the last one left. What
leads up to a rule always matches. -/
inductive Series {T M : Type} [NodeTree T L M] [DecidableEq M] [DecidableEq U] [NodeView T L] :
    T → List (TrialCase U L) → List (Trial T L M) → Prop
  | nil {tree} : Series tree [] []
  | cons {tree given cases trial trials} (hl : given.Led tree) (h : given.Gives tree trial)
      (hs : Series trial.tree cases trials) : Series tree (given :: cases) (trial :: trials)

/-- What there is to report of a match between two results. -/
def TrialReport.between {T M : Type} [NodeView T L] (before after : Result T L M) :
    TrialReport L where
  outcome := after.outcome.map Position.offset
  beforeOffset := before.cursor.offset
  beforeNodes := NodeView.nodes before.cursor.tree
  offset := after.cursor.offset
  nodes := NodeView.nodes after.cursor.tree

section

variable {T M : Type} [NodeTree T L M] [NodeView T L]

omit [InputUnit U] in
/-- Where nothing is at fault and no node is open, a trial reports, and goes back. -/
theorem Trial.ofResults_eq {empty : M} {before after : Result T L M}
    (hs : ∀ fault, after.outcome ≠ .faulted fault)
    (ho : NodeView.openDepth? after.cursor.tree = some 0) :
    Trial.ofResults empty before after = ⟨.ok (.between before after),
      NodeTree.rewind after.cursor.tree empty, before.events ++ after.events⟩ := by
  unfold Trial.ofResults
  split
  · rename_i fault hf
    exact absurd hf (hs fault)
  · rw [if_pos ho]
    rfl

variable [DecidableEq M] [DecidableEq U]

/-- Where what leads up to the rule matches, a trial is what comes of the rule from there. -/
theorem TrialCase.gives_iff {given : TrialCase U L} {tree : T} {before : Result T L M}
    (hb : Matching.Returns given.setting given.lead (.start tree) before)
    (ho : before.outcome = .matched) {trial : Trial T L M} :
    given.Gives tree trial ↔ ∃ after,
      Matching.Returns given.setting given.rule before.cursor after ∧
      trial = .ofResults (NodeTree.mark tree) before after := by
  constructor
  · rintro ⟨bound, h⟩
    obtain ⟨before', hb', h⟩ := Option.bind_eq_some_iff.1 h
    obtain rfl := Matching.Returns.unique _ ⟨bound, hb'⟩ hb
    simp only [ho] at h
    obtain ⟨after, ha, rfl⟩ := Option.map_eq_some_iff.1 h
    exact ⟨after, ⟨bound, ha⟩, rfl⟩
  · rintro ⟨after, ⟨m, ha⟩, rfl⟩
    obtain ⟨n, hb⟩ := hb
    have hb := Matching.run_mono _ (Nat.le_max_left n m) _ _ _ hb
    have ha := Matching.run_mono _ (Nat.le_max_right n m) _ _ _ ha
    refine ⟨max n m, Option.bind_eq_some_iff.2 ⟨before, hb, ?_⟩⟩
    simp only [ho]
    exact Option.map_eq_some_iff.2 ⟨after, ha, rfl⟩

theorem TrialCase.Gives.unique {given : TrialCase U L} {tree : T} {trial other : Trial T L M}
    (h : given.Gives tree trial) (hl : given.Led tree) (h' : given.Gives tree other) :
    other = trial := by
  obtain ⟨before, hb, ho⟩ := hl
  obtain ⟨after, ha, rfl⟩ := (gives_iff hb ho).1 h
  obtain ⟨after', ha', rfl⟩ := (gives_iff hb ho).1 h'
  rw [ha'.unique _ ha]

/-- On a tree on which no match leaves a node open, a trial reports, and goes back. -/
theorem TrialCase.gives_between [LawfulTree T] {given : TrialCase U L} {tree : T}
    {before : Result T L M} {trial : Trial T L M}
    (hopen : ∀ later, LawfulTree.Grown tree later → NodeView.openDepth? later = some 0)
    (hb : Matching.Returns given.setting given.lead (.start tree) before)
    (ho : before.outcome = .matched) (h : given.Gives tree trial) : ∃ after,
      Matching.Returns given.setting given.rule before.cursor after ∧
      trial = ⟨.ok (.between before after),
        NodeTree.rewind after.cursor.tree (NodeTree.mark tree), before.events ++ after.events⟩ := by
  obtain ⟨after, ha, rfl⟩ := (gives_iff hb ho).1 h
  have hab := Matching.returns_balanced ha
  have hg : LawfulTree.Grown tree after.cursor.tree :=
    LawfulTree.grown_trans (Matching.returns_balanced hb).grown hab.grown
  exact ⟨after, ha, Trial.ofResults_eq hab.sound (hopen _ hg)⟩

/-- If a trial on an empty tree is isolated and leaves an empty tree, all trials of a series are. -/
theorem Series.isolated {fresh : T} (Empty : T → Prop) (hf : Empty fresh)
    (hi : ∀ (given : TrialCase U L) tree trial, Empty tree → given.Led tree →
      given.Gives tree trial → given.Isolated fresh trial)
    {tree : T} {cases : List (TrialCase U L)} {trials : List (Trial T L M)}
    (h : Series tree cases trials) (he : Empty tree) :
    List.Forall₂ (TrialCase.Isolated fresh) cases trials := by
  induction h with
  | nil => exact .nil
  | cons hl h _ ih =>
    have hi := hi _ _ _ he hl h
    exact .cons hi (ih (hi.tree_eq ▸ hf))

/-- One more trial in front of a series, as it was computed. -/
theorem Series.cons_of_runs (tree next : T) (given : TrialCase U L) (bound : Nat)
    (outcome : Outcome Nat) {cases : List (TrialCase U L)} {trials : List (Trial T L M)}
    (hl : (Matching.run given.setting bound given.lead (.start tree)).map (·.outcome) =
      some .matched)
    (h : (Trial.runAfter given.setting bound given.lead given.rule tree).map
      (fun trial => (trial.report.toOption.map (·.outcome), trial.tree)) =
        some (some outcome, next))
    (hs : Series next cases trials) : ∃ trial : Trial T L M,
      trial.report.toOption.map (·.outcome) = some outcome ∧
      Series tree (given :: cases) (trial :: trials) := by
  obtain ⟨before, hb, ho⟩ := Option.map_eq_some_iff.1 hl
  obtain ⟨trial, ht, h⟩ := Option.map_eq_some_iff.1 h
  obtain ⟨hr, rfl⟩ := Prod.mk.inj h
  exact ⟨trial, hr, .cons ⟨before, ⟨bound, hb⟩, ho⟩ ⟨bound, ht⟩ hs⟩

end

/-! ## Both kinds of trees -/

section

variable [DecidableEq U] [DecidableEq L] {given : TrialCase U L}

omit [InputUnit U] [DecidableEq U] [DecidableEq L] in
theorem Arena.openDepth?_of_grown {S : Type} [Slots S L] {before after : Arena S}
    (hi : before.innermost = none) (h : before.Grown after) : after.openDepth? = some 0 := by
  unfold openDepth? openNodes?
  rw [h.innermost_eq, hi]
  rfl

omit [DecidableEq U] in
theorem TrialReport.between_retrailed {input : Input U}
    {before after before' after' : Result (TrailTree L) L Mark}
    (hb : (trailShadow input).Results before before')
    (ha : (trailShadow input).Results after after') :
    TrialReport.between before' after' = TrialReport.between before after := by
  have hout : after'.outcome.map Position.offset = after.outcome.map Position.offset :=
    ha.outcome.map_eq fun _ _ hp => hp.1
  have hoff : before'.cursor.offset = before.cursor.offset := hb.cursor.at_offset
  have hoff' : after'.cursor.offset = after.cursor.offset := ha.cursor.at_offset
  have ht : before'.cursor.tree.arena = before.cursor.tree.arena := hb.cursor.tree
  have ht' : after'.cursor.tree.arena = after.cursor.tree.arena := ha.cursor.tree
  unfold TrialReport.between
  rw [hout, hoff, hoff']
  show TrialReport.mk _ _ before'.cursor.tree.arena.toList _ after'.cursor.tree.arena.toList = _
  rw [ht, ht']
  rfl

theorem isolated_trail {tree : TrailTree L} {trial : Trial (TrailTree L) L Mark}
    (he : tree.arena = .ofSlots #[]) (hl : given.Led tree) (h : given.Gives tree trial) :
    given.Isolated .empty trial := by
  have closed {tree : TrailTree L} (he : tree.arena = .ofSlots #[]) : ∀ later,
      LawfulTree.Grown tree later → NodeView.openDepth? later = some 0 :=
    fun _ hg => Arena.openDepth?_of_grown (by rw [he]; rfl) hg
  obtain ⟨before, hb, ho⟩ := hl
  obtain ⟨after, ha, rfl⟩ := TrialCase.gives_between (closed he) hb ho h
  have hc : (trailShadow given.input).Cursors (.start tree) (.start .empty) := ⟨rfl, he.symm⟩
  obtain ⟨before', hb', hbefore⟩ := hb.retrailed hc
  obtain ⟨after', ha', hafter⟩ := ha.retrailed hbefore.cursor
  have ho' : before'.outcome = .matched := hbefore.matched_iff.2 ho
  refine ⟨⟨_, rfl⟩, ?_, ⟨_, (TrialCase.gives_iff hb' ho').2 ⟨after', ha', rfl⟩⟩, ?_⟩
  · have hm : tree.arena.mark = ⟨0, none⟩ := by
      rw [he]
      rfl
    show TrailTree.mk (after.cursor.tree.arena.rewind tree.arena.mark) [] = .empty
    have hs : after.cursor.tree.arena.slots.shrink 0 = #[] :=
      Array.eq_empty_of_size_eq_zero (by rw [Array.size_shrink, Nat.zero_min])
    rw [hm]
    show TrailTree.mk ⟨after.cursor.tree.arena.slots.shrink 0, none⟩ [] = .empty
    rw [hs]
    rfl
  · intro other h'
    obtain ⟨after'', ha'', rfl⟩ := TrialCase.gives_between (closed rfl) hb' ho' h'
    obtain rfl := ha''.unique _ ha'
    exact congrArg Except.ok (TrialReport.between_retrailed hbefore hafter)

theorem isolated_row {capacity : Nat} {trial : Trial (RowTree L) L Mark}
    (hl : given.Led (Arena.ofSlots (SlotRow.ofCapacity capacity) : RowTree L))
    (h : given.Gives (Arena.ofSlots (SlotRow.ofCapacity capacity)) trial) :
    given.Isolated (.ofSlots (.ofCapacity capacity)) trial := by
  obtain ⟨before, hb, ho⟩ := id hl
  obtain ⟨after, ha, rfl⟩ :=
    TrialCase.gives_between (fun _ hg => Arena.openDepth?_of_grown rfl hg) hb ho h
  have hI := Matching.invariant_clean (L := L) given.input capacity
  have hc : after.cursor.tree.slots.Clean capacity :=
    hI.returns ha (hI.returns hb (SlotRow.clean_ofCapacity capacity))
  refine ⟨⟨_, rfl⟩, ?_, ⟨_, h⟩, fun other h' => congrArg _ (h.unique hl h')⟩
  have hs := (hc.truncate 0).eq_ofCapacity (by
    have := LawfulSlots.size_truncate after.cursor.tree.slots 0
    rwa [Nat.zero_min] at this)
  show Arena.mk (after.cursor.tree.slots.truncate 0) none = _
  rw [hs]
  rfl

/-- A series of trials on an empty tree has no fault, whatever trail it had, and each trial is as on
a new tree and leaves the tree as if it was new: an array without nodes, or a row with all slots
vacant, whatever was in the slots before. -/
theorem reuse_never_leaks (cases : List (TrialCase U L)) :
    (∀ (trail : List L) (trials : List (Trial (TrailTree L) L Mark)),
      Series ⟨.ofSlots #[], trail⟩ cases trials →
        List.Forall₂ (TrialCase.Isolated .empty) cases trials) ∧
    ∀ (cells : Array (Option (Node L))) (trials : List (Trial (RowTree L) L Mark)),
      Series (.ofSlots (.reuse cells)) cases trials →
        List.Forall₂ (TrialCase.Isolated (.ofSlots (.ofCapacity cells.size))) cases trials := by
  constructor
  · intro trail trials h
    exact h.isolated (fun tree => tree.arena = .ofSlots #[]) rfl
      (fun _ _ _ he hl h => isolated_trail he hl h) rfl
  · intro cells trials h
    have hr : (Arena.ofSlots (.reuse cells) : RowTree L) = .ofSlots (.ofCapacity cells.size) :=
      congrArg Arena.ofSlots (SlotRow.reuse_eq_ofCapacity cells)
    refine h.isolated (fun tree => tree = .ofSlots (.ofCapacity cells.size)) rfl ?_ hr
    rintro given tree trial rfl hl h
    exact isolated_row hl h

end

/-- A list that is not closed, after a number; a list that needs three nodes; and a number with its
sign. Two slots are too few for the list, and what was in them does not matter. -/
theorem reuse_never_leaks_number_and_list :
    let lookup := Sample.workspace.registry.lookup
    let unclosed : TrialCase Char Sample.Label :=
      ⟨.ofList ['1', '('], lookup, Sample.numberRule, Sample.listRule⟩
    let listed : TrialCase Char Sample.Label :=
      ⟨.ofList ['(', '1', ')'], lookup, .succeed, Sample.listRule⟩
    let signed : TrialCase Char Sample.Label :=
      ⟨.ofList ['-', '1'], lookup, .succeed, Sample.numberRule⟩
    (∃ trials, Series (TrailTree.mk (.ofSlots #[]) [.item]) [unclosed, listed, signed] trials ∧
      trials.map (·.report.toOption.map (·.outcome)) =
        [some (.failed (.mandatory 2)), some .matched, some .matched] ∧
      List.Forall₂ (TrialCase.Isolated .empty) [unclosed, listed, signed] trials) ∧
    ∃ trials, Series (.ofSlots (.reuse #[none, some ⟨.item, 0, 1, none⟩]) :
        RowTree Sample.Label) [unclosed, listed, signed] trials ∧
      trials.map (·.report.toOption.map (·.outcome)) =
        [some (.failed (.mandatory 2)), some (.failed .exhausted), some .matched] ∧
      List.Forall₂ (TrialCase.Isolated (.ofSlots (.ofCapacity 2))) [unclosed, listed, signed]
        trials := by
  intro lookup unclosed listed signed
  obtain ⟨harray, hrow⟩ := reuse_never_leaks [unclosed, listed, signed]
  constructor
  · let fresh : TrailTree Sample.Label := .empty
    obtain ⟨third, h₃, hs⟩ := Series.cons_of_runs fresh fresh signed 20 .matched
      (by decide +kernel) (by decide +kernel) .nil
    obtain ⟨second, h₂, hs⟩ := Series.cons_of_runs fresh fresh listed 20 .matched
      (by decide +kernel) (by decide +kernel) hs
    obtain ⟨first, h₁, hs⟩ := Series.cons_of_runs (TrailTree.mk (.ofSlots #[]) [.item]) fresh
      unclosed 20 (.failed (.mandatory 2)) (by decide +kernel) (by decide +kernel) hs
    exact ⟨_, hs, by simp [h₁, h₂, h₃], harray [.item] _ hs⟩
  · let fresh : RowTree Sample.Label := .ofSlots (.ofCapacity 2)
    obtain ⟨third, h₃, hs⟩ := Series.cons_of_runs fresh fresh signed 20 .matched
      (by decide +kernel) (by decide +kernel) .nil
    obtain ⟨second, h₂, hs⟩ := Series.cons_of_runs fresh fresh listed 20 (.failed .exhausted)
      (by decide +kernel) (by decide +kernel) hs
    obtain ⟨first, h₁, hs⟩ := Series.cons_of_runs
      (.ofSlots (.reuse #[none, some ⟨.item, 0, 1, none⟩])) fresh unclosed 20
      (.failed (.mandatory 2)) (by decide +kernel) (by decide +kernel) hs
    exact ⟨_, hs, by simp [h₁, h₂, h₃], hrow #[none, some ⟨.item, 0, 1, none⟩] _ hs⟩

end Peg
