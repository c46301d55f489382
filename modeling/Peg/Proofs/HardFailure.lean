import Peg.Proofs.Balance
import Peg.Proofs.Trace
import Peg.Sample.Grammar

/-
  Hard failures: a mandatory rule that does not match fails at the position where it was tried, and
  on the way out nothing moves the cursor and nothing more is tried. Where there was no room for a
  node, that is what comes of the whole match. `hard_failures_in_place` says so of the course that
  a match took, over every kind of tree.
-/

namespace Peg.Matching

variable {U L T M : Type}

/-! ## What is begun last -/

theorem attemptsIn_singleton (course : Course U L T M) : attemptsIn [course] = course.attempts := by
  rw [attemptsIn, attemptsIn, List.append_nil]

theorem attempts_suffix_singleton (course : Course U L T M) :
    course.attempts <:+ attemptsIn [course] :=
  ⟨[], (attemptsIn_singleton course).symm⟩

theorem attemptsIn_suffix_cons (course : Course U L T M) (courses : List (Course U L T M)) :
    attemptsIn courses <:+ attemptsIn (course :: courses) := by
  rw [attemptsIn]
  exact List.suffix_append _ _

/-- What is begun for a task: for a rule, the match of the rule itself comes first. -/
def attemptsOf : Task U L M → Cursor T → List (Course U L T M) → Result T L M →
    List (Course U L T M)
  | .rule rule, cursor, parts, result => Course.attempts ⟨rule, cursor, parts, result⟩
  | _, _, parts, _ => attemptsIn parts

/-- The attempts of a rule end with those of its parts. -/
theorem attemptsIn_suffix_rule (rule : Rule U L) (cursor : Cursor T)
    (parts : List (Course U L T M)) (result : Result T L M) :
    attemptsIn parts <:+ attemptsOf (.rule rule) cursor parts result := by
  show attemptsIn parts <:+ Course.attempts ⟨rule, cursor, parts, result⟩
  rw [attempts_eq]
  exact List.suffix_cons _ _

theorem part_suffix_rule (rule : Rule U L) (cursor : Cursor T) (part : Course U L T M)
    (result : Result T L M) :
    part.attempts <:+ attemptsOf (.rule rule) cursor [part] result :=
  (attempts_suffix_singleton part).trans (attemptsIn_suffix_rule rule cursor [part] result)

/-! ## Where there was no room -/

/-- Where an attempt found no room, that is what came of everything, and nothing was begun after it
but the attempts it is made of. -/
def EndsExhausted (attempts : List (Course U L T M)) (outcome : Outcome (Position M)) : Prop :=
  ∀ before attempt later, attempts = before ++ attempt :: later →
    attempt.result.outcome = .failed .exhausted →
      outcome = .failed .exhausted ∧ attempt :: later = attempt.attempts

namespace EndsExhausted

variable {outcome outcome' : Outcome (Position M)}

theorem nil : EndsExhausted ([] : List (Course U L T M)) outcome := by
  intro before attempt later h
  have h := congrArg List.length h
  simp at h

theorem imp {attempts : List (Course U L T M)} (h : EndsExhausted attempts outcome)
    (ho : outcome = .failed .exhausted → outcome' = .failed .exhausted) :
    EndsExhausted attempts outcome' := by
  intro before attempt later hl ha
  obtain ⟨hx, hs⟩ := h before attempt later hl ha
  exact ⟨ho hx, hs⟩

/-- From the parts of a match to the match itself. -/
theorem attempts {course : Course U L T M}
    (h : EndsExhausted (attemptsIn course.parts) course.result.outcome) :
    EndsExhausted course.attempts course.result.outcome := by
  intro before attempt later hl ha
  rw [attempts_eq] at hl
  cases before with
  | nil =>
    obtain ⟨rfl, rfl⟩ := List.cons.inj hl
    exact ⟨ha, (attempts_eq _).symm⟩
  | cons first before => exact h before attempt later (List.cons.inj hl).2 ha

theorem single {course : Course U L T M}
    (h : EndsExhausted (attemptsIn course.parts) course.result.outcome) :
    EndsExhausted (attemptsIn [course]) course.result.outcome := by
  rw [attemptsIn_singleton]
  exact h.attempts

/-- A match that went on to others had room everywhere. -/
theorem cons {course : Course U L T M} {courses : List (Course U L T M)}
    (h : EndsExhausted (attemptsIn course.parts) course.result.outcome)
    (ho : course.result.outcome ≠ .failed .exhausted)
    (hn : EndsExhausted (attemptsIn courses) outcome) :
    EndsExhausted (attemptsIn (course :: courses)) outcome := by
  intro before attempt later hl ha
  rw [attemptsIn] at hl
  rcases List.append_eq_append_iff.1 hl with ⟨middle, -, hm⟩ | ⟨middle, hf, hm⟩
  · exact hn middle attempt later hm ha
  · cases middle with
    | nil => exact hn [] attempt later hm.symm ha
    | cons first middle =>
      -- The attempt is part of the first match, which would not have gone on.
      obtain ⟨rfl, -⟩ := List.cons.inj hm
      exact absurd (h.attempts before attempt middle hf ha).1 ho

end EndsExhausted

/-! ## Hard failures are passed on -/

theorem negate_cursor (result : Result T L M) : result.negate.cursor = result.cursor := by
  unfold Result.negate
  split <;> rfl

theorem accept_cursor (result : Result T L M) : result.accept.cursor = result.cursor := by
  unfold Result.accept
  split <;> rfl

/-- The hard failures are the same, and on one the cursor is at the same offset. -/
structure Relays (before after : Result T L M) : Prop where
  outcome_iff : ∀ failure, after.outcome = .failed failure ↔ before.outcome = .failed failure
  offset_eq : ∀ failure, before.outcome = .failed failure →
    after.cursor.offset = before.cursor.offset

theorem Relays.of_eq {before after : Result T L M} (ho : after.outcome = before.outcome)
    (hc : after.cursor.offset = before.cursor.offset) : Relays before after :=
  ⟨fun _ => by rw [ho], fun _ _ => hc⟩

theorem Relays.refl (result : Result T L M) : Relays result result :=
  .of_eq rfl rfl

theorem relays_after (events : List (Event L M)) (result : Result T L M) :
    Relays result (result.after events) :=
  .of_eq rfl rfl

theorem relays_accept (result : Result T L M) : Relays result result.accept := by
  unfold Result.accept
  split
  · rename_i ho
    exact ⟨fun _ => by simp [ho], fun _ _ => rfl⟩
  · exact .refl result

theorem relays_negate (result : Result T L M) : Relays result result.negate := by
  unfold Result.negate
  split
  · rename_i ho
    exact ⟨fun _ => by simp [ho], fun _ _ => rfl⟩
  · rename_i ho
    exact ⟨fun _ => by simp [ho], fun _ _ => rfl⟩
  · exact .refl result

theorem Relays.trans {a b c : Result T L M} (hab : Relays a b) (hbc : Relays b c) :
    Relays a c := by
  refine ⟨fun failure => (hbc.outcome_iff failure).trans (hab.outcome_iff failure), ?_⟩
  intro failure ho
  have hb := (hab.outcome_iff failure).2 ho
  exact (hbc.offset_eq failure hb).trans (hab.offset_eq failure ho)

variable [NodeTree T L M]

theorem relays_backTo (position : Position M) (result : Result T L M) :
    Relays result (result.backTo position) := by
  unfold Result.backTo
  split
  · rename_i ho
    exact ⟨fun _ => Iff.rfl, fun failure hf => by simp [ho] at hf⟩
  · exact .refl result

theorem relays_lookFrom (position : Position M) (result : Result T L M) :
    Relays result (result.lookFrom position) := by
  unfold Result.lookFrom
  split
  · rename_i ho
    exact ⟨fun _ => Iff.rfl, fun failure hf => by simp [ho] at hf⟩
  · rename_i ho
    exact ⟨fun _ => Iff.rfl, fun failure hf => by simp [ho] at hf⟩
  · exact .refl result

theorem recoverTo_exhausted {result : Result T L M} (position : Position M)
    (h : result.outcome = .failed .exhausted) :
    (result.recoverTo position).outcome = .failed .exhausted := by
  unfold Result.recoverTo
  simp only [h]

theorem recoverTo_ne_mandatory (position other : Position M) (result : Result T L M) :
    (result.recoverTo position).outcome ≠ .failed (.mandatory other) := by
  unfold Result.recoverTo
  split
  · exact nofun
  · rename_i ho
    exact ho other

theorem demand_exhausted {result : Result T L M} (h : result.outcome = .failed .exhausted) :
    result.demand.outcome = .failed .exhausted := by
  unfold Result.demand
  simp only [h]

theorem closeNode_offset (policy : Policy) (label : L) (result : Result T L M) :
    (result.closeNode policy label).cursor.offset = result.cursor.offset := by
  have hc : ∀ closed : Except Fault T,
      (result.closing (closed.map (⟨result.cursor.offset, ·⟩))).cursor.offset =
        result.cursor.offset := by
    intro closed
    cases closed <;> rfl
  unfold Result.closeNode
  split
  · exact hc _
  · exact hc _
  · unfold Cursor.abandon
    cases NodeTree.abandon result.cursor.tree label with
    | error fault => rfl
    | ok tree =>
      show (if policy.keepsTrail then _ else _ : Cursor T).offset = result.cursor.offset
      split <;> rfl
  · rfl

/-- To close a node adds no hard failure, even where it is a fault. -/
theorem closeNode_failed {policy : Policy} {label : L} {result : Result T L M}
    {failure : HardFailure (Position M)}
    (h : (result.closeNode policy label).outcome = .failed failure) :
    result.outcome = .failed failure := by
  have hc : ∀ closed : Except Fault (Cursor T),
      (result.closing closed).outcome = .failed failure → result.outcome = .failed failure := by
    intro closed h
    cases closed with
    | ok cursor => exact h
    | error fault => cases h
  unfold Result.closeNode at h
  split at h
  · exact hc _ h
  · exact hc _ h
  · split at h
    · rename_i ho _ _ _
      exact ho.trans h
    · cases h
  · exact h

/-- A node that was opened around a match can be closed, so the outcome is that of the match. -/
theorem relays_closeNode [LawfulTree T] {cursor inside : Cursor T} {label : L}
    {result : Result T L M} (policy : Policy) (hi : cursor.openNode? label = some inside)
    (h : Grows inside result) : Relays result (result.closeNode policy label) := by
  refine .of_eq ?_ (closeNode_offset policy label result)
  obtain ⟨completed, abandoned, hc, ha⟩ := closes_opened hi h
  unfold Result.closeNode Result.closing
  rw [hc, ha]
  cases ho : result.outcome <;> simp [ho]

theorem demand_cursor (result : Result T L M) : result.demand.cursor = result.cursor := by
  unfold Result.demand
  split <;> rfl

/-! ## A hard failure is where the cursor is -/

/-- Where a mandatory rule failed, there the cursor is. -/
def FailsHere (result : Result T L M) : Prop :=
  ∀ position, result.outcome = .failed (.mandatory position) →
    result.cursor.offset = position.offset

namespace FailsHere

variable {before after : Result T L M}

omit [NodeTree T L M] in
theorem of_ne (h : ∀ position, after.outcome ≠ .failed (.mandatory position)) :
    FailsHere after :=
  fun position ho => absurd ho (h position)

omit [NodeTree T L M] in
theorem relay (h : FailsHere before) (hr : Relays before after) : FailsHere after := by
  intro position ho
  have hb := (hr.outcome_iff _).1 ho
  exact (hr.offset_eq _ hb).trans (h position hb)

theorem demand (h : FailsHere before) : FailsHere before.demand := by
  unfold Result.demand
  split
  · intro position ho
    cases ho
    rfl
  · exact h

theorem closeNode (h : FailsHere before) (policy : Policy) (label : L) :
    FailsHere (before.closeNode policy label) := by
  intro position ho
  rw [closeNode_offset]
  exact h position (closeNode_failed ho)

end FailsHere

/-- So it is over every kind of tree, whatever comes of the nodes in it. -/
theorem goes_failsHere [InputUnit U] [DecidableEq U] [DecidableEq M] {setting : Setting U L}
    {task : Task U L M} {cursor : Cursor T} {parts : List (Course U L T M)} {result : Result T L M}
    (h : Goes setting task cursor parts result) : FailsHere result := by
  induction h with
  | done h =>
    refine .of_ne fun position => ?_
    rcases done_cases h with ⟨offset, -, rfl⟩ | ⟨events, rfl⟩ | rfl | rfl <;> exact nofun
  | seq _ ih | times _ ih => exact ih.relay (relays_backTo _ _)
  | or _ ih | star _ ih | plusStop _ _ ih | untilPast _ ih | ref _ _ ih | eachStop _ _ ih
  | firstStop _ _ ih | greedyStill _ _ _ _ ih | scanStop _ _ ih => exact ih
  | opt _ _ ih | greedyStop _ _ _ ih => exact ih.relay (relays_accept _)
  | ahead _ ih => exact ih.relay (relays_lookFrom _ _)
  | notAhead _ ih => exact ih.relay ((relays_lookFrom _ _).trans (relays_negate _))
  | mandatory _ ih => exact ih.demand
  | recover => exact .of_ne fun other => recoverTo_ne_mandatory _ other _
  | store _ _ ih => exact ih.closeNode _ _
  | counted _ ih => exact ih.relay (relays_after _ _)
  | plusOn _ _ _ _ ihn | eachOn _ _ _ _ ihn | firstOn _ _ _ _ ihn | greedyOn _ _ _ _ _ _ ihn
  | scanOn _ _ _ _ _ ihn => exact ihn.relay (relays_after _ _)
  | eachNil | firstNil | greedyEnd | scanEnd => exact .of_ne nofun

/-! ## Where a mandatory rule fails -/

/-- The course is that of a mandatory rule entered at the position, where its rule did not match. -/
def Course.Raises (position : Position M) (origin : Course U L T M) : Prop :=
  ∃ part : Course U L T M, origin.rule = .mandatory part.rule ∧ origin.parts = [part] ∧
    part.cursor = origin.cursor ∧ part.result.outcome = .unmatched ∧
    origin.cursor.position = position ∧ origin.result.outcome = .failed (.mandatory position)

/-- The hard failure of a mandatory rule is one that was raised last, where the cursor is. -/
def Reports (attempts : List (Course U L T M)) (result : Result T L M) : Prop :=
  ∀ position, result.outcome = .failed (.mandatory position) →
    result.cursor.offset = position.offset ∧
    ∃ origin : Course U L T M, origin.Raises position ∧ origin.attempts <:+ attempts

namespace Reports

variable {attempts attempts' : List (Course U L T M)} {before after : Result T L M}

theorem of_ne (h : ∀ position, after.outcome ≠ .failed (.mandatory position)) :
    Reports attempts after :=
  fun position ho => absurd ho (h position)

theorem relay (h : Reports attempts before) (hr : Relays before after)
    (hs : attempts <:+ attempts') : Reports attempts' after := by
  intro position ho
  have hb := (hr.outcome_iff _).1 ho
  obtain ⟨hoff, origin, horigin, hlast⟩ := h position hb
  exact ⟨(hr.offset_eq _ hb).trans hoff, origin, horigin, hlast.trans hs⟩

/-- A recovering rule lets no hard failure of a mandatory rule out. -/
theorem recoverTo (position : Position M) : Reports attempts (before.recoverTo position) :=
  of_ne fun other => recoverTo_ne_mandatory position other before

/-- A mandatory rule raises its failure where it was entered, for its own rule did not move. -/
theorem demand [LawfulTree T] {part : Course U L T M} {cursor : Cursor T}
    (hc : part.cursor = cursor) (hb : Balanced cursor part.result)
    (h : Reports part.attempts part.result) :
    Reports (attemptsOf (.rule (.mandatory part.rule)) cursor [part] part.result.demand)
      part.result.demand := by
  by_cases hu : part.result.outcome = .unmatched
  · obtain ⟨hoff, hback⟩ := hb.restored hu
    have hp : cursor.position = part.result.cursor.position := by
      unfold Cursor.position
      rw [hoff, LawfulTree.mark_eq hb.grown hback]
    have ho : part.result.demand.outcome = .failed (.mandatory cursor.position) := by
      unfold Result.demand
      simp only [hu, hp]
    intro position hd
    obtain rfl : cursor.position = position := by simpa [ho] using hd
    refine ⟨?_, _, ⟨part, rfl, rfl, hc, hu, rfl, ho⟩, List.suffix_refl _⟩
    rw [demand_cursor]
    exact hoff
  · have hd : part.result.demand = part.result := by
      unfold Result.demand
      split
      · contradiction
      · rfl
    rw [hd]
    exact h.relay (.refl _) (part_suffix_rule _ _ _ _)

end Reports

/-! ## The cursor does not go back -/

/-- The cursor ends no earlier than it started; a scan may go back as far as its own start. -/
def Forward : Task U L M → Cursor T → Result T L M → Prop
  | .scan _ start, cursor, result =>
    start.offset ≤ cursor.offset → start.offset ≤ result.cursor.offset
  | _, cursor, result => cursor.offset ≤ result.cursor.offset

theorem le_backTo {cursor : Cursor T} {result : Result T L M}
    (h : cursor.offset ≤ result.cursor.offset) :
    cursor.offset ≤ (result.backTo cursor.position).cursor.offset := by
  unfold Result.backTo
  split
  · exact Nat.le_refl _
  · exact h

theorem le_lookFrom {cursor : Cursor T} {result : Result T L M}
    (h : cursor.offset ≤ result.cursor.offset) :
    cursor.offset ≤ (result.lookFrom cursor.position).cursor.offset := by
  unfold Result.lookFrom
  split
  · exact Nat.le_refl _
  · exact Nat.le_refl _
  · exact h

theorem le_recoverTo {cursor : Cursor T} {result : Result T L M}
    (h : cursor.offset ≤ result.cursor.offset) :
    cursor.offset ≤ (result.recoverTo cursor.position).cursor.offset := by
  unfold Result.recoverTo
  split
  · exact Nat.le_refl _
  · exact h

variable [InputUnit U] [DecidableEq U] [DecidableEq M] {setting : Setting U L}

theorem goes_forward {task : Task U L M} {cursor : Cursor T} {parts : List (Course U L T M)}
    {result : Result T L M} (h : Goes setting task cursor parts result) :
    Forward task cursor result := by
  induction h with
  | done h =>
    rcases done_cases h with ⟨offset, ho, rfl⟩ | ⟨events, rfl⟩ | rfl | rfl
    · exact ho
    · exact Nat.le_refl _
    · exact Nat.le_refl _
    · exact Nat.le_refl _
  | seq _ ih | times _ ih => exact le_backTo ih
  | or _ ih | star _ ih | plusStop _ _ ih | ref _ _ ih | counted _ ih | eachStop _ _ ih
  | firstStop _ _ ih | greedyStill _ _ _ _ ih => exact ih
  | @opt _ cursor _ result _ _ ih | @greedyStop _ cursor _ result _ _ _ ih =>
    show cursor.offset ≤ result.accept.cursor.offset
    rw [accept_cursor]
    exact ih
  | ahead _ ih => exact le_lookFrom ih
  | @notAhead _ cursor _ result _ ih =>
    show cursor.offset ≤ (result.lookFrom cursor.position).negate.cursor.offset
    rw [negate_cursor]
    exact le_lookFrom ih
  | untilPast _ ih => exact ih (Nat.le_refl _)
  | @mandatory _ cursor _ result _ ih =>
    show cursor.offset ≤ result.demand.cursor.offset
    rw [demand_cursor]
    exact ih
  | recover _ ih => exact le_recoverTo ih
  | @store label _ cursor _ _ result hi _ ih =>
    obtain ⟨tree, -, rfl⟩ := Option.map_eq_some_iff.1 hi
    show cursor.offset ≤ (result.closeNode setting.policy label).cursor.offset
    rw [closeNode_offset]
    exact ih
  | eachNil | firstNil | greedyEnd => exact Nat.le_refl _
  | plusOn _ _ _ ih ihn | eachOn _ _ _ ih ihn | firstOn _ _ _ ih ihn
  | greedyOn _ _ _ _ _ ih ihn => exact Nat.le_trans ih ihn
  | scanStop _ _ ih => exact fun hs => Nat.le_trans hs ih
  | scanEnd => exact fun _ => Nat.le_refl _
  | scanOn _ _ _ _ ih ihn =>
    intro hs
    exact ihn (Nat.le_trans (Nat.le_trans hs ih) (Cursor.le_advance _ _))

theorem goes_reports [LawfulTree T] {task : Task U L M} {cursor : Cursor T}
    {parts : List (Course U L T M)} {result : Result T L M}
    (h : Goes setting task cursor parts result) :
    Reports (attemptsOf task cursor parts result) result := by
  -- Of several parts only the last can have ended in a hard failure.
  induction h with
  | done h =>
    refine .of_ne ?_
    rcases done_cases h with ⟨offset, -, rfl⟩ | ⟨events, rfl⟩ | rfl | rfl
    · exact nofun
    · exact nofun
    · exact nofun
    · exact nofun
  | seq _ ih | times _ ih => exact ih.relay (relays_backTo _ _) (attemptsIn_suffix_rule _ _ _ _)
  | or _ ih | star _ ih | untilPast _ ih =>
    exact ih.relay (.refl _) (attemptsIn_suffix_rule _ _ _ _)
  | plusStop _ _ ih | ref _ _ ih => exact ih.relay (.refl _) (part_suffix_rule _ _ _ _)
  | plusOn _ _ _ _ ihn =>
    exact ihn.relay (relays_after _ _)
      ((attemptsIn_suffix_cons _ _).trans (attemptsIn_suffix_rule _ _ _ _))
  | opt _ _ ih => exact ih.relay (relays_accept _) (part_suffix_rule _ _ _ _)
  | ahead _ ih => exact ih.relay (relays_lookFrom _ _) (part_suffix_rule _ _ _ _)
  | notAhead _ ih =>
    exact ih.relay ((relays_lookFrom _ _).trans (relays_negate _)) (part_suffix_rule _ _ _ _)
  | mandatory h ih => exact .demand rfl (goes_balanced h) ih
  | recover => exact .recoverTo _
  | store hi h ih =>
    exact ih.relay (relays_closeNode _ hi (goes_balanced h).toGrows) (part_suffix_rule _ _ _ _)
  | counted _ ih => exact ih.relay (relays_after _ _) (part_suffix_rule _ _ _ _)
  | eachNil | firstNil | greedyEnd | scanEnd => exact .of_ne nofun
  | eachStop _ _ ih | firstStop _ _ ih | greedyStill _ _ _ _ ih | scanStop _ _ ih =>
    exact ih.relay (.refl _) (attempts_suffix_singleton _)
  | greedyStop _ _ _ ih =>
    exact ih.relay (relays_accept _) (attempts_suffix_singleton _)
  | eachOn _ _ _ _ ihn | firstOn _ _ _ _ ihn | greedyOn _ _ _ _ _ _ ihn | scanOn _ _ _ _ _ ihn =>
    exact ihn.relay (relays_after _ _) (attemptsIn_suffix_cons _ _)

theorem goes_endsExhausted [LawfulTree T] {task : Task U L M} {cursor : Cursor T}
    {parts : List (Course U L T M)} {result : Result T L M}
    (h : Goes setting task cursor parts result) :
    EndsExhausted (attemptsIn parts) result.outcome := by
  induction h with
  | done | eachNil | firstNil | greedyEnd =>
    rw [attemptsIn]
    exact .nil
  | seq _ ih | times _ ih => exact ih.imp ((relays_backTo _ _).outcome_iff _).2
  | or _ ih | star _ ih | untilPast _ ih => exact ih
  | plusStop _ _ ih | ref _ _ ih | counted _ ih | eachStop _ _ ih | firstStop _ _ ih
  | greedyStill _ _ _ _ ih | scanStop _ _ ih => exact ih.single
  | opt _ _ ih | greedyStop _ _ _ ih => exact ih.single.imp ((relays_accept _).outcome_iff _).2
  | ahead _ ih => exact ih.single.imp ((relays_lookFrom _ _).outcome_iff _).2
  | notAhead _ ih =>
    exact ih.single.imp (((relays_lookFrom _ _).trans (relays_negate _)).outcome_iff _).2
  | mandatory _ ih => exact ih.single.imp demand_exhausted
  | recover _ ih => exact ih.single.imp (recoverTo_exhausted _)
  | store hi h ih =>
    exact ih.single.imp ((relays_closeNode _ hi (goes_balanced h).toGrows).outcome_iff _).2
  | scanEnd _ ho _ ih => exact ih.single.imp fun h => by simp [ho] at h
  | plusOn _ ho _ ih ihn | eachOn _ ho _ ih ihn | firstOn _ ho _ ih ihn
  | greedyOn _ _ ho _ _ ih ihn | scanOn _ ho _ _ ih ihn =>
    exact ih.cons (by simp [ho]) ihn

/-! ## Every kind of tree -/

/-- What is known of the course of a match: the hard failure of a mandatory rule is where that rule
was entered and where the match stopped, and not to have room is what comes of everything. In both
cases nothing is tried any more. -/
def FailsInPlace (setting : Setting U L) (rule : Rule U L) (cursor : Cursor T)
    (result : Result T L M) : Prop :=
  ∃ course : Course U L T M, Course.Traces setting rule cursor result course ∧
    (∀ position, result.outcome = .failed (.mandatory position) →
      cursor.offset ≤ position.offset ∧ result.cursor.offset = position.offset ∧
      ∃ origin : Course U L T M, origin.Raises position ∧ origin.attempts <:+ course.attempts) ∧
    EndsExhausted course.attempts result.outcome

theorem returns_failsInPlace [LawfulTree T] {rule : Rule U L} {cursor : Cursor T}
    {result : Result T L M} (h : Returns setting rule cursor result) :
    FailsInPlace setting rule cursor result := by
  obtain ⟨⟨rule, cursor, parts, result⟩, hc⟩ := h.traced
  refine ⟨_, hc, ?_, ?_⟩
  · obtain ⟨hh, rfl, rfl, rfl, -⟩ := hc
    intro position ho
    have hf : cursor.offset ≤ result.cursor.offset := goes_forward hh
    obtain ⟨hoff, origin, hr, hl⟩ := goes_reports hh position ho
    exact ⟨hoff ▸ hf, hoff, origin, hr, hl⟩
  · rw [← hc.result_eq]
    exact (goes_endsExhausted hc.happens).attempts

/-- Hard failures are reported where they happened, over every kind of tree. -/
theorem hard_failures_in_place {L : Type} [DecidableEq L] (setting : Setting U L)
    (rule : Rule U L) :
    (∀ (cursor : Cursor (TrailTree L)) (result : Result (TrailTree L) L Mark),
      Returns setting rule cursor result → FailsInPlace setting rule cursor result) ∧
    (∀ (cursor : Cursor (RowTree L)) (result : Result (RowTree L) L Mark),
      Returns setting rule cursor result → FailsInPlace setting rule cursor result) ∧
    (∀ (cursor : Cursor (DepthTree L)) (result : Result (DepthTree L) L Nat),
      Returns setting rule cursor result → FailsInPlace setting rule cursor result) :=
  ⟨fun _ _ => returns_failsInPlace, fun _ _ => returns_failsInPlace,
    fun _ _ => returns_failsInPlace⟩

/-- The list `(1, x` is not closed: what follows its parenthesis fails there. Where there is room for
one node only, it is the first item for which there is none. -/
theorem hard_failures_in_place_unclosed_list :
    let setting : Setting Char Sample.Label :=
      ⟨.ofList ['(', '1', ',', 'x'], Sample.workspace.registry.lookup, .text⟩
    let array : Cursor (TrailTree Sample.Label) := ⟨0, TrailTree.empty⟩
    let row : Cursor (RowTree Sample.Label) := ⟨0, Arena.ofSlots (SlotRow.ofCapacity 1)⟩
    let depth : Cursor (DepthTree Sample.Label) := ⟨0, ⟨7⟩⟩
    (∃ result, Returns setting Sample.listRule array result ∧
      result.outcome = .failed (.mandatory ⟨1, ⟨1, some 0⟩⟩) ∧
      FailsInPlace setting Sample.listRule array result) ∧
    (∃ result, Returns setting Sample.listRule row result ∧
      result.outcome = .failed .exhausted ∧
      FailsInPlace setting Sample.listRule row result) ∧
    ∃ result, Returns setting Sample.listRule depth result ∧
      result.outcome = .failed (.mandatory ⟨1, 8⟩) ∧
      FailsInPlace setting Sample.listRule depth result := by
  intro setting array row depth
  have ha : (run setting 20 Sample.listRule array).map (·.outcome) =
      some (.failed (.mandatory ⟨1, ⟨1, some 0⟩⟩)) := by decide +kernel
  have hr : (run setting 20 Sample.listRule row).map (·.outcome) =
      some (.failed .exhausted) := by decide +kernel
  have hd : (run setting 20 Sample.listRule depth).map (·.outcome) =
      some (.failed (.mandatory ⟨1, 8⟩)) := by decide +kernel
  obtain ⟨_, ha, hao⟩ := Option.map_eq_some_iff.1 ha
  obtain ⟨_, hr, hro⟩ := Option.map_eq_some_iff.1 hr
  obtain ⟨_, hd, hdo⟩ := Option.map_eq_some_iff.1 hd
  obtain ⟨harray, hrow, hdepth⟩ := hard_failures_in_place setting Sample.listRule
  exact ⟨⟨_, ⟨20, ha⟩, hao, harray array _ ⟨20, ha⟩⟩, ⟨_, ⟨20, hr⟩, hro, hrow row _ ⟨20, hr⟩⟩,
    _, ⟨20, hd⟩, hdo, hdepth depth _ ⟨20, hd⟩⟩

end Peg.Matching
