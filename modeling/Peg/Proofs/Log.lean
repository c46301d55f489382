import Mathlib.Data.List.Induction
import Peg.Proofs.HardFailure

/-
  Logs: what a match reports, in order. A hard failure that was caught stands in the log as an
  episode of its own: the failure, the nodes it passed through, the recovery. What comes after all
  episodes tells of the hard failure that the match ended in (`goes_logs`), so the log can be read
  without the match (`Logs.orderly`).
-/

namespace Peg

namespace Event

variable {L M : Type}

/-- The labels of the nodes that a hard failure passed through at the end of the log. -/
def lastLabels (events : List (Event L M)) : List L :=
  events.foldl (fun labels event =>
    match event with
    | whileParsing label => labels ++ [label]
    | _ => []) []

theorem lastLabels_concat (events : List (Event L M)) (label : L) :
    lastLabels (events ++ [whileParsing label]) = lastLabels events ++ [label] := by
  simp [lastLabels, List.foldl_append]

theorem lastLabels_concat_of_ne (events : List (Event L M)) {event : Event L M}
    (he : ∀ label, event ≠ whileParsing label) : lastLabels (events ++ [event]) = [] := by
  cases event with
  | whileParsing label => exact absurd rfl (he label)
  | mandatoryFailed | recovered | notDefined | dropped | tried =>
    simp [lastLabels, List.foldl_append]

theorem lastLabels_append {events : List (Event L M)} (h : lastLabels events = [])
    (later : List (Event L M)) : lastLabels (events ++ later) = lastLabels later := by
  unfold lastLabels at h ⊢
  rw [List.foldl_append, h]

/-- What stands before the last labels does not end with another one. -/
theorem eq_append_lastLabels (events : List (Event L M)) :
    ∃ before, events = before ++ (lastLabels events).map whileParsing ∧
      ∀ label, before.getLast? ≠ some (whileParsing label) := by
  induction events using List.reverseRecOn with
  | nil => exact ⟨[], rfl, fun _ => by simp⟩
  | append_singleton events event ih =>
    by_cases hw : ∃ label, event = whileParsing label
    · obtain ⟨label, rfl⟩ := hw
      obtain ⟨before, he, hb⟩ := ih
      refine ⟨before, ?_, hb⟩
      rw [lastLabels_concat, List.map_append, ← List.append_assoc, ← he]
      rfl
    · have hw : ∀ label, event ≠ whileParsing label := fun label he => hw ⟨label, he⟩
      refine ⟨events ++ [event], ?_, ?_⟩
      · rw [lastLabels_concat_of_ne events hw, List.map_nil, List.append_nil]
      · intro label
        rw [List.getLast?_concat]
        exact fun he => hw label (Option.some.inj he)

/-- Whether the event is one of those that a hard failure brings about. -/
def ofFailure : Event L M → Bool
  | mandatoryFailed _ | recovered _ | whileParsing _ => true
  | notDefined | dropped | tried _ => false

/-- Every hard failure in the log was caught where it had passed through some nodes. -/
inductive Settled : List (Event L M) → Prop
  | nil : Settled []
  | aside {event events} (he : ofFailure event = false) (h : Settled events) :
      Settled (event :: events)
  | episode {position labels events} (h : Settled events) :
      Settled (mandatoryFailed position ::
        (List.map whileParsing labels ++ recovered position :: events))

theorem Settled.append {xs ys : List (Event L M)} (hx : Settled xs) (hy : Settled ys) :
    Settled (xs ++ ys) := by
  induction hx with
  | nil => exact hy
  | aside he _ ih => exact .aside he ih
  | episode _ ih =>
    rw [List.cons_append, List.append_assoc, List.cons_append]
    exact .episode ih

/-- How the log ends where a hard failure was not caught. -/
def closing : Outcome (Position M) → List L → List (Event L M)
  | .failed (.mandatory position), labels => mandatoryFailed position :: labels.map whileParsing
  | .failed .exhausted, labels => labels.map whileParsing
  | _, _ => []

/-- The log is one of caught hard failures, and then of the one that is the outcome. -/
def Logs (outcome : Outcome (Position M)) (events : List (Event L M)) : Prop :=
  ∃ settled labels, Settled settled ∧ events = settled ++ closing outcome labels

/-- The log can be read on its own: a failed mandatory rule is followed by the nodes that the
failure passed through and by its recovery, unless it is the outcome; and such nodes follow a failed
mandatory rule, or else end the log of a match that found no room. -/
structure Orderly (outcome : Outcome (Position M)) (events : List (Event L M)) : Prop where
  failure_followed : ∀ before position later,
    events = before ++ mandatoryFailed position :: later → ∃ labels : List L,
      (∃ rest, later = labels.map whileParsing ++ recovered position :: rest) ∨
      (later = labels.map whileParsing ∧ outcome = .failed (.mandatory position))
  label_follows : ∀ before label later, events = before ++ whileParsing label :: later →
    (∃ earlier position, ∃ labels : List L,
      before = earlier ++ mandatoryFailed position :: labels.map whileParsing) ∨
    (outcome = .failed .exhausted ∧ ∃ labels : List L, later = labels.map whileParsing)

/-! ## Reading a log -/

/-- An event after some labels is one of them or comes after them all. -/
theorem split_labels {labels : List L} {rest before later : List (Event L M)} {event : Event L M}
    (h : labels.map whileParsing ++ rest = before ++ event :: later) :
    (∃ xs label ys, labels = xs ++ label :: ys ∧ event = whileParsing label ∧
      before = xs.map whileParsing ∧ later = ys.map whileParsing ++ rest) ∨
    ∃ middle, before = labels.map whileParsing ++ middle ∧ rest = middle ++ event :: later := by
  induction labels generalizing before with
  | nil => exact Or.inr ⟨before, rfl, h⟩
  | cons first labels ih =>
    cases before with
    | nil =>
      obtain ⟨rfl, rfl⟩ := List.cons.inj h
      exact Or.inl ⟨[], first, labels, rfl, rfl, rfl, rfl⟩
    | cons head before =>
      obtain ⟨rfl, ht⟩ := List.cons.inj h
      rcases ih ht with ⟨xs, label, ys, rfl, he, rfl, hl⟩ | ⟨middle, rfl, hr⟩
      · exact Or.inl ⟨first :: xs, label, ys, rfl, he, rfl, hl⟩
      · exact Or.inr ⟨middle, rfl, hr⟩

theorem split_closing {outcome : Outcome (Position M)} {labels : List L}
    {before later : List (Event L M)} {event : Event L M}
    (h : closing outcome labels = before ++ event :: later) :
    (∃ position, outcome = .failed (.mandatory position) ∧ before = [] ∧
      event = mandatoryFailed position ∧ later = labels.map whileParsing) ∨
    ∃ xs label ys, labels = xs ++ label :: ys ∧ event = whileParsing label ∧
      later = ys.map whileParsing ∧
      ((∃ position, outcome = .failed (.mandatory position) ∧
        before = mandatoryFailed position :: xs.map whileParsing) ∨
      outcome = .failed .exhausted) := by
  have none : ∀ before : List (Event L M), [] ≠ before ++ event :: later := by simp
  have split : ∀ before : List (Event L M), labels.map whileParsing = before ++ event :: later →
      ∃ xs label ys, labels = xs ++ label :: ys ∧ event = whileParsing label ∧
        later = ys.map whileParsing ∧ before = xs.map whileParsing := by
    intro before h
    rw [← List.append_nil (labels.map _)] at h
    rcases split_labels h with ⟨xs, label, ys, hx, he, hb, hl⟩ | ⟨middle, -, hm⟩
    · rw [List.append_nil] at hl
      exact ⟨xs, label, ys, hx, he, hl, hb⟩
    · exact absurd hm (none _)
  cases outcome with
  | matched | unmatched | faulted => exact absurd h (none _)
  | failed failure =>
    cases failure with
    | mandatory position =>
      cases before with
      | nil =>
        obtain ⟨rfl, rfl⟩ := List.cons.inj h
        exact Or.inl ⟨position, rfl, rfl, rfl, rfl⟩
      | cons head before =>
        obtain ⟨rfl, ht⟩ := List.cons.inj h
        obtain ⟨xs, label, ys, hx, he, hl, rfl⟩ := split before ht
        exact Or.inr ⟨xs, label, ys, hx, he, hl, Or.inl ⟨position, rfl, rfl⟩⟩
    | exhausted =>
      obtain ⟨xs, label, ys, hx, he, hl, -⟩ := split before h
      exact Or.inr ⟨xs, label, ys, hx, he, hl, Or.inr rfl⟩

theorem Orderly.aside {outcome : Outcome (Position M)} {event : Event L M}
    {events : List (Event L M)} (he : ofFailure event = false) (h : Orderly outcome events) :
    Orderly outcome (event :: events) := by
  refine ⟨?_, ?_⟩
  · intro before position later hs
    cases before with
    | nil =>
      obtain ⟨rfl, -⟩ := List.cons.inj hs
      cases he
    | cons head before => exact h.failure_followed before position later (List.cons.inj hs).2
  · intro before label later hs
    cases before with
    | nil =>
      obtain ⟨rfl, -⟩ := List.cons.inj hs
      cases he
    | cons head before =>
      rcases h.label_follows before label later (List.cons.inj hs).2 with
        ⟨earlier, position, labels, rfl⟩ | hr
      · exact Or.inl ⟨head :: earlier, position, labels, rfl⟩
      · exact Or.inr hr

theorem Orderly.episode {outcome : Outcome (Position M)} {position : Position M}
    {labels : List L} {events : List (Event L M)} (h : Orderly outcome events) :
    Orderly outcome (mandatoryFailed position ::
      (labels.map whileParsing ++ recovered position :: events)) := by
  refine ⟨?_, ?_⟩
  · intro before position' later hs
    cases before with
    | nil =>
      obtain ⟨hp, rfl⟩ := List.cons.inj hs
      cases hp
      exact ⟨labels, Or.inl ⟨events, rfl⟩⟩
    | cons head before =>
      rcases split_labels (List.cons.inj hs).2 with ⟨_, _, _, _, he, _⟩ | ⟨middle, rfl, hm⟩
      · cases he
      · cases middle with
        | nil => cases (List.cons.inj hm).1
        | cons first middle =>
          exact h.failure_followed middle position' later (List.cons.inj hm).2
  · intro before label later hs
    cases before with
    | nil => cases (List.cons.inj hs).1
    | cons head before =>
      obtain ⟨rfl, ht⟩ := List.cons.inj hs
      rcases split_labels ht with ⟨xs, _, _, _, _, rfl, _⟩ | ⟨middle, rfl, hm⟩
      · exact Or.inl ⟨[], position, xs, rfl⟩
      · cases middle with
        | nil => cases (List.cons.inj hm).1
        | cons first middle =>
          obtain ⟨rfl, hn⟩ := List.cons.inj hm
          rcases h.label_follows middle label later hn with ⟨earlier, position', others, rfl⟩ | hr
          · refine Or.inl ⟨mandatoryFailed position :: (labels.map whileParsing ++
              recovered position :: earlier), position', others, ?_⟩
            simp
          · exact Or.inr hr

theorem Logs.orderly {outcome : Outcome (Position M)} {events : List (Event L M)}
    (h : Logs outcome events) : Orderly outcome events := by
  obtain ⟨settled, labels, hs, rfl⟩ := h
  induction hs with
  | nil =>
    refine ⟨?_, ?_⟩
    · intro before position later he
      rcases split_closing he with ⟨position', ho, -, hp, hl⟩ | ⟨_, _, _, _, hp, _⟩
      · cases hp
        exact ⟨labels, Or.inr ⟨hl, ho⟩⟩
      · cases hp
    · intro before label later he
      rcases split_closing he with ⟨_, _, _, hp, _⟩ | ⟨xs, _, ys, _, _, hl, hb⟩
      · cases hp
      · rcases hb with ⟨position, -, hb⟩ | ho
        · exact Or.inl ⟨[], position, xs, hb⟩
        · exact Or.inr ⟨ho, ys, hl⟩
  | aside he _ ih => exact ih.aside he
  | episode _ ih =>
    rw [List.cons_append, List.append_assoc, List.cons_append]
    exact ih.episode

/-- Where there was no hard failure, no label ends the log. -/
theorem Settled.lastLabels_eq {events : List (Event L M)} (h : Settled events) :
    lastLabels events = [] := by
  induction h with
  | nil => rfl
  | @aside event _ he _ ih =>
    cases event with
    | notDefined | dropped | tried => exact ih
    | mandatoryFailed | recovered | whileParsing => cases he
  | @episode _ labels _ _ ih =>
    unfold lastLabels at ih ⊢
    rw [List.foldl_cons, List.foldl_append, List.foldl_cons]
    exact ih

/-! ## What is done to a log -/

namespace Logs

variable {events later : List (Event L M)}

theorem settled (h : Settled events) (outcome : Outcome (Position M))
    (ho : ∀ failure, outcome ≠ .failed failure) : Logs outcome events := by
  refine ⟨events, [], h, ?_⟩
  cases outcome with
  | matched | unmatched | faulted => exact (List.append_nil events).symm
  | failed failure => exact absurd rfl (ho failure)

theorem of_settled {outcome : Outcome (Position M)} (h : Logs outcome events)
    (ho : outcome = .matched ∨ outcome = .unmatched) : Settled events := by
  obtain ⟨settled, labels, hs, rfl⟩ := h
  rcases ho with rfl | rfl
  · exact (List.append_nil settled).symm ▸ hs
  · exact (List.append_nil settled).symm ▸ hs

theorem after {outcome : Outcome (Position M)} (hs : Settled events) (h : Logs outcome later) :
    Logs outcome (events ++ later) := by
  obtain ⟨settled, labels, hl, rfl⟩ := h
  exact ⟨events ++ settled, labels, hs.append hl, (List.append_assoc _ _ _).symm⟩

end Logs

end Event

/-! ## Every match -/

namespace Matching

open Event

variable {U L T M : Type}

/-- The outcome stands. Only where a hard failure passes through is there more to it. -/
theorem closeNode_cases [NodeTree T L M] [LawfulTree T] {cursor inside : Cursor T} {label : L}
    {result : Result T L M} (policy : Policy) (hi : cursor.openNode? label = some inside)
    (hg : Grows inside result) :
    ((∀ failure, result.outcome ≠ .failed failure) ∧
      (result.closeNode policy label).outcome = result.outcome ∧
      (result.closeNode policy label).events = result.events) ∨
    ∃ failure, ∃ abandoned : Cursor T, result.outcome = .failed failure ∧
      result.cursor.abandon label = .ok abandoned ∧
      result.closeNode policy label = ⟨.failed failure,
        if policy.keepsTrail then abandoned.unwind label else abandoned,
        result.events ++ [.whileParsing label]⟩ := by
  obtain ⟨completed, abandoned, hc, ha⟩ := closes_opened hi hg
  unfold Result.closeNode Result.closing
  rw [hc, ha]
  cases ho : result.outcome with
  | matched | unmatched => exact Or.inl ⟨nofun, rfl, rfl⟩
  | faulted fault => exact absurd ho (hg.sound fault)
  | failed failure => exact Or.inr ⟨failure, _, rfl, rfl, rfl⟩

/-- The log of the result is one of caught hard failures, and then of its own. -/
def Logged (result : Result T L M) : Prop := Logs result.outcome result.events

namespace Logged

variable {result last : Result T L M}

theorem accept (h : Logged result) : Logged result.accept := by
  unfold Result.accept
  split
  · rename_i ho
    exact .settled (h.of_settled (Or.inr ho)) _ nofun
  · exact h

theorem negate (h : Logged result) : Logged result.negate := by
  unfold Result.negate
  split
  · rename_i ho
    exact .settled (h.of_settled (Or.inl ho)) _ nofun
  · rename_i ho
    exact .settled (h.of_settled (Or.inr ho)) _ nofun
  · exact h

/-- What goes on after a rule that matched, or did not, goes on after caught failures only. -/
theorem after (h : Logged result) (ho : result.outcome = .matched ∨ result.outcome = .unmatched)
    (hl : Logged last) : Logged (last.after result.events) :=
  Logs.after (h.of_settled ho) hl

variable [NodeTree T L M]

theorem backTo (h : Logged result) (position : Position M) : Logged (result.backTo position) := by
  unfold Result.backTo
  split
  · exact h
  · exact h

theorem lookFrom (h : Logged result) (position : Position M) :
    Logged (result.lookFrom position) := by
  unfold Result.lookFrom
  split
  · exact h
  · exact h
  · exact h

theorem demand (h : Logged result) : Logged result.demand := by
  unfold Result.demand
  split
  · rename_i ho
    exact ⟨result.events, [], h.of_settled (Or.inr ho), rfl⟩
  · exact h

/-- A hard failure that is caught becomes an episode. -/
theorem recoverTo (h : Logged result) (start : Position M) : Logged (result.recoverTo start) := by
  unfold Result.recoverTo
  split
  · rename_i position ho
    obtain ⟨settled, labels, hs, he⟩ := h
    refine .settled ?_ _ nofun
    have hl : closing (.failed (.mandatory position)) labels ++ [recovered position] =
        mandatoryFailed position :: (labels.map whileParsing ++ recovered position :: []) := rfl
    rw [he, ho, List.append_assoc, hl]
    exact hs.append (.episode .nil)
  · exact h

/-- A hard failure goes on to pass through one more node. -/
theorem closeNode [LawfulTree T] {cursor inside : Cursor T} {label : L} (policy : Policy)
    (hi : cursor.openNode? label = some inside) (hg : Grows inside result) (h : Logged result) :
    Logged (result.closeNode policy label) := by
  rcases closeNode_cases policy hi hg with ⟨-, ho, he⟩ | ⟨failure, abandoned, ho, -, hc⟩
  · unfold Logged
    rw [ho, he]
    exact h
  · obtain ⟨settled, labels, hs, he⟩ := h
    refine ⟨settled, labels ++ [label], hs, ?_⟩
    have hl : closing (.failed failure) (labels ++ [label]) =
        closing (.failed failure) labels ++ [whileParsing (M := M) label] := by
      cases failure <;> simp [closing]
    rw [hc]
    show result.events ++ [whileParsing label] = settled ++ closing (.failed failure) _
    rw [he, ho, hl, List.append_assoc]

end Logged

variable [NodeTree T L M] [InputUnit U] [DecidableEq U] [DecidableEq M] {setting : Setting U L}

/-- A rule of which no part is tried says at most that its reference stands for nothing. -/
theorem logged_done {rule : Rule U L} {cursor : Cursor T} {result : Result T L M}
    (h : atOnce? setting rule cursor = some result) : Logged result := by
  have quiet (outcome : Outcome (Position M)) (cursor : Cursor T)
      (ho : outcome = .matched ∨ outcome = .unmatched ∨ outcome = .failed .exhausted) :
      Logged (⟨outcome, cursor, []⟩ : Result T L M) := by
    rcases ho with rfl | rfl | rfl
    · exact ⟨[], [], .nil, rfl⟩
    · exact ⟨[], [], .nil, rfl⟩
    · exact ⟨[], [], .nil, rfl⟩
  have calm : ∀ failure, (.unmatched : Outcome (Position M)) ≠ .failed failure := nofun
  cases rule with
  | unit p | units us =>
    simp only [atOnce?, step] at h
    split at h
    · cases h
      exact quiet _ _ (by simp)
    · cases h
      exact quiet _ _ (by simp)
  | atEnd =>
    cases h
    refine quiet _ _ ?_
    split
    · simp
    · simp
  | succeed | fail | exhaust =>
    cases h
    exact quiet _ _ (by simp)
  | opt rule =>
    simp only [atOnce?, step] at h
    split at h
    · cases h
      exact quiet _ _ (by simp)
    · cases h
  | store label rule =>
    simp only [atOnce?, step] at h
    split at h
    · cases h
    · cases h
      exact quiet _ _ (by simp)
  | ref i =>
    simp only [atOnce?, step] at h
    split at h
    · cases h
      exact .settled (.aside rfl .nil) _ calm
    · cases h
    · cases h
      exact .settled (.aside rfl .nil) _ calm
  | seq | or | star | plus | times | ahead | notAhead | untilPast | mandatory | recover
  | counted => cases h

theorem goes_logs [LawfulTree T] {task : Task U L M} {cursor : Cursor T}
    {parts : List (Course U L T M)} {result : Result T L M}
    (h : Goes setting task cursor parts result) : Logged result := by
  induction h with
  | done h => exact logged_done h
  | seq _ ih | times _ ih => exact ih.backTo _
  | or _ ih | star _ ih | plusStop _ _ ih | untilPast _ ih | ref _ _ ih | eachStop _ _ ih
  | firstStop _ _ ih | greedyStill _ _ _ _ ih | scanStop _ _ ih => exact ih
  | opt _ _ ih | greedyStop _ _ _ ih => exact ih.accept
  | ahead _ ih => exact ih.lookFrom _
  | notAhead _ ih => exact (ih.lookFrom _).negate
  | mandatory _ ih => exact ih.demand
  | recover _ ih => exact ih.recoverTo _
  | store hi h ih => exact ih.closeNode _ hi (goes_balanced h).toGrows
  | counted _ ih => exact Logs.after (.aside rfl .nil) ih
  | eachNil | firstNil | greedyEnd => exact .settled .nil _ nofun
  | plusOn _ ho _ ih ihn | eachOn _ ho _ ih ihn | greedyOn _ _ ho _ _ ih ihn =>
    exact ih.after (Or.inl ho) ihn
  | firstOn _ ho _ ih ihn | scanOn _ ho _ _ ih ihn => exact ih.after (Or.inr ho) ihn
  | scanEnd _ ho _ ih => exact .settled (ih.of_settled (Or.inr ho)) _ nofun

/-- Where a match went on, no label ends its log. -/
theorem lastLabels_of_goes [LawfulTree T] {task : Task U L M} {cursor : Cursor T}
    {parts : List (Course U L T M)} {result : Result T L M}
    (h : Goes setting task cursor parts result)
    (ho : result.outcome = .matched ∨ result.outcome = .unmatched) :
    lastLabels result.events = [] :=
  ((goes_logs h).of_settled ho).lastLabels_eq

end Matching

end Peg
