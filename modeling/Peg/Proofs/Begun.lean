import Mathlib.Logic.Relation
import Peg.Proofs.Course

/-
  Begun tasks: which tasks a task begins while it goes on, and at which cursors (`Begins`). This is
  known of a match even if it never comes to an end. A task goes to a result if all tasks that it
  begins do (`settles_of_begun`), so a match returns if it does not begin tasks for ever
  (`Ends.returns`).
-/

namespace Peg.Matching

variable {U L T M : Type} [InputUnit U] [DecidableEq U] [NodeTree T L M] [DecidableEq M]

/-- While it goes on, the task at the one cursor begins the other task at the other cursor. -/
inductive Begins (setting : Setting U L) : Task U L M × Cursor T → Task U L M × Cursor T → Prop
  | seq {rules cursor} : Begins setting (.rule (.seq rules), cursor) (.each rules, cursor)
  | or {rules cursor} : Begins setting (.rule (.or rules), cursor) (.first rules, cursor)
  | star {rule cursor} : Begins setting (.rule (.star rule), cursor) (.greedy rule, cursor)
  | plus {rule cursor} : Begins setting (.rule (.plus rule), cursor) (.rule rule, cursor)
  | plusOn {rule cursor parts result} (h : Goes setting (.rule rule) cursor parts result)
      (ho : result.outcome = .matched) :
      Begins setting (.rule (.plus rule), cursor) (.greedy rule, result.cursor)
  | opt {rule cursor} (he : cursor.atEnd setting.input = false) :
      Begins setting (.rule (.opt rule), cursor) (.rule rule, cursor)
  | times {rule n cursor} :
      Begins setting (.rule (.times rule n), cursor) (.each (List.replicate n rule), cursor)
  | ahead {rule cursor} : Begins setting (.rule (.ahead rule), cursor) (.rule rule, cursor)
  | notAhead {rule cursor} : Begins setting (.rule (.notAhead rule), cursor) (.rule rule, cursor)
  | untilPast {rule cursor} :
      Begins setting (.rule (.untilPast rule), cursor) (.scan rule cursor.position, cursor)
  | mandatory {rule cursor} : Begins setting (.rule (.mandatory rule), cursor) (.rule rule, cursor)
  | recover {rule cursor} : Begins setting (.rule (.recover rule), cursor) (.rule rule, cursor)
  | store {label rule cursor inside} (hi : cursor.openNode? label = some inside) :
      Begins setting (.rule (.store label rule), cursor) (.rule rule, inside)
  | ref {i rule cursor} (hi : setting.references i = .defined rule) :
      Begins setting (.rule (.ref i), cursor) (.rule rule, cursor)
  | counted {counter rule cursor} :
      Begins setting (.rule (.counted counter rule), cursor) (.rule rule, cursor)
  | each {rule rules cursor} : Begins setting (.each (rule :: rules), cursor) (.rule rule, cursor)
  | eachOn {rule rules cursor parts result} (h : Goes setting (.rule rule) cursor parts result)
      (ho : result.outcome = .matched) :
      Begins setting (.each (rule :: rules), cursor) (.each rules, result.cursor)
  | first {rule rules cursor} : Begins setting (.first (rule :: rules), cursor) (.rule rule, cursor)
  | firstOn {rule rules cursor parts result} (h : Goes setting (.rule rule) cursor parts result)
      (ho : result.outcome = .unmatched) :
      Begins setting (.first (rule :: rules), cursor) (.first rules, result.cursor)
  | greedy {rule cursor} (he : cursor.atEnd setting.input = false) :
      Begins setting (.greedy rule, cursor) (.rule rule, cursor)
  | greedyOn {rule cursor parts result} (he : cursor.atEnd setting.input = false)
      (h : Goes setting (.rule rule) cursor parts result) (ho : result.outcome = .matched)
      (hp : setting.policy.progressed cursor.position result.cursor = true) :
      Begins setting (.greedy rule, cursor) (.greedy rule, result.cursor)
  | scan {rule start cursor} : Begins setting (.scan rule start, cursor) (.rule rule, cursor)
  | scanOn {rule start cursor parts result} (h : Goes setting (.rule rule) cursor parts result)
      (ho : result.outcome = .unmatched)
      (he : (result.cursor.advance setting.input).atEnd setting.input = false) :
      Begins setting (.scan rule start, cursor)
        (.scan rule start, result.cursor.advance setting.input)

/-- The task at the cursor goes some course to some result. -/
def Settles (setting : Setting U L) (start : Task U L M × Cursor T) : Prop :=
  ∃ parts result, Goes setting start.1 start.2 parts result

section

variable {setting : Setting U L} {rule : Rule U L} {rules : List (Rule U L)} {cursor : Cursor T}

theorem settles_at_once (h : (atOnce? (M := M) setting rule cursor).isSome) :
    Settles (M := M) setting (.rule rule, cursor) := by
  obtain ⟨result, h⟩ := Option.isSome_iff_exists.1 h
  exact ⟨_, _, .done h⟩

theorem settles_each
    (h : ∀ next, Begins setting (.each rules, cursor) next → Settles (M := M) setting next) :
    Settles (M := M) setting (.each rules, cursor) := by
  cases rules with
  | nil => exact ⟨_, _, .eachNil⟩
  | cons rule rules =>
    obtain ⟨parts, result, hg⟩ := h _ .each
    by_cases ho : result.outcome = .matched
    · obtain ⟨rest, last, hn⟩ := h _ (.eachOn hg ho)
      exact ⟨_, _, .eachOn hg ho hn⟩
    · exact ⟨_, _, .eachStop hg ho⟩

theorem settles_first
    (h : ∀ next, Begins setting (.first rules, cursor) next → Settles (M := M) setting next) :
    Settles (M := M) setting (.first rules, cursor) := by
  cases rules with
  | nil => exact ⟨_, _, .firstNil⟩
  | cons rule rules =>
    obtain ⟨parts, result, hg⟩ := h _ .first
    by_cases ho : result.outcome = .unmatched
    · obtain ⟨rest, last, hn⟩ := h _ (.firstOn hg ho)
      exact ⟨_, _, .firstOn hg ho hn⟩
    · exact ⟨_, _, .firstStop hg ho⟩

theorem settles_greedy
    (h : ∀ next, Begins setting (.greedy rule, cursor) next → Settles (M := M) setting next) :
    Settles (M := M) setting (.greedy rule, cursor) := by
  cases he : cursor.atEnd setting.input with
  | true => exact ⟨_, _, .greedyEnd he⟩
  | false =>
    obtain ⟨parts, result, hg⟩ := h _ (.greedy he)
    by_cases ho : result.outcome = .matched
    · cases hp : setting.policy.progressed cursor.position result.cursor with
      | true =>
        obtain ⟨rest, last, hn⟩ := h _ (.greedyOn he hg ho hp)
        exact ⟨_, _, .greedyOn he hg ho hp hn⟩
      | false => exact ⟨_, _, .greedyStill he hg ho hp⟩
    · exact ⟨_, _, .greedyStop he hg ho⟩

theorem settles_scan {start : Position M}
    (h : ∀ next, Begins setting (.scan rule start, cursor) next → Settles setting next) :
    Settles setting (.scan rule start, cursor) := by
  obtain ⟨parts, result, hg⟩ := h _ .scan
  by_cases ho : result.outcome = .unmatched
  · cases he : (result.cursor.advance setting.input).atEnd setting.input with
    | true => exact ⟨_, _, .scanEnd hg ho he⟩
    | false =>
      obtain ⟨rest, last, hn⟩ := h _ (.scanOn hg ho he)
      exact ⟨_, _, .scanOn hg ho he hn⟩
  · exact ⟨_, _, .scanStop hg ho⟩

theorem settles_rule
    (h : ∀ next, Begins setting (.rule rule, cursor) next → Settles (M := M) setting next) :
    Settles (M := M) setting (.rule rule, cursor) := by
  cases rule with
  | unit p =>
    cases ht : cursor.take? setting.input p <;>
      exact settles_at_once (by simp only [atOnce?, step, ht, Option.isSome_some])
  | units us =>
    cases ht : cursor.takeAll? setting.input us <;>
      exact settles_at_once (by simp only [atOnce?, step, ht, Option.isSome_some])
  | atEnd | succeed | fail | exhaust => exact settles_at_once rfl
  | seq rules =>
    obtain ⟨parts, result, hg⟩ := h _ .seq
    exact ⟨_, _, .seq hg⟩
  | or rules =>
    obtain ⟨parts, result, hg⟩ := h _ .or
    exact ⟨_, _, .or hg⟩
  | star rule =>
    obtain ⟨parts, result, hg⟩ := h _ .star
    exact ⟨_, _, .star hg⟩
  | plus rule =>
    obtain ⟨parts, result, hg⟩ := h _ .plus
    by_cases ho : result.outcome = .matched
    · obtain ⟨rest, last, hn⟩ := h _ (.plusOn hg ho)
      exact ⟨_, _, .plusOn hg ho hn⟩
    · exact ⟨_, _, .plusStop hg ho⟩
  | opt rule =>
    cases he : cursor.atEnd setting.input with
    | true => exact settles_at_once (by simp only [atOnce?, step, he, if_true, Option.isSome_some])
    | false =>
      obtain ⟨parts, result, hg⟩ := h _ (.opt he)
      exact ⟨_, _, .opt he hg⟩
  | times rule n =>
    obtain ⟨parts, result, hg⟩ := h _ .times
    exact ⟨_, _, .times hg⟩
  | ahead rule =>
    obtain ⟨parts, result, hg⟩ := h _ .ahead
    exact ⟨_, _, .ahead hg⟩
  | notAhead rule =>
    obtain ⟨parts, result, hg⟩ := h _ .notAhead
    exact ⟨_, _, .notAhead hg⟩
  | untilPast rule =>
    obtain ⟨parts, result, hg⟩ := h _ .untilPast
    exact ⟨_, _, .untilPast hg⟩
  | mandatory rule =>
    obtain ⟨parts, result, hg⟩ := h _ .mandatory
    exact ⟨_, _, .mandatory hg⟩
  | recover rule =>
    obtain ⟨parts, result, hg⟩ := h _ .recover
    exact ⟨_, _, .recover hg⟩
  | store label rule =>
    cases hi : cursor.openNode? label with
    | none => exact settles_at_once (by simp only [atOnce?, step, hi, Option.isSome_some])
    | some inside =>
      obtain ⟨parts, result, hg⟩ := h _ (.store hi)
      exact ⟨_, _, .store hi hg⟩
  | ref i =>
    cases hi : setting.references i with
    | undefined | dropped =>
      exact settles_at_once (by simp only [atOnce?, step, hi, Option.isSome_some])
    | defined rule =>
      obtain ⟨parts, result, hg⟩ := h _ (.ref hi)
      exact ⟨_, _, .ref hi hg⟩
  | counted counter rule =>
    obtain ⟨parts, result, hg⟩ := h _ .counted
    exact ⟨_, _, .counted hg⟩

/-- A task goes to a result if all tasks that it begins do. -/
theorem settles_of_begun {task : Task U L M}
    (h : ∀ next, Begins setting (task, cursor) next → Settles setting next) :
    Settles setting (task, cursor) := by
  cases task with
  | rule rule => exact settles_rule h
  | each rules => exact settles_each h
  | first rules => exact settles_first h
  | greedy rule => exact settles_greedy h
  | scan rule start => exact settles_scan h

end

/-- The task does not begin tasks, which begin tasks themselves, for ever. -/
def Ends (setting : Setting U L) (start : Task U L M × Cursor T) : Prop :=
  Acc (fun later earlier => Begins setting earlier later) start

theorem Ends.settles {setting : Setting U L} {start : Task U L M × Cursor T}
    (h : Ends setting start) : Settles setting start := by
  induction h with
  | intro start _ ih => exact settles_of_begun ih

theorem Ends.returns {setting : Setting U L} {rule : Rule U L} {cursor : Cursor T}
    (h : Ends (M := M) setting (.rule rule, cursor)) :
    ∃ result : Result T L M, Returns setting rule cursor result := by
  obtain ⟨parts, result, hg⟩ := h.settles
  exact ⟨result, returns_iff_goes.2 ⟨parts, hg⟩⟩

end Peg.Matching
