import Peg.Matching.Bound
import Peg.Proofs.Reading

/-
  Courses: how a match went, with the matches of the parts of a rule in the order they were made.
  `Goes` says which course a rule takes at a cursor, one clause for each thing a rule or a loop can
  do. A match returns a result exactly if it goes some course to it (`returns_iff_goes`), so what
  holds of every course is proved by induction on `Goes`.
-/

namespace Peg.Matching

variable {U L T M : Type}

/-- How a match went: the rule, where it was tried, how its parts went, and what came of it. -/
structure Course (U L T M : Type) where
  rule : Rule U L
  cursor : Cursor T
  parts : List (Course U L T M)
  result : Result T L M

mutual

/-- The match itself and all matches it is made of, in the order in which they were begun. -/
def Course.attempts : Course U L T M → List (Course U L T M)
  | ⟨rule, cursor, parts, result⟩ => ⟨rule, cursor, parts, result⟩ :: attemptsIn parts

def attemptsIn : List (Course U L T M) → List (Course U L T M)
  | [] => []
  | course :: courses => course.attempts ++ attemptsIn courses

end

theorem attempts_eq (course : Course U L T M) :
    course.attempts = course :: attemptsIn course.parts := by
  cases course
  rw [Course.attempts]

theorem andThen_eq_some {result last : Result T L M} {next : Cursor T → Option (Result T L M)}
    (h : result.andThen next = some last) :
    (result.outcome ≠ .matched ∧ last = result) ∨ (result.outcome = .matched ∧
      ∃ more, next result.cursor = some more ∧ last = more.after result.events) := by
  unfold Result.andThen at h
  split at h
  · rename_i ho
    obtain ⟨more, hm, rfl⟩ := Option.map_eq_some_iff.1 h
    exact Or.inr ⟨ho, more, hm, rfl⟩
  · rename_i ho
    exact Or.inl ⟨ho, (Option.some.inj h).symm⟩

theorem orElse_eq_some {result last : Result T L M} {next : Cursor T → Option (Result T L M)}
    (h : result.orElse next = some last) :
    (result.outcome ≠ .unmatched ∧ last = result) ∨ (result.outcome = .unmatched ∧
      ∃ more, next result.cursor = some more ∧ last = more.after result.events) := by
  unfold Result.orElse at h
  split at h
  · rename_i ho
    obtain ⟨more, hm, rfl⟩ := Option.map_eq_some_iff.1 h
    exact Or.inr ⟨ho, more, hm, rfl⟩
  · rename_i ho
    exact Or.inl ⟨ho, (Option.some.inj h).symm⟩

theorem andThen_matched {result : Result T L M} (ho : result.outcome = .matched)
    (next : Cursor T → Option (Result T L M)) :
    result.andThen next = (next result.cursor).map (.after result.events) := by
  unfold Result.andThen
  rw [ho]

theorem andThen_of_ne {result : Result T L M} (ho : result.outcome ≠ .matched)
    (next : Cursor T → Option (Result T L M)) : result.andThen next = some result := by
  unfold Result.andThen
  split
  · contradiction
  · rfl

theorem orElse_unmatched {result : Result T L M} (ho : result.outcome = .unmatched)
    (next : Cursor T → Option (Result T L M)) :
    result.orElse next = (next result.cursor).map (.after result.events) := by
  unfold Result.orElse
  rw [ho]

theorem orElse_of_ne {result : Result T L M} (ho : result.outcome ≠ .unmatched)
    (next : Cursor T → Option (Result T L M)) : result.orElse next = some result := by
  unfold Result.orElse
  split
  · contradiction
  · rfl

/-- So many times in a row is in a row so many copies. -/
theorem matchTimes_eq (attempt : Attempt U L T M) (rule : Rule U L) (n : Nat) :
    matchTimes attempt rule n = matchEach attempt (List.replicate n rule) := by
  induction n with
  | zero => rfl
  | succ n ih =>
    funext cursor
    rw [matchTimes, ih]
    rfl

/-- What there is to match: a rule, or what a rule makes of its parts. -/
inductive Task (U L M : Type)
  | rule (rule : Rule U L)
  | each (rules : List (Rule U L))
  | first (rules : List (Rule U L))
  | greedy (rule : Rule U L)
  | scan (rule : Rule U L) (start : Position M)

variable [InputUnit U] [DecidableEq U] [NodeTree T L M] [DecidableEq M]

/-- What comes of a rule at a cursor if no part of it needs to be tried. -/
def atOnce? (setting : Setting U L) (rule : Rule U L) (cursor : Cursor T) :
    Option (Result T L M) :=
  match rule with
  | .seq _ | .or _ | .times _ _ => none
  | rule => step setting (fun _ _ => none) 0 rule cursor

/-- The task at the cursor goes through these parts, in order, to this result. -/
inductive Goes (setting : Setting U L) :
    Task U L M → Cursor T → List (Course U L T M) → Result T L M → Prop
  | done {rule cursor result} (h : atOnce? setting rule cursor = some result) :
      Goes setting (.rule rule) cursor [] result
  | seq {rules cursor parts result} (h : Goes setting (.each rules) cursor parts result) :
      Goes setting (.rule (.seq rules)) cursor parts (result.backTo cursor.position)
  | or {rules cursor parts result} (h : Goes setting (.first rules) cursor parts result) :
      Goes setting (.rule (.or rules)) cursor parts result
  | star {rule cursor parts result} (h : Goes setting (.greedy rule) cursor parts result) :
      Goes setting (.rule (.star rule)) cursor parts result
  | plusStop {rule cursor parts result} (h : Goes setting (.rule rule) cursor parts result)
      (ho : result.outcome ≠ .matched) :
      Goes setting (.rule (.plus rule)) cursor [⟨rule, cursor, parts, result⟩] result
  | plusOn {rule cursor parts result rest last} (h : Goes setting (.rule rule) cursor parts result)
      (ho : result.outcome = .matched) (hn : Goes setting (.greedy rule) result.cursor rest last) :
      Goes setting (.rule (.plus rule)) cursor (⟨rule, cursor, parts, result⟩ :: rest)
        (last.after result.events)
  | opt {rule cursor parts result} (he : cursor.atEnd setting.input = false)
      (h : Goes setting (.rule rule) cursor parts result) :
      Goes setting (.rule (.opt rule)) cursor [⟨rule, cursor, parts, result⟩] result.accept
  | times {rule n cursor parts result}
      (h : Goes setting (.each (List.replicate n rule)) cursor parts result) :
      Goes setting (.rule (.times rule n)) cursor parts (result.backTo cursor.position)
  | ahead {rule cursor parts result} (h : Goes setting (.rule rule) cursor parts result) :
      Goes setting (.rule (.ahead rule)) cursor [⟨rule, cursor, parts, result⟩]
        (result.lookFrom cursor.position)
  | notAhead {rule cursor parts result} (h : Goes setting (.rule rule) cursor parts result) :
      Goes setting (.rule (.notAhead rule)) cursor [⟨rule, cursor, parts, result⟩]
        (result.lookFrom cursor.position).negate
  | untilPast {rule cursor parts result}
      (h : Goes setting (.scan rule cursor.position) cursor parts result) :
      Goes setting (.rule (.untilPast rule)) cursor parts result
  | mandatory {rule cursor parts result} (h : Goes setting (.rule rule) cursor parts result) :
      Goes setting (.rule (.mandatory rule)) cursor [⟨rule, cursor, parts, result⟩] result.demand
  | recover {rule cursor parts result} (h : Goes setting (.rule rule) cursor parts result) :
      Goes setting (.rule (.recover rule)) cursor [⟨rule, cursor, parts, result⟩]
        (result.recoverTo cursor.position)
  | store {label rule cursor inside parts result} (hi : cursor.openNode? label = some inside)
      (h : Goes setting (.rule rule) inside parts result) :
      Goes setting (.rule (.store label rule)) cursor [⟨rule, inside, parts, result⟩]
        (result.closeNode setting.policy label)
  | ref {i rule cursor parts result} (hi : setting.references i = .defined rule)
      (h : Goes setting (.rule rule) cursor parts result) :
      Goes setting (.rule (.ref i)) cursor [⟨rule, cursor, parts, result⟩] result
  | counted {counter rule cursor parts result}
      (h : Goes setting (.rule rule) cursor parts result) :
      Goes setting (.rule (.counted counter rule)) cursor [⟨rule, cursor, parts, result⟩]
        (result.after [.tried counter])
  | eachNil {cursor} : Goes setting (.each []) cursor [] ⟨.matched, cursor, []⟩
  | eachStop {rule rules cursor parts result} (h : Goes setting (.rule rule) cursor parts result)
      (ho : result.outcome ≠ .matched) :
      Goes setting (.each (rule :: rules)) cursor [⟨rule, cursor, parts, result⟩] result
  | eachOn {rule rules cursor parts result rest last}
      (h : Goes setting (.rule rule) cursor parts result) (ho : result.outcome = .matched)
      (hn : Goes setting (.each rules) result.cursor rest last) :
      Goes setting (.each (rule :: rules)) cursor (⟨rule, cursor, parts, result⟩ :: rest)
        (last.after result.events)
  | firstNil {cursor} : Goes setting (.first []) cursor [] ⟨.unmatched, cursor, []⟩
  | firstStop {rule rules cursor parts result} (h : Goes setting (.rule rule) cursor parts result)
      (ho : result.outcome ≠ .unmatched) :
      Goes setting (.first (rule :: rules)) cursor [⟨rule, cursor, parts, result⟩] result
  | firstOn {rule rules cursor parts result rest last}
      (h : Goes setting (.rule rule) cursor parts result) (ho : result.outcome = .unmatched)
      (hn : Goes setting (.first rules) result.cursor rest last) :
      Goes setting (.first (rule :: rules)) cursor (⟨rule, cursor, parts, result⟩ :: rest)
        (last.after result.events)
  | greedyEnd {rule cursor} (he : cursor.atEnd setting.input = true) :
      Goes setting (.greedy rule) cursor [] ⟨.matched, cursor, []⟩
  | greedyStop {rule cursor parts result} (he : cursor.atEnd setting.input = false)
      (h : Goes setting (.rule rule) cursor parts result) (ho : result.outcome ≠ .matched) :
      Goes setting (.greedy rule) cursor [⟨rule, cursor, parts, result⟩] result.accept
  | greedyStill {rule cursor parts result} (he : cursor.atEnd setting.input = false)
      (h : Goes setting (.rule rule) cursor parts result) (ho : result.outcome = .matched)
      (hp : setting.policy.progressed cursor.position result.cursor = false) :
      Goes setting (.greedy rule) cursor [⟨rule, cursor, parts, result⟩] result
  | greedyOn {rule cursor parts result rest last} (he : cursor.atEnd setting.input = false)
      (h : Goes setting (.rule rule) cursor parts result) (ho : result.outcome = .matched)
      (hp : setting.policy.progressed cursor.position result.cursor = true)
      (hn : Goes setting (.greedy rule) result.cursor rest last) :
      Goes setting (.greedy rule) cursor (⟨rule, cursor, parts, result⟩ :: rest)
        (last.after result.events)
  | scanStop {rule start cursor parts result} (h : Goes setting (.rule rule) cursor parts result)
      (ho : result.outcome ≠ .unmatched) :
      Goes setting (.scan rule start) cursor [⟨rule, cursor, parts, result⟩] result
  | scanEnd {rule start cursor parts result} (h : Goes setting (.rule rule) cursor parts result)
      (ho : result.outcome = .unmatched)
      (he : (result.cursor.advance setting.input).atEnd setting.input = true) :
      Goes setting (.scan rule start) cursor [⟨rule, cursor, parts, result⟩]
        ⟨.unmatched, (result.cursor.advance setting.input).moveTo start, result.events⟩
  | scanOn {rule start cursor parts result rest last}
      (h : Goes setting (.rule rule) cursor parts result) (ho : result.outcome = .unmatched)
      (he : (result.cursor.advance setting.input).atEnd setting.input = false)
      (hn : Goes setting (.scan rule start) (result.cursor.advance setting.input) rest last) :
      Goes setting (.scan rule start) cursor (⟨rule, cursor, parts, result⟩ :: rest)
        (last.after result.events)

/-- With no part tried, a rule goes on over the input, or stays where it is and does not match, or
finds no room. -/
theorem done_cases {setting : Setting U L} {rule : Rule U L} {cursor : Cursor T}
    {result : Result T L M} (h : atOnce? setting rule cursor = some result) :
    (∃ offset ≥ cursor.offset, result = ⟨.matched, ⟨offset, cursor.tree⟩, []⟩) ∨
      (∃ events, result = ⟨.unmatched, cursor, events⟩) ∨
      result = ⟨.unmatched, cursor.moveTo cursor.position, []⟩ ∨
      result = ⟨.failed .exhausted, cursor, []⟩ := by
  have stay : ∃ offset ≥ cursor.offset, (⟨.matched, cursor, []⟩ : Result T L M) =
      ⟨.matched, ⟨offset, cursor.tree⟩, []⟩ := ⟨cursor.offset, Nat.le_refl _, rfl⟩
  cases rule with
  | unit p =>
    simp only [atOnce?, step] at h
    split at h <;> cases h
    · rename_i hn
      obtain ⟨u, -, -, rfl⟩ := (Cursor.take?_eq_some_iff _).1 hn
      exact Or.inl ⟨_, Nat.le_add_right _ _, rfl⟩
    · exact Or.inr (Or.inl ⟨_, rfl⟩)
  | units us =>
    simp only [atOnce?, step] at h
    split at h <;> cases h
    · rename_i hn
      obtain ⟨-, rfl⟩ := (Cursor.takeAll?_eq_some_iff _).1 hn
      exact Or.inl ⟨_, Nat.le_add_right _ _, rfl⟩
    · exact Or.inr (Or.inr (Or.inl rfl))
  | atEnd =>
    cases h
    split
    · exact Or.inl stay
    · exact Or.inr (Or.inl ⟨_, rfl⟩)
  | succeed =>
    cases h
    exact Or.inl stay
  | fail =>
    cases h
    exact Or.inr (Or.inl ⟨_, rfl⟩)
  | exhaust =>
    cases h
    exact Or.inr (Or.inr (Or.inr rfl))
  | opt rule =>
    simp only [atOnce?, step] at h
    split at h <;> cases h
    exact Or.inl stay
  | store label rule =>
    simp only [atOnce?, step] at h
    split at h <;> cases h
    exact Or.inr (Or.inr (Or.inr rfl))
  | ref i =>
    simp only [atOnce?, step] at h
    split at h <;> cases h
    · exact Or.inr (Or.inl ⟨_, rfl⟩)
    · exact Or.inr (Or.inl ⟨_, rfl⟩)
  | seq | or | star | plus | times | ahead | notAhead | untilPast | mandatory | recover
  | counted => cases h

/-! ## Every result is gone to -/

section Parts

variable {setting : Setting U L} {attempt : Attempt U L T M}
  (ha : ∀ rule cursor result, attempt rule cursor = some result →
    ∃ parts, Goes setting (.rule rule) cursor parts result)
include ha

theorem matchEach_goes (rules : List (Rule U L)) {cursor : Cursor T} {last : Result T L M}
    (h : matchEach attempt rules cursor = some last) :
    ∃ parts, Goes setting (.each rules) cursor parts last := by
  induction rules generalizing cursor last with
  | nil =>
    cases h
    exact ⟨[], .eachNil⟩
  | cons rule rules ih =>
    obtain ⟨result, hr, hn⟩ := Option.bind_eq_some_iff.1 h
    obtain ⟨parts, hg⟩ := ha _ _ _ hr
    rcases andThen_eq_some hn with ⟨ho, rfl⟩ | ⟨ho, more, hm, rfl⟩
    · exact ⟨_, .eachStop hg ho⟩
    · obtain ⟨rest, hm⟩ := ih hm
      exact ⟨_, .eachOn hg ho hm⟩

theorem matchFirst_goes (rules : List (Rule U L)) {cursor : Cursor T} {last : Result T L M}
    (h : matchFirst attempt rules cursor = some last) :
    ∃ parts, Goes setting (.first rules) cursor parts last := by
  induction rules generalizing cursor last with
  | nil =>
    cases h
    exact ⟨[], .firstNil⟩
  | cons rule rules ih =>
    obtain ⟨result, hr, hn⟩ := Option.bind_eq_some_iff.1 h
    obtain ⟨parts, hg⟩ := ha _ _ _ hr
    rcases orElse_eq_some hn with ⟨ho, rfl⟩ | ⟨ho, more, hm, rfl⟩
    · exact ⟨_, .firstStop hg ho⟩
    · obtain ⟨rest, hm⟩ := ih hm
      exact ⟨_, .firstOn hg ho hm⟩

theorem greedy_goes (rule : Rule U L) (rounds : Nat) {cursor : Cursor T} {last : Result T L M}
    (h : greedy attempt setting rule rounds cursor = some last) :
    ∃ parts, Goes setting (.greedy rule) cursor parts last := by
  induction rounds generalizing cursor last with
  | zero => cases h
  | succ rounds ih =>
    unfold greedy at h
    by_cases he : cursor.atEnd setting.input = true
    · rw [if_pos he] at h
      cases h
      exact ⟨[], .greedyEnd he⟩
    · rw [if_neg he] at h
      have he : cursor.atEnd setting.input = false := by simpa using he
      obtain ⟨result, hr, hn⟩ := Option.bind_eq_some_iff.1 h
      obtain ⟨parts, hg⟩ := ha _ _ _ hr
      split at hn
      · rename_i ho
        by_cases hp : setting.policy.progressed cursor.position result.cursor = true
        · rw [if_pos hp] at hn
          obtain ⟨more, hm, rfl⟩ := Option.map_eq_some_iff.1 hn
          obtain ⟨rest, hm⟩ := ih hm
          exact ⟨_, .greedyOn he hg ho hp hm⟩
        · rw [if_neg hp] at hn
          cases hn
          exact ⟨_, .greedyStill he hg ho (by simpa using hp)⟩
      · rename_i ho
        cases hn
        exact ⟨_, .greedyStop he hg ho⟩

theorem scan_goes (rule : Rule U L) (start : Position M) (rounds : Nat) {cursor : Cursor T}
    {last : Result T L M} (h : scan attempt setting rule start rounds cursor = some last) :
    ∃ parts, Goes setting (.scan rule start) cursor parts last := by
  induction rounds generalizing cursor last with
  | zero => cases h
  | succ rounds ih =>
    obtain ⟨result, hr, hn⟩ := Option.bind_eq_some_iff.1 h
    obtain ⟨parts, hg⟩ := ha _ _ _ hr
    rcases orElse_eq_some hn with ⟨ho, rfl⟩ | ⟨ho, more, hm, rfl⟩
    · exact ⟨_, .scanStop hg ho⟩
    · by_cases he : (result.cursor.advance setting.input).atEnd setting.input = true
      · dsimp only at hm
        rw [if_pos he] at hm
        cases hm
        refine ⟨[⟨rule, cursor, parts, result⟩], ?_⟩
        unfold Result.after
        rw [List.append_nil]
        exact .scanEnd hg ho he
      · dsimp only at hm
        rw [if_neg he] at hm
        obtain ⟨rest, hm⟩ := ih hm
        exact ⟨_, .scanOn hg ho (by simpa using he) hm⟩

theorem step_goes (rounds : Nat) (rule : Rule U L) {cursor : Cursor T} {last : Result T L M}
    (h : step setting attempt rounds rule cursor = some last) :
    ∃ parts, Goes setting (.rule rule) cursor parts last := by
  cases rule with
  | unit | units | atEnd | succeed | fail | exhaust => exact ⟨[], .done h⟩
  | seq rules =>
    obtain ⟨result, hr, rfl⟩ := Option.map_eq_some_iff.1 h
    obtain ⟨parts, hg⟩ := matchEach_goes ha rules hr
    exact ⟨_, .seq hg⟩
  | or rules =>
    obtain ⟨parts, hg⟩ := matchFirst_goes ha rules h
    exact ⟨_, .or hg⟩
  | star rule =>
    obtain ⟨parts, hg⟩ := greedy_goes ha rule rounds h
    exact ⟨_, .star hg⟩
  | plus rule =>
    obtain ⟨result, hr, hn⟩ := Option.bind_eq_some_iff.1 h
    obtain ⟨parts, hg⟩ := ha _ _ _ hr
    rcases andThen_eq_some hn with ⟨ho, rfl⟩ | ⟨ho, more, hm, rfl⟩
    · exact ⟨_, .plusStop hg ho⟩
    · obtain ⟨rest, hm⟩ := greedy_goes ha rule rounds hm
      exact ⟨_, .plusOn hg ho hm⟩
  | opt rule =>
    by_cases he : cursor.atEnd setting.input = true
    · refine ⟨[], .done ?_⟩
      simpa only [atOnce?, step, if_pos he] using h
    · simp only [step, if_neg he] at h
      obtain ⟨result, hr, rfl⟩ := Option.map_eq_some_iff.1 h
      obtain ⟨parts, hg⟩ := ha _ _ _ hr
      exact ⟨_, .opt (by simpa using he) hg⟩
  | times rule n =>
    obtain ⟨result, hr, rfl⟩ := Option.map_eq_some_iff.1 h
    rw [matchTimes_eq] at hr
    obtain ⟨parts, hg⟩ := matchEach_goes ha _ hr
    exact ⟨_, .times hg⟩
  | ahead rule =>
    obtain ⟨result, hr, rfl⟩ := Option.map_eq_some_iff.1 h
    obtain ⟨parts, hg⟩ := ha _ _ _ hr
    exact ⟨_, .ahead hg⟩
  | notAhead rule =>
    obtain ⟨result, hr, rfl⟩ := Option.map_eq_some_iff.1 h
    obtain ⟨parts, hg⟩ := ha _ _ _ hr
    exact ⟨_, .notAhead hg⟩
  | untilPast rule =>
    obtain ⟨parts, hg⟩ := scan_goes ha rule _ rounds h
    exact ⟨_, .untilPast hg⟩
  | mandatory rule =>
    obtain ⟨result, hr, rfl⟩ := Option.map_eq_some_iff.1 h
    obtain ⟨parts, hg⟩ := ha _ _ _ hr
    exact ⟨_, .mandatory hg⟩
  | recover rule =>
    obtain ⟨result, hr, rfl⟩ := Option.map_eq_some_iff.1 h
    obtain ⟨parts, hg⟩ := ha _ _ _ hr
    exact ⟨_, .recover hg⟩
  | store label rule =>
    cases hi : cursor.openNode? label with
    | none =>
      refine ⟨[], .done ?_⟩
      simpa only [atOnce?, step, hi] using h
    | some inside =>
      simp only [step, hi] at h
      obtain ⟨result, hr, rfl⟩ := Option.map_eq_some_iff.1 h
      obtain ⟨parts, hg⟩ := ha _ _ _ hr
      exact ⟨_, .store hi hg⟩
  | ref i =>
    cases hi : setting.references i with
    | undefined | dropped =>
      refine ⟨[], .done ?_⟩
      simpa only [atOnce?, step, hi] using h
    | defined rule =>
      simp only [step, hi] at h
      obtain ⟨parts, hg⟩ := ha _ _ _ h
      exact ⟨_, .ref hi hg⟩
  | counted counter rule =>
    obtain ⟨result, hr, rfl⟩ := Option.map_eq_some_iff.1 h
    obtain ⟨parts, hg⟩ := ha _ _ _ hr
    exact ⟨_, .counted hg⟩

end Parts

theorem run_goes (setting : Setting U L) (bound : Nat) (rule : Rule U L) (cursor : Cursor T)
    (result : Result T L M) (h : run setting bound rule cursor = some result) :
    ∃ parts, Goes setting (.rule rule) cursor parts result := by
  induction bound generalizing rule cursor result with
  | zero => cases h
  | succ bound ih => exact step_goes ih bound rule h

/-! ## Whatever is gone to is a result -/

/-- The result of a task where both depth and rounds are bounded alike. -/
def eval (setting : Setting U L) (bound : Nat) :
    Task U L M → Cursor T → Option (Result T L M)
  | .rule r => run setting bound r
  | .each rs => matchEach (run setting bound) rs
  | .first rs => matchFirst (run setting bound) rs
  | .greedy r => greedy (run setting bound) setting r bound
  | .scan r start => scan (run setting bound) setting r start bound

theorem eval_mono {setting : Setting U L} {n m : Nat} (hnm : n ≤ m) {task : Task U L M}
    {cursor : Cursor T} {result : Result T L M} (h : eval setting n task cursor = some result) :
    eval setting m task cursor = some result := by
  have hr := run_mono (T := T) (M := M) setting hnm
  cases task with
  | rule rule => exact hr _ _ _ h
  | each rules => exact matchEach_mono hr rules h
  | first rules => exact matchFirst_mono hr rules h
  | greedy rule => exact greedy_mono hr setting rule hnm h
  | scan rule start => exact scan_mono hr setting rule start hnm h

/-- Two tasks that have results have them under one bound. -/
theorem eval_common {setting : Setting U L} {task task' : Task U L M} {cursor cursor' : Cursor T}
    {result result' : Result T L M} (h : ∃ n, eval setting n task cursor = some result)
    (h' : ∃ n, eval setting n task' cursor' = some result') :
    ∃ n, eval setting n task cursor = some result ∧ eval setting n task' cursor' = some result' := by
  obtain ⟨n, h⟩ := h
  obtain ⟨m, h'⟩ := h'
  exact ⟨max n m, eval_mono (Nat.le_max_left n m) h, eval_mono (Nat.le_max_right n m) h'⟩

/-- A bound is never zero for want of a smaller one. -/
theorem eval_succ {setting : Setting U L} {task : Task U L M} {cursor : Cursor T}
    {result : Result T L M} (h : ∃ n, eval setting n task cursor = some result) :
    ∃ n, eval setting (n + 1) task cursor = some result := by
  obtain ⟨n, h⟩ := h
  exact ⟨n, eval_mono (Nat.le_succ n) h⟩

theorem eval_greedy_succ {setting : Setting U L} {rule : Rule U L} {n : Nat} {cursor : Cursor T}
    (he : cursor.atEnd setting.input = false) :
    eval (M := M) setting (n + 1) (.greedy rule) cursor =
      (run setting (n + 1) rule cursor).bind fun result =>
        match result.outcome with
        | .matched =>
          if setting.policy.progressed cursor.position result.cursor then
            (greedy (run setting (n + 1)) setting rule n result.cursor).map (.after result.events)
          else some result
        | _ => some result.accept :=
  if_neg (ne_true_of_eq_false he)

theorem step_of_atOnce? {setting : Setting U L} {rule : Rule U L} {cursor : Cursor T}
    {result : Result T L M} (h : atOnce? setting rule cursor = some result) :
    step setting (fun _ _ => none) 0 rule cursor = some result := by
  cases rule with
  | seq | or | times => cases h
  | _ => exact h

theorem goes_eval {setting : Setting U L} {task : Task U L M} {cursor : Cursor T}
    {parts : List (Course U L T M)} {result : Result T L M}
    (h : Goes setting task cursor parts result) : ∃ n, eval setting n task cursor = some result := by
  induction h with
  | done h => exact ⟨1, step_of_atOnce? h⟩
  | seq _ ih =>
    obtain ⟨n, ih⟩ := ih
    exact ⟨n + 1, Option.map_eq_some_iff.2 ⟨_, ih, rfl⟩⟩
  | times _ ih =>
    obtain ⟨n, ih⟩ := ih
    refine ⟨n + 1, Option.map_eq_some_iff.2 ⟨_, ?_, rfl⟩⟩
    rw [matchTimes_eq]
    exact ih
  | or _ ih | star _ ih | untilPast _ ih =>
    obtain ⟨n, ih⟩ := ih
    exact ⟨n + 1, ih⟩
  | plusStop _ ho ih =>
    obtain ⟨n, ih⟩ := ih
    exact ⟨n + 1, Option.bind_eq_some_iff.2 ⟨_, ih, andThen_of_ne ho _⟩⟩
  | plusOn _ ho _ ih ihn =>
    obtain ⟨n, ih, ihn⟩ := eval_common ih ihn
    refine ⟨n + 1, Option.bind_eq_some_iff.2 ⟨_, ih, ?_⟩⟩
    rw [andThen_matched ho]
    exact Option.map_eq_some_iff.2 ⟨_, ihn, rfl⟩
  | opt he _ ih =>
    obtain ⟨n, ih⟩ := ih
    refine ⟨n + 1, ?_⟩
    simp only [eval, run, step, he, Bool.false_eq_true, if_false]
    exact Option.map_eq_some_iff.2 ⟨_, ih, rfl⟩
  | ahead _ ih | notAhead _ ih | mandatory _ ih | recover _ ih | counted _ ih =>
    obtain ⟨n, ih⟩ := ih
    exact ⟨n + 1, Option.map_eq_some_iff.2 ⟨_, ih, rfl⟩⟩
  | store hi _ ih =>
    obtain ⟨n, ih⟩ := ih
    refine ⟨n + 1, ?_⟩
    simp only [eval, run, step, hi]
    exact Option.map_eq_some_iff.2 ⟨_, ih, rfl⟩
  | ref hi _ ih =>
    obtain ⟨n, ih⟩ := ih
    refine ⟨n + 1, ?_⟩
    simp only [eval, run, step, hi]
    exact ih
  | eachNil | firstNil => exact ⟨0, rfl⟩
  | eachStop _ ho ih =>
    obtain ⟨n, ih⟩ := ih
    exact ⟨n, Option.bind_eq_some_iff.2 ⟨_, ih, andThen_of_ne ho _⟩⟩
  | eachOn _ ho _ ih ihn =>
    obtain ⟨n, ih, ihn⟩ := eval_common ih ihn
    refine ⟨n, Option.bind_eq_some_iff.2 ⟨_, ih, ?_⟩⟩
    rw [andThen_matched ho]
    exact Option.map_eq_some_iff.2 ⟨_, ihn, rfl⟩
  | firstStop _ ho ih =>
    obtain ⟨n, ih⟩ := ih
    exact ⟨n, Option.bind_eq_some_iff.2 ⟨_, ih, orElse_of_ne ho _⟩⟩
  | firstOn _ ho _ ih ihn =>
    obtain ⟨n, ih, ihn⟩ := eval_common ih ihn
    refine ⟨n, Option.bind_eq_some_iff.2 ⟨_, ih, ?_⟩⟩
    rw [orElse_unmatched ho]
    exact Option.map_eq_some_iff.2 ⟨_, ihn, rfl⟩
  | greedyEnd he =>
    refine ⟨1, ?_⟩
    simp only [eval, greedy, he, if_true]
  | greedyStop he _ ho ih =>
    obtain ⟨n, ih⟩ := eval_succ ih
    refine ⟨n + 1, ?_⟩
    rw [eval_greedy_succ he]
    refine Option.bind_eq_some_iff.2 ⟨_, ih, ?_⟩
    split
    · contradiction
    · rfl
  | greedyStill he _ ho hp ih =>
    obtain ⟨n, ih⟩ := eval_succ ih
    refine ⟨n + 1, ?_⟩
    rw [eval_greedy_succ he]
    refine Option.bind_eq_some_iff.2 ⟨_, ih, ?_⟩
    simp only [ho, hp, Bool.false_eq_true, if_false]
  | greedyOn he _ ho hp _ ih ihn =>
    obtain ⟨n, ih, ihn⟩ := eval_common ih ihn
    refine ⟨n + 1, ?_⟩
    rw [eval_greedy_succ he]
    refine Option.bind_eq_some_iff.2 ⟨_, eval_mono (Nat.le_succ n) ih, ?_⟩
    have hm := greedy_mono (run_mono setting (Nat.le_succ n)) setting _ (Nat.le_refl n) ihn
    simp only [ho, hp, if_true]
    exact Option.map_eq_some_iff.2 ⟨_, hm, rfl⟩
  | scanStop _ ho ih =>
    obtain ⟨n, ih⟩ := eval_succ ih
    exact ⟨n + 1, Option.bind_eq_some_iff.2 ⟨_, ih, orElse_of_ne ho _⟩⟩
  | scanEnd _ ho he ih =>
    obtain ⟨n, ih⟩ := eval_succ ih
    refine ⟨n + 1, Option.bind_eq_some_iff.2 ⟨_, ih, ?_⟩⟩
    rw [orElse_unmatched ho]
    simp only [he, if_true, Option.map_some, Result.after, List.append_nil]
  | scanOn _ ho he _ ih ihn =>
    obtain ⟨n, ih, ihn⟩ := eval_common ih ihn
    refine ⟨n + 1, Option.bind_eq_some_iff.2 ⟨_, eval_mono (Nat.le_succ n) ih, ?_⟩⟩
    have hm := scan_mono (run_mono setting (Nat.le_succ n)) setting _ _ (Nat.le_refl n) ihn
    rw [orElse_unmatched ho]
    simp only [he, Bool.false_eq_true, if_false]
    exact Option.map_eq_some_iff.2 ⟨_, hm, rfl⟩

/-- A match returns a result exactly if it goes some course to it. -/
theorem returns_iff_goes {setting : Setting U L} {rule : Rule U L} {cursor : Cursor T}
    {result : Result T L M} : Returns setting rule cursor result ↔
      ∃ parts, Goes setting (.rule rule) cursor parts result := by
  constructor
  · intro ⟨bound, h⟩
    exact run_goes setting bound rule cursor result h
  · intro ⟨parts, h⟩
    exact goes_eval h

end Peg.Matching
