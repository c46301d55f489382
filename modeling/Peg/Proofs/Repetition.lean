import Mathlib.Logic.Relation
import Peg.Proofs.Adequacy
import Peg.Proofs.HardFailure
import Peg.Proofs.Trace
import Peg.Proofs.Transparency

/-
  Repetition: how often a rule is tried, and where that ends. A loop goes on only past an attempt
  that matched and ended further on, so of its attempts only the last can have matched nothing
  (`star_guarded`). One or more makes an attempt before its loop, which can match nothing as well
  (`plus_guards_after_first`). Where a loop leaves off there is no more of the rule to be had: as a
  match heeds no nodes, what the last attempt recorded changes nothing (`star_takes_all`).
-/

namespace Peg.Matching

open Relation

section

variable {U L T M : Type}

/-! ## The attempts of a loop -/

namespace Course

/-- The attempt matched. -/
def Succeeds (attempt : Course U L T M) : Prop := attempt.result.outcome = .matched

/-- The attempt ended further on than it began. -/
def Consumes (attempt : Course U L T M) : Prop :=
  attempt.cursor.offset < attempt.result.cursor.offset

/-- The attempt matched and ended where it began. -/
def Idles (attempt : Course U L T M) : Prop :=
  attempt.Succeeds ∧ attempt.result.cursor.offset = attempt.cursor.offset

instance [DecidableEq M] (attempt : Course U L T M) : Decidable attempt.Idles :=
  inferInstanceAs (Decidable (attempt.result.outcome = .matched ∧ _ = _))

end Course

/-- Of the attempts that matched, all but the last consumed input. -/
def AllButLastConsume (attempts : List (Course U L T M)) : Prop :=
  attempts.Pairwise fun attempt later => attempt.Succeeds → later.Succeeds → attempt.Consumes

/-- The attempts are of the rule, and one that matched and consumed nothing ended them. -/
structure Guarded [DecidableEq M] (rule : Rule U L) (attempts : List (Course U L T M)) : Prop where
  rule_eq : ∀ attempt ∈ attempts, attempt.rule = rule
  consume : AllButLastConsume attempts
  idles_le : attempts.countP (fun attempt => attempt.Idles) ≤ 1

theorem allButLastConsume_cons {attempt : Course U L T M} {attempts : List (Course U L T M)}
    (hm : attempt.Succeeds) : AllButLastConsume (attempt :: attempts) ↔
      (attempt.Consumes ∨ ∀ later ∈ attempts, ¬ later.Succeeds) ∧ AllButLastConsume attempts := by
  unfold AllButLastConsume
  rw [List.pairwise_cons]
  refine and_congr_left fun _ => ⟨fun h => ?_, fun h later hl _ hs => ?_⟩
  · by_cases hc : attempt.Consumes
    · exact Or.inl hc
    · exact Or.inr fun later hl hs => hc (h later hl hm hs)
  · exact h.resolve_right fun hn => hn later hl hs

namespace Guarded

variable [DecidableEq M] {rule : Rule U L} {attempt : Course U L T M}
  {attempts : List (Course U L T M)}

theorem nil : Guarded rule ([] : List (Course U L T M)) :=
  ⟨nofun, List.Pairwise.nil, Nat.zero_le _⟩

/-- Whatever comes of the last attempt. -/
theorem last (hr : attempt.rule = rule) : Guarded rule [attempt] :=
  ⟨by simpa using hr, List.pairwise_singleton _ _, List.countP_le_length⟩

/-- After an attempt that consumed something. -/
theorem cons (hr : attempt.rule = rule) (hc : attempt.Consumes) (h : Guarded rule attempts) :
    Guarded rule (attempt :: attempts) := by
  have hi : ¬ attempt.Idles := fun hi => Nat.ne_of_gt hc hi.2
  have hall : AllButLastConsume (attempt :: attempts) :=
    List.pairwise_cons.2 ⟨fun _ _ _ _ => hc, h.consume⟩
  refine ⟨List.forall_mem_cons.2 ⟨hr, h.rule_eq⟩, hall, ?_⟩
  rw [List.countP_cons_of_neg (by simpa using hi)]
  exact h.idles_le

end Guarded

variable [InputUnit U] [DecidableEq U] [NodeTree T L M] [DecidableEq M] {setting : Setting U L}
  {rule : Rule U L} {cursor : Cursor T} {parts : List (Course U L T M)} {result : Result T L M}

/-- What counts as progress is to have gone on, for a match never goes back. -/
theorem lt_of_progressed (hp : setting.policy.nodesAreProgress = false)
    (h : Goes setting (.rule rule) cursor parts result)
    (hs : setting.policy.progressed cursor.position result.cursor = true) :
    cursor.offset < result.cursor.offset :=
  Nat.lt_of_le_of_ne (goes_forward h) ((Policy.progressed_iff hp).1 hs).symm

theorem greedy_guarded (hp : setting.policy.nodesAreProgress = false)
    (h : Goes setting (.greedy rule) cursor parts result) : Guarded rule parts := by
  generalize ht : Task.greedy rule = task at h
  induction h with
  | greedyEnd => exact .nil
  | greedyStop | greedyStill =>
    cases ht
    exact .last rfl
  | greedyOn _ h _ hs _ _ ihn =>
    cases ht
    exact .cons rfl (lt_of_progressed hp h hs) (ihn rfl)
  | _ => cases ht

/-- All attempts of zero or more are those of its loop. -/
theorem star_guarded {input : Input U} {references : Nat → Reference U L}
    (h : Returns ⟨input, references, .text⟩ (.star rule) cursor result) :
    ∃ course, Course.Traces ⟨input, references, .text⟩ (.star rule) cursor result course ∧
      Guarded rule course.parts := by
  obtain ⟨parts, hg⟩ := returns_iff_goes.1 h
  refine ⟨_, hg.traces, ?_⟩
  cases hg with
  | done h => cases h
  | star hg => exact greedy_guarded rfl hg

theorem plus_attempts (hp : setting.policy.nodesAreProgress = false)
    (h : Goes setting (.rule (.plus rule)) cursor parts result) (ho : result.outcome = .matched) :
    ∃ first rest, parts = first :: rest ∧ first.rule = rule ∧ first.cursor = cursor ∧
      first.Succeeds ∧ Guarded rule rest := by
  cases h with
  | done h => cases h
  | plusStop _ hn => exact absurd ho hn
  | plusOn _ hm hn => exact ⟨_, _, rfl, rfl, rfl, hm, greedy_guarded hp hn⟩

/-- One or more matches the rule once, whether that consumes anything or not, and what is tried from
there is guarded. So of the attempts that matched, those that consumed nothing are among the first
and the last, and both can be such. -/
theorem plus_guards_after_first {input : Input U} {references : Nat → Reference U L}
    (h : Returns ⟨input, references, .text⟩ (.plus rule) cursor result)
    (ho : result.outcome = .matched) :
    ∃ course, Course.Traces ⟨input, references, .text⟩ (.plus rule) cursor result course ∧
      ∃ first rest, course.parts = first :: rest ∧ first.rule = rule ∧ first.cursor = cursor ∧
        first.Succeeds ∧ Guarded rule rest ∧
        course.parts.countP (fun attempt => attempt.Idles) ≤ 2 ∧
        (AllButLastConsume course.parts ↔
          first.Consumes ∨ ∀ later ∈ rest, ¬ later.Succeeds) := by
  obtain ⟨parts, hg⟩ := returns_iff_goes.1 h
  obtain ⟨first, rest, rfl, hrule, hcursor, hm, hrest⟩ := plus_attempts rfl hg ho
  have hlaw : AllButLastConsume (first :: rest) ↔
      first.Consumes ∨ ∀ later ∈ rest, ¬ later.Succeeds := by
    rw [allButLastConsume_cons hm, and_iff_left hrest.consume]
  refine ⟨_, hg.traces, first, rest, rfl, hrule, hcursor, hm, hrest, ?_, hlaw⟩
  have hle := hrest.idles_le
  rw [List.countP_cons]
  split <;> omega

/-- A digit, and then nothing at a letter: only the last attempt matched nothing. -/
theorem plus_guards_after_first_digits :
    let setting : Setting Char Sample.Label := ⟨.ofList ['1', 'b'], fun _ => .undefined, .text⟩
    let rule : Rule Char Sample.Label := .store .number (.opt .digit)
    let cursor : Cursor (TrailTree Sample.Label) := .start .empty
    ∃ result course, Course.Traces setting (.plus rule) cursor result course ∧
      result.outcome = .matched ∧
      result.cursor.tree.arena.toList = [⟨.number, 0, 1, none⟩, ⟨.number, 1, 1, none⟩] ∧
      ∃ first rest, course.parts = first :: rest ∧ first.Succeeds ∧ Guarded rule rest := by
  intro setting rule cursor
  have h : (run setting 6 (.plus rule) cursor).map (fun result =>
      (result.outcome, result.cursor.tree.arena.toList)) =
      some (.matched, [⟨.number, 0, 1, none⟩, ⟨.number, 1, 1, none⟩]) := by decide +kernel
  obtain ⟨result, hrun, heq⟩ := Option.map_eq_some_iff.1 h
  obtain ⟨ho, hnodes⟩ := Prod.mk.inj heq
  obtain ⟨course, ht, first, rest, hparts, -, -, hm, hrest, -⟩ :=
    plus_guards_after_first ⟨6, hrun⟩ ho
  exact ⟨result, course, ht, ho, hnodes, first, rest, hparts, hm, hrest⟩

/-- What can match nothing is stored twice where it does: not only the last attempt consumed
nothing. -/
theorem plus_stores_nothing_twice :
    let setting : Setting Char Sample.Label := ⟨.ofList ['a', 'b'], fun _ => .undefined, .text⟩
    let rule : Rule Char Sample.Label := .store .number (.opt (.is 'x'))
    let cursor : Cursor (TrailTree Sample.Label) := .start .empty
    ∃ result course, Course.Traces setting (.plus rule) cursor result course ∧
      result.outcome = .matched ∧ result.cursor.offset = 0 ∧
      result.cursor.tree.arena.toList = [⟨.number, 0, 0, none⟩, ⟨.number, 0, 0, none⟩] ∧
      course.parts.countP (fun attempt => attempt.Idles) = 2 ∧
      ¬ AllButLastConsume course.parts := by
  intro setting rule cursor
  let middle : Cursor (TrailTree Sample.Label) := ⟨0, ⟨⟨#[⟨.number, 0, 0, none⟩], none⟩, []⟩⟩
  let last : Cursor (TrailTree Sample.Label) :=
    ⟨0, ⟨⟨#[⟨.number, 0, 0, none⟩, ⟨.number, 0, 0, none⟩], none⟩, []⟩⟩
  have matches_to {before after : Cursor (TrailTree Sample.Label)}
      (h : (run setting 5 rule before).map (fun result => (result.outcome, result.cursor)) =
        some (.matched, after)) :
      ∃ parts events, Goes setting (.rule rule) before parts ⟨.matched, after, events⟩ := by
    obtain ⟨⟨_, _, events⟩, hrun, heq⟩ := Option.map_eq_some_iff.1 h
    cases heq
    obtain ⟨parts, hg⟩ := returns_iff_goes.1 ⟨5, hrun⟩
    exact ⟨parts, events, hg⟩
  have hfirst : (run setting 5 rule cursor).map (fun result => (result.outcome, result.cursor)) =
      some (.matched, middle) := by decide +kernel
  have hlast : (run setting 5 rule middle).map (fun result => (result.outcome, result.cursor)) =
      some (.matched, last) := by decide +kernel
  obtain ⟨_, _, hg⟩ := matches_to hfirst
  obtain ⟨_, _, hgl⟩ := matches_to hlast
  -- The first attempt went on into the loop, which asks for progress only after the second.
  have hplus := Goes.plusOn hg rfl (.greedyStill rfl hgl rfl rfl)
  refine ⟨_, _, hplus.traces, rfl, rfl, rfl, rfl, ?_⟩
  intro h
  have := List.rel_of_pairwise_cons h (List.mem_singleton_self _) rfl rfl
  exact Nat.lt_irrefl _ this

/-! ## Where a loop leaves off -/

/-- The rule matches from the first cursor to the second. -/
def Matches (setting : Setting U L) (rule : Rule U L) (cursor next : Cursor T) : Prop :=
  ∃ result : Result T L M, Returns setting rule cursor result ∧ result.outcome = .matched ∧
    result.cursor = next

/-- The rule matches from the first cursor to the second, which is further on. -/
def Advances (setting : Setting U L) (rule : Rule U L) (cursor next : Cursor T) : Prop :=
  Matches setting rule cursor next ∧ cursor.offset < next.offset

/-- A loop of the rule stops at the first cursor and leaves off at the second: where the input ends,
where the rule does not match, or where it matches and consumes nothing. -/
inductive Stops (setting : Setting U L) (rule : Rule U L) (cursor : Cursor T) : Cursor T → Prop
  | atEnd (he : cursor.atEnd setting.input = true) : Stops setting rule cursor cursor
  | unmatched {result : Result T L M} (h : Returns setting rule cursor result)
      (ho : result.outcome = .unmatched) : Stops setting rule cursor result.cursor
  | still {next} (h : Matches setting rule cursor next) (hs : next.offset = cursor.offset) :
      Stops setting rule cursor next

omit [InputUnit U] [DecidableEq U] [NodeTree T L M] [DecidableEq M] in
theorem accept_of_ne_matched (ho : result.outcome ≠ .matched) :
    result.accept.outcome ≠ .unmatched ∧
      (result.accept.outcome = .matched → result.outcome = .unmatched) := by
  unfold Result.accept
  cases h : result.outcome with
  | matched => exact absurd h ho
  | unmatched => exact ⟨nofun, fun _ => rfl⟩
  | failed failure => simp [h]
  | faulted fault => simp [h]

theorem greedy_reaches (hp : setting.policy.nodesAreProgress = false)
    (h : Goes setting (.greedy rule) cursor parts result) : result.outcome ≠ .unmatched ∧
      (result.outcome = .matched → ∃ before, ReflTransGen (Advances setting rule) cursor before ∧
        Stops setting rule before result.cursor) := by
  generalize ht : Task.greedy rule = task at h
  -- Each round that goes on is put before the rounds of the rest; the last says why it stops.
  induction h with
  | greedyEnd he => exact ⟨nofun, fun _ => ⟨_, .refl, .atEnd he⟩⟩
  | greedyStop _ h ho =>
    cases ht
    obtain ⟨hn, hu⟩ := accept_of_ne_matched ho
    refine ⟨hn, fun hm => ⟨_, .refl, ?_⟩⟩
    rw [accept_cursor]
    exact .unmatched (returns_iff_goes.2 ⟨_, h⟩) (hu hm)
  | greedyStill _ h ho hs =>
    cases ht
    have hm : Matches setting rule _ _ := ⟨_, returns_iff_goes.2 ⟨_, h⟩, ho, rfl⟩
    exact ⟨by simp [ho], fun _ => ⟨_, .refl, .still hm ((Policy.not_progressed_iff hp).1 hs)⟩⟩
  | greedyOn _ h ho hs _ _ ihn =>
    cases ht
    obtain ⟨hn, hreach⟩ := ihn rfl
    refine ⟨hn, fun hm => ?_⟩
    obtain ⟨before, hsteps, hstop⟩ := hreach hm
    have hnext : Advances setting rule _ _ :=
      ⟨⟨_, returns_iff_goes.2 ⟨_, h⟩, ho, rfl⟩, lt_of_progressed hp h hs⟩
    exact ⟨before, hsteps.head hnext, hstop⟩
  | _ => cases ht

/-! ## There is no more to be had -/

/-- At the offset the input ends, or the rule does not match, or it matches nothing. -/
inductive NoMore (input : Input U) (references : Nat → Reference U L) (rule : Rule U L)
    (offset : Nat) : Prop
  | atEnd (he : input.length ≤ offset)
  | unmatched (h : Means input references rule offset .no)
  | still {forest : Forest L} (h : Means input references rule offset (.yes offset forest))

omit [DecidableEq U] in
theorem NoMore.star {input : Input U} {references : Nat → Reference U L} {offset : Nat}
    (h : NoMore input references rule offset) :
    ∃ forest, Means input references (.star rule) offset (.yes offset forest) := by
  by_cases he : input.length ≤ offset
  · exact ⟨[], .starEnd he⟩
  · have he := Nat.lt_of_not_le he
    cases h with
    | atEnd hl => omega
    | unmatched h => exact ⟨[], .starStop he h nofun⟩
    | still h => exact ⟨_, .starStill he h⟩

/-- A loop of the rule from the first cursor takes all there is of it, and leaves off at the
last. -/
structure TakesAll (Same : Cursor T → Cursor T → Prop) (setting : Setting U L) (rule : Rule U L)
    (cursor last : Cursor T) : Prop where
  /-- It is reached by matches that went on, and a match of nothing at most. -/
  reached : ∃ before, ReflTransGen (Advances setting rule) cursor before ∧
    Stops setting rule before last ∧
    (Same before last ∨ Matches setting rule before last ∧ last.offset = before.offset)
  /-- A loop would stop there at once. -/
  stops : ∃ next, Stops setting rule last next
  /-- So a second loop after the first gets no further. -/
  again : ∃ result : Result T L M, Returns setting (.seq [.star rule, .star rule]) cursor result ∧
    result.outcome = .matched ∧ result.cursor.offset = last.offset

section

variable [LawfulTree T] [ForestTree T] {next : Cursor T}

theorem Stops.noMore (hp : setting.policy.nodesAreProgress = false)
    (h : Stops setting rule cursor next) :
    NoMore setting.input setting.references rule next.offset := by
  cases h with
  | atEnd he => exact .atEnd (of_decide_eq_true he)
  | unmatched h ho =>
    obtain ⟨answer, hm, ht⟩ := returns_means hp h
    rw [ht.eq_no ho] at hm
    rw [((returns_balanced h).restored ho).1]
    exact .unmatched hm
  | still h hs =>
    obtain ⟨result, h, ho, rfl⟩ := h
    obtain ⟨answer, hm, ht⟩ := returns_means hp h
    obtain ⟨forest, rfl, -⟩ := ht.eq_yes ho
    rw [hs] at hm ⊢
    exact .still hm

/-- What a rule means does not depend on the nodes, so a cursor with other nodes stops as well. -/
theorem NoMore.stops (hp : setting.policy.nodesAreProgress = false)
    (h : NoMore setting.input setting.references rule cursor.offset) :
    ∃ next, Stops setting rule cursor next := by
  cases h with
  | atEnd he => exact ⟨cursor, .atEnd (decide_eq_true he)⟩
  | unmatched h =>
    obtain ⟨result, h, ho⟩ := means_returns hp h
    exact ⟨_, .unmatched h ho⟩
  | still h =>
    obtain ⟨result, h, ho, hoff, -⟩ := means_returns hp h
    exact ⟨_, .still ⟨result, h, ho, rfl⟩ hoff⟩

theorem takesAll_of_returns (hp : setting.policy.nodesAreProgress = false)
    {Same : Cursor T → Cursor T → Prop}
    (hsame : ∀ {before last}, Stops setting rule before last →
      Same before last ∨ Matches setting rule before last ∧ last.offset = before.offset)
    (h : Returns setting (.star rule) cursor result) :
    result.outcome ≠ .unmatched ∧
      (result.outcome = .matched → TakesAll Same setting rule cursor result.cursor) := by
  obtain ⟨answer, hm, ht⟩ := returns_means hp h
  obtain ⟨parts, hg⟩ := returns_iff_goes.1 h
  cases hg with
  | done h => cases h
  | star hg =>
    obtain ⟨hn, hreach⟩ := greedy_reaches hp hg
    refine ⟨hn, fun ho => ?_⟩
    obtain ⟨before, hsteps, hstop⟩ := hreach ho
    obtain ⟨forest, rfl, -⟩ := ht.eq_yes ho
    have hno := hstop.noMore hp
    obtain ⟨forest', hm'⟩ := hno.star
    -- From where the first loop left off the second means an empty match, whatever the nodes.
    have hseq := Means.seqOn hm (.seqOn hm' .seqNil)
    obtain ⟨last, hlast, hol, hoff, -⟩ := means_returns hp hseq
    exact ⟨⟨before, hsteps, hstop, hsame hstop⟩, hno.stops hp, ⟨last, hlast, hol, hoff⟩⟩

end

end

/-! ## Over the trees without limit -/

variable {U L : Type} [DecidableEq L]

/-- The cursors are at one place with the same nodes, of which the same is innermost open, and if
there was no trail, there is none. -/
structure SameNodes (cursor next : Cursor (TrailTree L)) : Prop where
  offset_eq : next.offset = cursor.offset
  arena_eq : next.tree.arena = cursor.tree.arena
  trail_eq : cursor.tree.trail = [] → next.tree.trail = []

variable [InputUnit U] [DecidableEq U]

section

variable {setting : Setting U L} {rule : Rule U L}

theorem Stops.sameNodes {cursor next : Cursor (TrailTree L)} (h : Stops setting rule cursor next) :
    SameNodes cursor next ∨ Matches setting rule cursor next ∧ next.offset = cursor.offset := by
  cases h with
  | atEnd => exact Or.inl ⟨rfl, rfl, id⟩
  | unmatched h ho =>
    obtain ⟨hoff, hback⟩ := (returns_balanced h).restored ho
    obtain ⟨parts, hg⟩ := returns_iff_goes.1 h
    exact Or.inl ⟨hoff, Arena.Grown.antisymm (returns_balanced h).grown hback,
      fun ht => goes_clears hg ht (Or.inr ho)⟩
  | still h hs => exact Or.inr ⟨h, hs⟩

omit [DecidableEq L] in
theorem Stops.same {cursor next : Cursor (DepthTree L)} (h : Stops setting rule cursor next) :
    next = cursor ∨ Matches setting rule cursor next ∧ next.offset = cursor.offset := by
  cases h with
  | atEnd => exact Or.inl rfl
  | @unmatched result h ho =>
    obtain ⟨hoff, hback⟩ := (returns_balanced h).restored ho
    obtain ⟨outcome, ⟨offset, ⟨depth⟩⟩, events⟩ := result
    obtain ⟨offset', ⟨depth'⟩⟩ := cursor
    cases hoff
    cases hback
    exact Or.inl rfl
  | still h hs => exact Or.inr ⟨h, hs⟩

end

end Peg.Matching
