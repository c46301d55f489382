import Peg.Proofs.Refinement

/-
  Adequacy: over a tree that never runs out of room, a match returns exactly where its rule means
  something (`returns_iff_means`). What is true of every result is then true of every meaning, and
  the other way round.
-/

namespace Peg.Matching

open ForestTree

variable {U L T M : Type} [NodeTree T L M] [LawfulTree T] [ForestTree T] [InputUnit U]
  [DecidableEq U] [DecidableEq M] {setting : Setting U L}

/-- The task that a rule comes to; the rules that loop or go through a list have one of their own. -/
def taskOf (start : Position M) : Rule U L → Task U L M
  | .seq rules => .each rules
  | .or rules => .first rules
  | .star rule => .greedy rule
  | .times rule n => .each (List.replicate n rule)
  | .untilPast rule => .scan rule start
  | rule => .rule rule

/-- What the rule comes to goes to some result. -/
def Comes (setting : Setting U L) (rule : Rule U L) (cursor : Cursor T) : Prop :=
  ∀ start : Position M, ∃ parts result, Goes setting (taskOf start rule) cursor parts result

omit [LawfulTree T] [ForestTree T] in
theorem comes_of_atOnce {rule : Rule U L} {cursor : Cursor T}
    (h : (atOnce? setting rule cursor).isSome = true)
    (ht : ∀ start : Position M, taskOf start rule = .rule rule) : Comes setting rule cursor := by
  obtain ⟨result, h⟩ := Option.isSome_iff_exists.1 h
  intro start
  rw [ht start]
  exact ⟨[], result, .done h⟩

omit [LawfulTree T] [ForestTree T] in
theorem Comes.goes {rule : Rule U L} {cursor : Cursor T} (h : Comes setting rule cursor) :
    ∃ parts result, Goes setting (.rule rule) cursor parts result := by
  obtain ⟨parts, result, hg⟩ := h cursor.position
  cases rule with
  | seq => exact ⟨_, _, .seq hg⟩
  | or => exact ⟨_, _, .or hg⟩
  | star => exact ⟨_, _, .star hg⟩
  | times => exact ⟨_, _, .times hg⟩
  | untilPast => exact ⟨_, _, .untilPast hg⟩
  | _ => exact ⟨_, _, hg⟩

/-- As the answer is the only one, it is the one that the result tells. -/
theorem Comes.tells (hp : setting.policy.nodesAreProgress = false) {rule : Rule U L}
    {cursor : Cursor T} {offset : Nat} {answer : Answer L} (h : Comes setting rule cursor)
    (hc : cursor.offset = offset)
    (hm : Means setting.input setting.references rule offset answer) :
    ∃ parts result, Goes setting (.rule rule) cursor parts result ∧ Tells cursor result answer := by
  obtain ⟨parts, result, hg⟩ := h.goes
  obtain ⟨answer', hm', ht⟩ := goes_means hp hg
  obtain rfl : answer' = answer := by
    rw [hc] at hm'
    exact hm'.unique hm
  exact ⟨parts, result, hg, ht⟩

/-- Where a rule means something, every cursor there gets somewhere with it. -/
theorem means_comes (hp : setting.policy.nodesAreProgress = false) {rule : Rule U L} {offset : Nat}
    {answer : Answer L} (h : Means setting.input setting.references rule offset answer) :
    ∀ cursor : Cursor T, cursor.offset = offset → Comes setting rule cursor := by
  have atEnd {cursor : Cursor T} (he : setting.input.length ≤ cursor.offset) :
      cursor.atEnd setting.input = true := decide_eq_true he
  have notAtEnd {cursor : Cursor T} (he : cursor.offset < setting.input.length) :
      cursor.atEnd setting.input = false := decide_eq_false (Nat.not_le_of_lt he)
  -- The answers for the parts say where the parts leave off, so the next part can be looked up.
  induction h with
  | unit | unitNot | units | unitsNot =>
    intro cursor _
    refine comes_of_atOnce ?_ fun _ => rfl
    simp only [atOnce?, step]
    split <;> rfl
  | atEnd | atEndNot | succeed | fail | exhaust =>
    intro cursor _
    exact comes_of_atOnce rfl fun _ => rfl
  | optEnd he =>
    intro cursor hc
    subst hc
    refine comes_of_atOnce ?_ fun _ => rfl
    simp only [atOnce?, step, atEnd he, if_true]
    rfl
  | refNot hi =>
    intro cursor _
    refine comes_of_atOnce ?_ fun _ => rfl
    simp only [atOnce?, step]
    split
    · rfl
    · rename_i hd
      exact absurd hd (hi _)
    · rfl
  | seqNil | timesNil => exact fun _ _ _ => ⟨_, _, .eachNil⟩
  | seqStop h ha ih | timesStop h ha ih =>
    intro cursor hc start
    obtain ⟨_, _, hg, ht⟩ := (ih cursor hc).tells hp hc h
    exact ⟨_, _, .eachStop hg (ht.ne_matched ha)⟩
  | seqOn h _ ih ihn | timesOn h _ ih ihn =>
    intro cursor hc start
    obtain ⟨_, result, hg, ho, hoff, -⟩ := (ih cursor hc).tells hp hc h
    obtain ⟨_, _, hgn⟩ := ihn result.cursor hoff start
    exact ⟨_, _, .eachOn hg ho hgn⟩
  | orNil => exact fun _ _ _ => ⟨_, _, .firstNil⟩
  | orStop h ha ih =>
    intro cursor hc start
    obtain ⟨_, _, hg, ht⟩ := (ih cursor hc).tells hp hc h
    exact ⟨_, _, .firstStop hg (ht.ne_unmatched ha)⟩
  | orOn h _ ih ihn =>
    intro cursor hc start
    obtain ⟨_, result, hg, ho⟩ := (ih cursor hc).tells hp hc h
    have hoff := ((goes_balanced hg).restored ho).1
    obtain ⟨_, _, hgn⟩ := ihn result.cursor (hoff.trans hc) start
    exact ⟨_, _, .firstOn hg ho hgn⟩
  | starEnd he =>
    intro cursor hc start
    subst hc
    exact ⟨_, _, .greedyEnd (atEnd he)⟩
  | starStop he h ha ih =>
    intro cursor hc start
    subst hc
    obtain ⟨_, _, hg, ht⟩ := (ih cursor rfl).tells hp rfl h
    exact ⟨_, _, .greedyStop (notAtEnd he) hg (ht.ne_matched ha)⟩
  | starStill he h ih =>
    intro cursor hc start
    subst hc
    obtain ⟨_, _, hg, ho, hoff, -⟩ := (ih cursor rfl).tells hp rfl h
    exact ⟨_, _, .greedyStill (notAtEnd he) hg ho ((Policy.not_progressed_iff hp).2 hoff)⟩
  | starOn he h hs _ ih ihn =>
    intro cursor hc start
    subst hc
    obtain ⟨_, result, hg, ho, hoff, -⟩ := (ih cursor rfl).tells hp rfl h
    obtain ⟨_, _, hgn⟩ := ihn result.cursor hoff start
    refine ⟨_, _, .greedyOn (notAtEnd he) hg ho ((Policy.progressed_iff hp).2 ?_) hgn⟩
    rw [hoff]
    exact hs
  | plusStop h ha ih =>
    intro cursor hc start
    obtain ⟨_, _, hg, ht⟩ := (ih cursor hc).tells hp hc h
    exact ⟨_, _, .plusStop hg (ht.ne_matched ha)⟩
  | plusOn h _ ih ihn =>
    intro cursor hc start
    obtain ⟨_, result, hg, ho, hoff, -⟩ := (ih cursor hc).tells hp hc h
    obtain ⟨_, _, hgn⟩ := ihn result.cursor hoff start
    exact ⟨_, _, .plusOn hg ho hgn⟩
  | opt he _ ih =>
    intro cursor hc start
    subst hc
    obtain ⟨_, _, hg⟩ := (ih cursor rfl).goes
    exact ⟨_, _, .opt (notAtEnd he) hg⟩
  | ahead _ ih =>
    intro cursor hc start
    obtain ⟨_, _, hg⟩ := (ih cursor hc).goes
    exact ⟨_, _, .ahead hg⟩
  | notAhead _ ih =>
    intro cursor hc start
    obtain ⟨_, _, hg⟩ := (ih cursor hc).goes
    exact ⟨_, _, .notAhead hg⟩
  | scanStop h ha ih =>
    intro cursor hc start
    obtain ⟨_, _, hg, ht⟩ := (ih cursor hc).tells hp hc h
    exact ⟨_, _, .scanStop hg (ht.ne_unmatched ha)⟩
  | scanEnd h he ih =>
    intro cursor hc start
    subst hc
    obtain ⟨_, result, hg, ho⟩ := (ih cursor rfl).tells hp rfl h
    refine ⟨_, _, .scanEnd hg ho (atEnd ?_)⟩
    rw [Cursor.advance_offset, ((goes_balanced hg).restored ho).1]
    exact he
  | scanOn h he _ ih ihn =>
    intro cursor hc start
    subst hc
    obtain ⟨_, result, hg, ho⟩ := (ih cursor rfl).tells hp rfl h
    have hoff : (result.cursor.advance setting.input).offset = setting.input.next cursor.offset := by
      rw [Cursor.advance_offset, ((goes_balanced hg).restored ho).1]
    obtain ⟨_, _, hgn⟩ := ihn (result.cursor.advance setting.input) hoff start
    refine ⟨_, _, .scanOn hg ho (notAtEnd ?_) hgn⟩
    rw [hoff]
    exact he
  | mandatory _ ih =>
    intro cursor hc start
    obtain ⟨_, _, hg⟩ := (ih cursor hc).goes
    exact ⟨_, _, .mandatory hg⟩
  | recover _ ih =>
    intro cursor hc start
    obtain ⟨_, _, hg⟩ := (ih cursor hc).goes
    exact ⟨_, _, .recover hg⟩
  | @store label _ _ _ _ ih =>
    intro cursor hc start
    subst hc
    obtain ⟨tree, ht⟩ := room cursor.tree label cursor.offset
    have hi : cursor.openNode? label = some ⟨cursor.offset, tree⟩ :=
      Option.map_eq_some_iff.2 ⟨tree, ht, rfl⟩
    obtain ⟨_, _, hg⟩ := (ih ⟨cursor.offset, tree⟩ rfl).goes
    exact ⟨_, _, .store hi hg⟩
  | ref hi _ ih =>
    intro cursor hc start
    obtain ⟨_, _, hg⟩ := (ih cursor hc).goes
    exact ⟨_, _, .ref hi hg⟩
  | counted _ ih =>
    intro cursor hc start
    obtain ⟨_, _, hg⟩ := (ih cursor hc).goes
    exact ⟨_, _, .counted hg⟩

/-- What a match returns is what its rule means. -/
theorem returns_means (hp : setting.policy.nodesAreProgress = false) {rule : Rule U L}
    {cursor : Cursor T} {result : Result T L M} (h : Returns setting rule cursor result) :
    ∃ answer, Means setting.input setting.references rule cursor.offset answer ∧
      Tells cursor result answer := by
  obtain ⟨parts, hg⟩ := returns_iff_goes.1 h
  exact goes_means hp hg

/-- Where a rule means something, a match returns that. -/
theorem means_returns (hp : setting.policy.nodesAreProgress = false) {rule : Rule U L}
    {cursor : Cursor T} {answer : Answer L}
    (hm : Means setting.input setting.references rule cursor.offset answer) :
    ∃ result : Result T L M, Returns setting rule cursor result ∧ Tells cursor result answer := by
  obtain ⟨parts, result, hg, ht⟩ := (means_comes hp hm cursor rfl).tells hp rfl hm
  exact ⟨result, returns_iff_goes.2 ⟨parts, hg⟩, ht⟩

/-- A match returns exactly where its rule means something. -/
theorem returns_iff_means (hp : setting.policy.nodesAreProgress = false) {rule : Rule U L}
    (cursor : Cursor T) : (∃ result : Result T L M, Returns setting rule cursor result) ↔
      ∃ answer, Means setting.input setting.references rule cursor.offset answer := by
  constructor
  · intro ⟨result, h⟩
    obtain ⟨answer, hm, -⟩ := returns_means hp h
    exact ⟨answer, hm⟩
  · intro ⟨answer, hm⟩
    obtain ⟨result, h, -⟩ := means_returns hp hm
    exact ⟨result, h⟩

/-- Matching text where the rule means something returns, and the result is what it means. -/
theorem returns_agrees [DecidableEq L] {input : Input U} {references : Nat → Reference U L}
    {rule : Rule U L} {answer : Answer L} (cursor : Cursor (TrailTree L))
    (hm : Means input references rule cursor.offset answer) :
    ∃ result, Returns ⟨input, references, .text⟩ rule cursor result ∧
      Agrees cursor result answer := by
  let setting : Setting U L := ⟨input, references, .text⟩
  have hm : Means setting.input setting.references rule cursor.offset answer := hm
  obtain ⟨result, h, ht⟩ := means_returns rfl hm
  exact ⟨result, h, ht.agrees (returns_balanced h)⟩

end Peg.Matching
