import Peg.Proofs.Trace

/-
  Upshots: what is left to tell of a match when it is over. Of a rule that does not match only that
  is told, since it leaves the cursor as it was: rules in a row go on from where the last one
  matched, a choice goes on from where it began, and how often nodes were recorded and dropped in
  between makes no difference. Among trees where a rule that does not match leaves the very same
  cursor (`Transparent`), rules with the same upshots have the same results (`Coincide`).
-/

namespace Peg

variable {U L T M : Type}

theorem Cursor.eq_of {cursor other : Cursor T} (ho : cursor.offset = other.offset)
    (ht : cursor.tree = other.tree) : cursor = other := by
  obtain ⟨offset, tree⟩ := cursor
  cases ho
  cases ht
  rfl

/-- What is left to tell of a match. -/
inductive Upshot (T M : Type)
  | matched (cursor : Cursor T)
  | unmatched
  | failed (failure : HardFailure (Position M)) (cursor : Cursor T)
  | faulted (fault : Fault) (cursor : Cursor T)

namespace Upshot

def outcome : Upshot T M → Outcome (Position M)
  | matched _ => .matched
  | unmatched => .unmatched
  | failed failure _ => .failed failure
  | faulted fault _ => .faulted fault

/-- Where the cursor is after a match from the start. -/
def cursor (start : Cursor T) : Upshot T M → Cursor T
  | matched cursor | failed _ cursor | faulted _ cursor => cursor
  | unmatched => start

/-- What comes of going on where the first matched. -/
def Then (next : Cursor T → Upshot T M → Prop) : Upshot T M → Upshot T M → Prop
  | matched cursor, last => next cursor last
  | first, last => last = first

/-- What comes of going on if the first did not match. -/
def Else (next : Upshot T M → Prop) : Upshot T M → Upshot T M → Prop
  | unmatched, last => next last
  | first, last => last = first

/-- Back at the start if it matched. -/
def lookFrom (start : Cursor T) : Upshot T M → Upshot T M
  | matched _ => matched start
  | upshot => upshot

variable {first last : Upshot T M}

theorem then_of_ne {next : Cursor T → Upshot T M → Prop} (h : first.outcome ≠ .matched) :
    first.Then next last ↔ last = first := by
  cases first with
  | matched => exact absurd rfl h
  | unmatched | failed | faulted => exact Iff.rfl

theorem else_of_ne {next : Upshot T M → Prop} (h : first.outcome ≠ .unmatched) :
    first.Else next last ↔ last = first := by
  cases first with
  | unmatched => exact absurd rfl h
  | matched | failed | faulted => exact Iff.rfl

/-- To go on twice is to go on with what goes on. -/
theorem then_assoc {before : Upshot T M → Prop} {next later : Cursor T → Upshot T M → Prop} :
    (∃ upshot, (∃ first, before first ∧ first.Then next upshot) ∧ upshot.Then later last) ↔
      ∃ first, before first ∧
        first.Then (fun cursor last => ∃ upshot, next cursor upshot ∧ upshot.Then later last)
          last := by
  have hs (first : Upshot T M) : (∃ upshot, first.Then next upshot ∧ upshot.Then later last) ↔
      first.Then (fun cursor last => ∃ upshot, next cursor upshot ∧ upshot.Then later last)
        last := by
    cases first with
    | matched cursor => exact Iff.rfl
    | unmatched | failed | faulted => exact exists_eq_left
  simp only [← hs]
  exact ⟨fun ⟨upshot, ⟨first, hb, hn⟩, hl⟩ => ⟨first, hb, upshot, hn, hl⟩,
    fun ⟨first, hb, upshot, hn, hl⟩ => ⟨upshot, ⟨first, hb, hn⟩, hl⟩⟩

theorem else_assoc {before next later : Upshot T M → Prop} :
    (∃ upshot, (∃ first, before first ∧ first.Else next upshot) ∧ upshot.Else later last) ↔
      ∃ first, before first ∧
        first.Else (fun last => ∃ upshot, next upshot ∧ upshot.Else later last) last := by
  have hs (first : Upshot T M) : (∃ upshot, first.Else next upshot ∧ upshot.Else later last) ↔
      first.Else (fun last => ∃ upshot, next upshot ∧ upshot.Else later last) last := by
    cases first with
    | unmatched => exact Iff.rfl
    | matched | failed | faulted => exact exists_eq_left
  simp only [← hs]
  exact ⟨fun ⟨upshot, ⟨first, hb, hn⟩, hl⟩ => ⟨first, hb, upshot, hn, hl⟩,
    fun ⟨first, hb, upshot, hn, hl⟩ => ⟨upshot, ⟨first, hb, hn⟩, hl⟩⟩

/-- Where nothing more comes of going on, it was over before. -/
theorem then_iff_eq {next : Cursor T → Upshot T M → Prop}
    (h : ∀ cursor, next cursor last ↔ last = matched cursor) :
    first.Then next last ↔ last = first := by
  cases first with
  | matched cursor => exact h cursor
  | unmatched | failed | faulted => exact Iff.rfl

theorem else_iff_eq {next : Upshot T M → Prop} (h : next last ↔ last = unmatched) :
    first.Else next last ↔ last = first := by
  cases first with
  | unmatched => exact h
  | matched | failed | faulted => exact Iff.rfl

theorem then_congr {next next' : Cursor T → Upshot T M → Prop}
    (h : ∀ cursor, first = matched cursor → (next cursor last ↔ next' cursor last)) :
    first.Then next last ↔ first.Then next' last := by
  cases first with
  | matched cursor => exact h cursor rfl
  | unmatched | failed | faulted => exact Iff.rfl

theorem else_congr {next next' : Upshot T M → Prop}
    (h : first = unmatched → (next last ↔ next' last)) :
    first.Else next last ↔ first.Else next' last := by
  cases first with
  | unmatched => exact h rfl
  | matched | failed | faulted => exact Iff.rfl

end Upshot

namespace Result

/-- What is left to tell of the match. -/
def upshot (result : Result T L M) : Upshot T M :=
  match result.outcome with
  | .matched => .matched result.cursor
  | .unmatched => .unmatched
  | .failed failure => .failed failure result.cursor
  | .faulted fault => .faulted fault result.cursor

variable {result : Result T L M}

theorem outcome_upshot (result : Result T L M) : result.upshot.outcome = result.outcome := by
  unfold upshot
  cases result.outcome <;> rfl

theorem cursor_upshot {start : Cursor T}
    (h : result.outcome = .unmatched → result.cursor = start) :
    result.upshot.cursor start = result.cursor := by
  unfold upshot
  cases ho : result.outcome with
  | unmatched => exact (h ho).symm
  | matched | failed | faulted => rfl

theorem upshot_eq_matched {cursor : Cursor T} :
    result.upshot = .matched cursor ↔ result.outcome = .matched ∧ result.cursor = cursor := by
  unfold upshot
  cases result.outcome <;> simp

theorem upshot_eq_unmatched : result.upshot = .unmatched ↔ result.outcome = .unmatched := by
  unfold upshot
  cases result.outcome <;> simp

theorem upshot_backTo [NodeTree T L M] (position : Position M) (result : Result T L M) :
    (result.backTo position).upshot = result.upshot := by
  unfold backTo
  split
  · rename_i h
    rw [upshot_eq_unmatched.2 h]
    exact upshot_eq_unmatched.2 h
  · rfl

/-- The same outcome at the same offset, with trees that are the same. -/
structure Like (Same : T → T → Prop) (result other : Result T L M) : Prop where
  outcome_eq : other.outcome = result.outcome
  offset_eq : other.cursor.offset = result.cursor.offset
  tree : Same result.cursor.tree other.cursor.tree

theorem Like.mono {Same Same' : T → T → Prop} {other : Result T L M}
    (h : result.Like Same other) (hs : ∀ {t u}, Same t u → Same' t u) : result.Like Same' other :=
  ⟨h.outcome_eq, h.offset_eq, hs h.tree⟩

/-- Results are the very same but for the events, if their upshots from one start are. -/
theorem like_of_upshot {other : Result T L M} {start : Cursor T}
    (h : result.outcome = .unmatched → result.cursor = start)
    (h' : other.outcome = .unmatched → other.cursor = start)
    (he : other.upshot = result.upshot) : result.Like Eq other := by
  have hc : other.cursor = result.cursor := by
    rw [← cursor_upshot h', he, cursor_upshot h]
  refine ⟨?_, congrArg Cursor.offset hc, congrArg Cursor.tree hc.symm⟩
  rw [← other.outcome_upshot, he, result.outcome_upshot]

end Result

namespace Matching

variable [NodeTree T L M] [InputUnit U] [DecidableEq U] [DecidableEq M] {setting : Setting U L}
  {rule rule' : Rule U L} {rules xs ys : List (Rule U L)} {cursor : Cursor T}
  {upshot : Upshot T M} {n : Nat}

/-- This is the upshot of the task at the cursor. -/
def Yields (setting : Setting U L) (task : Task U L M) (cursor : Cursor T)
    (upshot : Upshot T M) : Prop :=
  ∃ parts result, Goes setting task cursor parts result ∧ result.upshot = upshot

theorem Yields.unique {task : Task U L M} {other : Upshot T M}
    (h : Yields setting task cursor upshot) (h' : Yields setting task cursor other) :
    other = upshot := by
  obtain ⟨parts, result, hg, rfl⟩ := h
  obtain ⟨parts', result', hg', rfl⟩ := h'
  rw [(goes_unique hg hg').2]

/-! ## In a row -/

theorem yields_each_nil :
    Yields setting (.each []) cursor upshot ↔ upshot = .matched cursor := by
  constructor
  · rintro ⟨parts, result, h, rfl⟩
    cases h
    rfl
  · rintro rfl
    exact ⟨[], _, .eachNil, rfl⟩

theorem yields_each_cons : Yields setting (.each (rule :: rules)) cursor upshot ↔
    ∃ first, Yields setting (.rule rule) cursor first ∧
      first.Then (Yields setting (.each rules)) upshot := by
  constructor
  · rintro ⟨parts, result, h, rfl⟩
    cases h with
    | eachStop h ho =>
      rw [← result.outcome_upshot] at ho
      exact ⟨_, ⟨_, _, h, rfl⟩, (Upshot.then_of_ne ho).2 rfl⟩
    | eachOn h ho hn =>
      exact ⟨_, ⟨_, _, h, Result.upshot_eq_matched.2 ⟨ho, rfl⟩⟩, _, _, hn, rfl⟩
  · rintro ⟨first, ⟨parts, result, h, rfl⟩, hn⟩
    by_cases ho : result.outcome = .matched
    · rw [Result.upshot_eq_matched.2 ⟨ho, rfl⟩] at hn
      obtain ⟨rest, last, hn, rfl⟩ := hn
      exact ⟨_, _, .eachOn h ho hn, rfl⟩
    · have hs := ho
      rw [← result.outcome_upshot] at hs
      exact ⟨_, _, .eachStop h ho, ((Upshot.then_of_ne hs).1 hn).symm⟩

theorem yields_each_append : Yields setting (.each (xs ++ ys)) cursor upshot ↔
    ∃ first, Yields setting (.each xs) cursor first ∧
      first.Then (Yields setting (.each ys)) upshot := by
  induction xs generalizing cursor upshot with
  | nil =>
    simp only [List.nil_append, yields_each_nil, exists_eq_left]
    rfl
  | cons rule xs ih =>
    simp only [List.cons_append, yields_each_cons, Upshot.then_assoc]
    exact exists_congr fun first => and_congr_right fun _ => Upshot.then_congr fun _ _ => ih

theorem yields_seq : Yields setting (.rule (.seq rules)) cursor upshot ↔
    Yields setting (.each rules) cursor upshot := by
  constructor
  · rintro ⟨parts, result, h, rfl⟩
    cases h with
    | done h => cases h
    | seq h => exact ⟨_, _, h, (Result.upshot_backTo _ _).symm⟩
  · rintro ⟨parts, result, h, rfl⟩
    exact ⟨_, _, .seq h, Result.upshot_backTo _ _⟩

theorem yields_times : Yields setting (.rule (.times rule n)) cursor upshot ↔
    Yields setting (.each (List.replicate n rule)) cursor upshot := by
  constructor
  · rintro ⟨parts, result, h, rfl⟩
    cases h with
    | done h => cases h
    | times h => exact ⟨_, _, h, (Result.upshot_backTo _ _).symm⟩
  · rintro ⟨parts, result, h, rfl⟩
    exact ⟨_, _, .times h, Result.upshot_backTo _ _⟩

theorem yields_each_single : Yields setting (.each [rule]) cursor upshot ↔
    Yields setting (.rule rule) cursor upshot := by
  simp only [yields_each_cons, Upshot.then_iff_eq fun _ => yields_each_nil, exists_eq_right']

theorem yields_star : Yields setting (.rule (.star rule)) cursor upshot ↔
    Yields setting (.greedy rule) cursor upshot := by
  constructor
  · rintro ⟨parts, result, h, rfl⟩
    cases h with
    | done h => cases h
    | star h => exact ⟨_, _, h, rfl⟩
  · rintro ⟨parts, result, h, rfl⟩
    exact ⟨_, _, .star h, rfl⟩

theorem yields_plus : Yields setting (.rule (.plus rule)) cursor upshot ↔
    ∃ first, Yields setting (.rule rule) cursor first ∧
      first.Then (Yields setting (.rule (.star rule))) upshot := by
  constructor
  · rintro ⟨parts, result, h, rfl⟩
    cases h with
    | done h => cases h
    | plusStop h ho =>
      rw [← result.outcome_upshot] at ho
      exact ⟨_, ⟨_, _, h, rfl⟩, (Upshot.then_of_ne ho).2 rfl⟩
    | plusOn h ho hn =>
      exact ⟨_, ⟨_, _, h, Result.upshot_eq_matched.2 ⟨ho, rfl⟩⟩, _, _, .star hn, rfl⟩
  · rintro ⟨first, ⟨parts, result, h, rfl⟩, hn⟩
    by_cases ho : result.outcome = .matched
    · rw [Result.upshot_eq_matched.2 ⟨ho, rfl⟩] at hn
      obtain ⟨rest, last, hg, rfl⟩ := yields_star.1 hn
      exact ⟨_, _, .plusOn h ho hg, rfl⟩
    · have hs := ho
      rw [← result.outcome_upshot] at hs
      exact ⟨_, _, .plusStop h ho, ((Upshot.then_of_ne hs).1 hn).symm⟩

/-! ## Where nothing that was undone leaves a trace -/

/-- Among these trees, a rule that matches stays, and one that does not leaves the very same
cursor. -/
structure Transparent (setting : Setting U L) (Plain : T → Prop) : Prop where
  stays : ∀ {rule : Rule U L} {cursor : Cursor T} {result : Result T L M},
    Returns setting rule cursor result → Plain cursor.tree → result.outcome = .matched →
      Plain result.cursor.tree
  restored : ∀ {rule : Rule U L} {cursor : Cursor T} {result : Result T L M},
    Returns setting rule cursor result → Plain cursor.tree → result.outcome = .unmatched →
      result.cursor = cursor

/-- Whenever the rule returns, the other one does, and the results are alike. -/
def ReplacedBy (setting : Setting U L) (Same : T → T → Prop) (rule rule' : Rule U L)
    (cursor : Cursor T) : Prop :=
  ∀ result, Returns setting rule cursor result →
    ∃ other, Returns setting rule' cursor other ∧ result.Like Same other

/-- Whenever either of the rules returns, both do, and the results are alike. -/
structure Coincide (setting : Setting U L) (Same : T → T → Prop) (rule rule' : Rule U L)
    (cursor : Cursor T) : Prop where
  forth : ReplacedBy setting Same rule rule' cursor
  back : ReplacedBy setting Same rule' rule cursor

theorem ReplacedBy.mono {Same Same' : T → T → Prop} (h : ReplacedBy setting Same rule rule' cursor)
    (hs : ∀ {t u}, Same t u → Same' t u) : ReplacedBy setting Same' rule rule' cursor := by
  intro result hr
  obtain ⟨other, hr', hl⟩ := h result hr
  exact ⟨other, hr', hl.mono hs⟩

theorem Coincide.mono {Same Same' : T → T → Prop} (h : Coincide setting Same rule rule' cursor)
    (hs : ∀ {t u}, Same t u → Same' t u) : Coincide setting Same' rule rule' cursor :=
  ⟨h.forth.mono hs, h.back.mono hs⟩

theorem yields_first_nil :
    Yields setting (.first []) cursor upshot ↔ upshot = .unmatched := by
  constructor
  · rintro ⟨parts, result, h, rfl⟩
    cases h
    rfl
  · rintro rfl
    exact ⟨[], _, .firstNil, rfl⟩

theorem yields_or : Yields setting (.rule (.or rules)) cursor upshot ↔
    Yields setting (.first rules) cursor upshot := by
  constructor
  · rintro ⟨parts, result, h, rfl⟩
    cases h with
    | done h => cases h
    | or h => exact ⟨_, _, h, rfl⟩
  · rintro ⟨parts, result, h, rfl⟩
    exact ⟨_, _, .or h, rfl⟩

namespace Transparent

variable {Plain : T → Prop} (ht : Transparent setting Plain) (hp : Plain cursor.tree)
include ht hp

theorem yields_first_cons : Yields setting (.first (rule :: rules)) cursor upshot ↔
    ∃ first, Yields setting (.rule rule) cursor first ∧
      first.Else (Yields setting (.first rules) cursor) upshot := by
  constructor
  · rintro ⟨parts, result, h, rfl⟩
    cases h with
    | firstStop h ho =>
      rw [← result.outcome_upshot] at ho
      exact ⟨_, ⟨_, _, h, rfl⟩, (Upshot.else_of_ne ho).2 rfl⟩
    | firstOn h ho hn =>
      rw [ht.restored (returns_iff_goes.2 ⟨_, h⟩) hp ho] at hn
      exact ⟨_, ⟨_, _, h, Result.upshot_eq_unmatched.2 ho⟩, _, _, hn, rfl⟩
  · rintro ⟨first, ⟨parts, result, h, rfl⟩, hn⟩
    by_cases ho : result.outcome = .unmatched
    · rw [Result.upshot_eq_unmatched.2 ho] at hn
      obtain ⟨rest, last, hn, rfl⟩ := hn
      rw [← ht.restored (returns_iff_goes.2 ⟨_, h⟩) hp ho] at hn
      exact ⟨_, _, .firstOn h ho hn, rfl⟩
    · have hs := ho
      rw [← result.outcome_upshot] at hs
      exact ⟨_, _, .firstStop h ho, ((Upshot.else_of_ne hs).1 hn).symm⟩

theorem yields_first_append : Yields setting (.first (xs ++ ys)) cursor upshot ↔
    ∃ first, Yields setting (.first xs) cursor first ∧
      first.Else (Yields setting (.first ys) cursor) upshot := by
  induction xs generalizing upshot with
  | nil =>
    simp only [List.nil_append, yields_first_nil, exists_eq_left]
    rfl
  | cons rule xs ih =>
    simp only [List.cons_append, ht.yields_first_cons hp, Upshot.else_assoc]
    exact exists_congr fun first => and_congr_right fun _ => Upshot.else_congr fun _ => ih

theorem yields_first_single : Yields setting (.first [rule]) cursor upshot ↔
    Yields setting (.rule rule) cursor upshot := by
  simp only [ht.yields_first_cons hp, Upshot.else_iff_eq yields_first_nil, exists_eq_right']

theorem plain_of_yields {next : Cursor T}
    (h : Yields setting (.rule rule) cursor (.matched next)) : Plain next.tree := by
  obtain ⟨parts, result, hg, hm⟩ := h
  obtain ⟨ho, rfl⟩ := Result.upshot_eq_matched.1 hm
  exact ht.stays (returns_iff_goes.2 ⟨parts, hg⟩) hp ho

/-- Where a rule matched, to go back is to be at the very same cursor. -/
theorem moveTo_position {result : Result T L M} (h : Returns setting rule cursor result)
    (ho : result.outcome = .matched) : result.cursor.moveTo cursor.position = cursor := by
  obtain ⟨parts, hg⟩ := returns_iff_goes.1 h
  have hn := ht.restored (returns_iff_goes.2 ⟨_, .notAhead hg⟩) hp
  simp only [Result.lookFrom, Result.negate, ho, forall_const] at hn
  exact hn

theorem yields_ahead : Yields setting (.rule (.ahead rule)) cursor upshot ↔
    ∃ first, Yields setting (.rule rule) cursor first ∧ upshot = first.lookFrom cursor := by
  have hl {parts result} (h : Goes setting (.rule rule) cursor parts result) :
      (result.lookFrom cursor.position).upshot = result.upshot.lookFrom cursor := by
    cases ho : result.outcome with
    | matched =>
      have hm := ht.moveTo_position hp (returns_iff_goes.2 ⟨_, h⟩) ho
      rw [Result.upshot_eq_matched.2 ⟨ho, rfl⟩]
      refine Result.upshot_eq_matched.2 ?_
      simp only [Result.lookFrom, ho]
      exact ⟨trivial, hm⟩
    | unmatched =>
      rw [Result.upshot_eq_unmatched.2 ho, Result.upshot_eq_unmatched.2]
      · rfl
      · simp only [Result.lookFrom, ho]
    | failed | faulted => simp only [Result.lookFrom, Result.upshot, ho, Upshot.lookFrom]
  constructor
  · rintro ⟨parts, result, h, rfl⟩
    cases h with
    | done h => cases h
    | ahead h => exact ⟨_, ⟨_, _, h, rfl⟩, hl h⟩
  · rintro ⟨first, ⟨parts, result, h, rfl⟩, rfl⟩
    exact ⟨_, _, .ahead h, hl h⟩

/-- With the same upshot, the results are the very same but for the events. -/
theorem replacedBy (h : ∀ upshot, Yields setting (.rule rule) cursor upshot →
      Yields setting (.rule rule') cursor upshot) : ReplacedBy setting Eq rule rule' cursor := by
  intro result hr
  obtain ⟨parts, hg⟩ := returns_iff_goes.1 hr
  obtain ⟨parts', other, hg', he⟩ := h _ ⟨parts, result, hg, rfl⟩
  have hr' := returns_iff_goes.2 ⟨parts', hg'⟩
  exact ⟨other, hr', Result.like_of_upshot (ht.restored hr hp) (ht.restored hr' hp) he⟩

theorem coincide (h : ∀ upshot, Yields setting (.rule rule) cursor upshot ↔
      Yields setting (.rule rule') cursor upshot) : Coincide setting Eq rule rule' cursor :=
  ⟨ht.replacedBy hp fun upshot => (h upshot).1, ht.replacedBy hp fun upshot => (h upshot).2⟩

end Transparent

end Matching

end Peg
