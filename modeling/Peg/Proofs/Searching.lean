import Peg.Proofs.Equations
import Peg.Proofs.Scanning
import Peg.Sample.Grammar

/-
  Searching: what comes of looking for a place where a rule matches. A rule is tried where the
  search begins, even at the end of input, and then at each later place before the end. The search
  comes to what the rule comes to at the first place where it does not just fail to match
  (`search_finds_first`). To look for that place without going past it, and then to match the rule
  there, comes to the same.
-/

namespace Peg

/-- The cursor past so many more units. -/
def Cursor.skip {T U : Type} [InputUnit U] (input : Input U) (cursor : Cursor T) :
    Nat → Cursor T
  | 0 => cursor
  | j + 1 => (cursor.advance input).skip input j

namespace Cursor

variable {T U : Type} [InputUnit U] (input : Input U)

theorem skip_tree (cursor : Cursor T) (j : Nat) : (cursor.skip input j).tree = cursor.tree := by
  induction j generalizing cursor with
  | zero => rfl
  | succ j ih => exact (ih _).trans (advance_tree input cursor)

/-- Where units stand, to skip some of them is to go as far as they extend. -/
theorem skip_eq {us : List U} {offset : Nat} (tree : T) (h : input.Stands offset us) {j : Nat}
    (hj : j ≤ us.length) :
    (⟨offset, tree⟩ : Cursor T).skip input j = ⟨offset + extent (us.take j), tree⟩ := by
  induction us generalizing offset j with
  | nil =>
    obtain rfl : j = 0 := Nat.le_zero.1 hj
    rfl
  | cons u us ih =>
    cases j with
    | zero => rfl
    | succ j =>
      have hn : (⟨offset, tree⟩ : Cursor T).advance input = ⟨offset + extent [u], tree⟩ :=
        advance_of_unitAt? input h.unitAt?_cons
      rw [skip, hn, ih h.tail (Nat.le_of_succ_le_succ hj), add_extent]
      rfl

end Cursor

namespace Matching

section

variable {U L T M : Type} [InputUnit U] [DecidableEq U] [NodeTree T L M] [DecidableEq M]
  {setting : Setting U L} {rule : Rule U L} {cursor : Cursor T} {last : Upshot T M} {j : Nat}

/-! ## Place by place -/

/-- The rule does not match at any of the places before, and the search goes on to the place. -/
def SearchesTo (setting : Setting U L) (rule : Rule U L) (cursor : Cursor T) (j : Nat) : Prop :=
  ∀ i < j, Yields (M := M) setting (.rule rule) (cursor.skip setting.input i) .unmatched ∧
    (cursor.skip setting.input (i + 1)).atEnd setting.input = false

/-- What comes of a search at a place: what comes of the rule, or nothing where the input ends
after the place. -/
def ComesToAt (setting : Setting U L) (rule : Rule U L) (cursor : Cursor T) (j : Nat)
    (last : Upshot T M) : Prop :=
  ∃ first, Yields setting (.rule rule) (cursor.skip setting.input j) first ∧
    first.Else (fun last =>
      (cursor.skip setting.input (j + 1)).atEnd setting.input = true ∧ last = .unmatched) last

theorem searchesTo_succ : SearchesTo (M := M) setting rule cursor (j + 1) ↔
    (Yields (M := M) setting (.rule rule) cursor .unmatched ∧
      (cursor.advance setting.input).atEnd setting.input = false) ∧
    SearchesTo (M := M) setting rule (cursor.advance setting.input) j := by
  constructor
  · exact fun h => ⟨h 0 (Nat.succ_pos j), fun i hi => h (i + 1) (Nat.succ_lt_succ hi)⟩
  · rintro ⟨h, hs⟩ i hi
    cases i with
    | zero => exact h
    | succ i => exact hs i (Nat.lt_of_succ_lt_succ hi)

namespace Transparent

variable {Plain : T → Prop} (ht : Transparent setting Plain)
include ht

theorem scan_comes {task : Task U L M} {parts : List (Course U L T M)} {result : Result T L M}
    {start : Position M} (h : Goes setting task cursor parts result)
    (htask : task = .scan rule start) (hp : Plain cursor.tree) :
    ∃ j, SearchesTo (M := M) setting rule cursor j ∧
      ComesToAt setting rule cursor j result.upshot := by
  induction h with
  | scanStop h ho =>
    cases htask
    rw [← Result.outcome_upshot] at ho
    exact ⟨0, nofun, _, ⟨_, _, h, rfl⟩, (Upshot.else_of_ne ho).2 rfl⟩
  | scanEnd h ho he =>
    cases htask
    rw [ht.restored (returns_iff_goes.2 ⟨_, h⟩) hp ho] at he
    exact ⟨0, nofun, _, ⟨_, _, h, Result.upshot_eq_unmatched.2 ho⟩, he, rfl⟩
  | @scanOn _ _ cursor _ result _ _ h ho he _ _ ihn =>
    cases htask
    have hc := ht.restored (returns_iff_goes.2 ⟨_, h⟩) hp ho
    rw [hc] at he ihn
    obtain ⟨j, hs, hl⟩ := ihn rfl (by rwa [Cursor.advance_tree])
    exact ⟨j + 1, searchesTo_succ.2 ⟨⟨⟨_, _, h, Result.upshot_eq_unmatched.2 ho⟩, he⟩, hs⟩, hl⟩
  | _ => cases htask

theorem comes_scan (start : Position M) (hp : Plain cursor.tree)
    (hs : SearchesTo (M := M) setting rule cursor j) (h : ComesToAt setting rule cursor j last) :
    Yields setting (.scan rule start) cursor last := by
  induction j generalizing cursor with
  | zero =>
    obtain ⟨first, ⟨parts, result, hg, rfl⟩, hl⟩ := h
    by_cases ho : result.outcome = .unmatched
    · rw [Result.upshot_eq_unmatched.2 ho] at hl
      obtain ⟨he, rfl⟩ := hl
      have hc := ht.restored (returns_iff_goes.2 ⟨_, hg⟩) hp ho
      exact ⟨_, _, .scanEnd hg ho (by rw [hc]; exact he), rfl⟩
    · have hne := ho
      rw [← Result.outcome_upshot] at hne
      exact ⟨_, _, .scanStop hg ho, ((Upshot.else_of_ne hne).1 hl).symm⟩
  | succ j ih =>
    obtain ⟨⟨⟨parts, result, hg, hu⟩, he⟩, hs⟩ := searchesTo_succ.1 hs
    have ho := Result.upshot_eq_unmatched.1 hu
    have hc := ht.restored (returns_iff_goes.2 ⟨_, hg⟩) hp ho
    obtain ⟨rest, result', hn, rfl⟩ := ih (by rwa [Cursor.advance_tree]) hs h
    rw [← hc] at hn he
    exact ⟨_, _, .scanOn hg ho he hn, rfl⟩

/-- A search comes to what comes of it at the place to which it goes on. -/
theorem yields_untilPast (cursor : Cursor T) (hp : Plain cursor.tree) :
    Yields setting (.rule (.untilPast rule)) cursor last ↔
      ∃ j, SearchesTo (M := M) setting rule cursor j ∧ ComesToAt setting rule cursor j last := by
  constructor
  · rintro ⟨parts, result, h, rfl⟩
    cases h with
    | done h => cases h
    | untilPast h => exact ht.scan_comes h rfl hp
  · rintro ⟨j, hs, h⟩
    obtain ⟨parts, result, hg, rfl⟩ := ht.comes_scan cursor.position hp hs h
    exact ⟨_, _, .untilPast hg, rfl⟩

/-- To look for a place is to search for it, and what comes of it is back at the place. -/
theorem comes_ahead (hp : Plain cursor.tree) :
    (∃ upshot, ComesToAt setting (.ahead rule) cursor j upshot ∧
      upshot.Then (Yields setting (.rule rule)) last) ↔ ComesToAt setting rule cursor j last := by
  have hp : Plain (cursor.skip setting.input j).tree := by rwa [Cursor.skip_tree]
  constructor
  · rintro ⟨upshot, ⟨looked, hlooked, hu⟩, hl⟩
    obtain ⟨first, hf, rfl⟩ := (ht.yields_ahead hp).1 hlooked
    refine ⟨first, hf, ?_⟩
    cases first with
    | matched =>
      cases hu
      exact hf.unique hl
    | unmatched =>
      obtain ⟨he, rfl⟩ := hu
      exact ⟨he, hl⟩
    | failed | faulted =>
      cases hu
      exact hl
  · rintro ⟨first, hf, hl⟩
    have hlooked := (ht.yields_ahead hp).2 ⟨first, hf, rfl⟩
    cases first with
    | matched =>
      cases hl
      exact ⟨_, ⟨_, hlooked, rfl⟩, hf⟩
    | unmatched => exact ⟨_, ⟨_, hlooked, hl.1, rfl⟩, hl.2⟩
    | failed | faulted => exact ⟨_, ⟨_, hlooked, rfl⟩, hl⟩

theorem searchesTo_ahead (hp : Plain cursor.tree) :
    SearchesTo (M := M) setting (.ahead rule) cursor j ↔
      SearchesTo (M := M) setting rule cursor j := by
  have hu (i : Nat) : Yields (M := M) setting (.rule (.ahead rule))
      (cursor.skip setting.input i) .unmatched ↔
        Yields (M := M) setting (.rule rule) (cursor.skip setting.input i) .unmatched := by
    rw [ht.yields_ahead (by rwa [Cursor.skip_tree])]
    constructor
    · rintro ⟨first, hf, he⟩
      cases first with
      | unmatched => exact hf
      | matched | failed | faulted => cases he
    · exact fun hf => ⟨_, hf, rfl⟩
  simp only [SearchesTo, hu]

end Transparent

end

/-- To search for a rule is to look for a place for it, and then to match it there. -/
theorem Equivalent.search {U L : Type} [InputUnit U] [DecidableEq U] {setting : Setting U L}
    (rule : Rule U L) : Equivalent setting (.untilPast rule) (.seq [.untilAt rule, rule]) := by
  intro T M _ _ Plain ht cursor hp last
  rw [ht.yields_untilPast _ hp, yields_pair]
  constructor
  · rintro ⟨j, hs, h⟩
    obtain ⟨upshot, hu, hl⟩ := (ht.comes_ahead hp).2 h
    exact ⟨upshot, (ht.yields_untilPast _ hp).2 ⟨j, (ht.searchesTo_ahead hp).2 hs, hu⟩, hl⟩
  · rintro ⟨upshot, hu, hl⟩
    obtain ⟨j, hs, hu⟩ := (ht.yields_untilPast _ hp).1 hu
    exact ⟨j, (ht.searchesTo_ahead hp).1 hs, (ht.comes_ahead hp).1 ⟨upshot, hu, hl⟩⟩

/-! ## The first place -/

section

variable {U L T M : Type} [InputUnit U] [DecidableEq U] [NodeTree T L M] [DecidableEq M]
  {setting : Setting U L} {rule : Rule U L} {cursor : Cursor T}

/-- The rule returns at the cursor, and does not match. -/
def Absent (setting : Setting U L) (rule : Rule U L) (cursor : Cursor T) : Prop :=
  ∃ result, Returns setting rule cursor result ∧ result.outcome = .unmatched

theorem absent_iff : Absent setting rule cursor ↔
    Yields (M := M) setting (.rule rule) cursor .unmatched := by
  constructor
  · rintro ⟨result, h, ho⟩
    obtain ⟨parts, hg⟩ := returns_iff_goes.1 h
    exact ⟨parts, result, hg, Result.upshot_eq_unmatched.2 ho⟩
  · rintro ⟨parts, result, hg, hu⟩
    exact ⟨result, returns_iff_goes.2 ⟨parts, hg⟩, Result.upshot_eq_unmatched.1 hu⟩

/-- The search at the offset comes to what the rule comes to at the first of so many places where
it does not just fail to match, and to where it began if there is no such place. The first place
counts even if there are none. -/
structure FindsFirst (setting : Setting U L) (Same : T → T → Prop) (rule : Rule U L)
    (offset : Nat) (place : Nat → Nat) (count : Nat) (tree : T) : Prop where
  found : ∀ j result, j = 0 ∨ j < count → (∀ i < j, Absent setting rule ⟨place i, tree⟩) →
    Returns setting rule ⟨place j, tree⟩ result → result.outcome ≠ .unmatched →
      ∃ other, Returns setting (.untilPast rule) ⟨offset, tree⟩ other ∧ result.Like Same other
  missing : (∀ j, j = 0 ∨ j < count → Absent setting rule ⟨place j, tree⟩) →
    ∃ other, Returns setting (.untilPast rule) ⟨offset, tree⟩ other ∧
      other.outcome = .unmatched ∧ other.cursor.offset = offset ∧ Same tree other.cursor.tree
  only : ∀ other, Returns setting (.untilPast rule) ⟨offset, tree⟩ other →
    (∀ j, j = 0 ∨ j < count → Absent setting rule ⟨place j, tree⟩) ∨
      ∃ j result, (j = 0 ∨ j < count) ∧ (∀ i < j, Absent setting rule ⟨place i, tree⟩) ∧
        Returns setting rule ⟨place j, tree⟩ result ∧ result.outcome ≠ .unmatched

theorem FindsFirst.mono {Same Same' : T → T → Prop} {offset count : Nat} {place : Nat → Nat}
    {tree : T} (h : FindsFirst setting Same rule offset place count tree)
    (hs : ∀ {t u}, Same t u → Same' t u) :
    FindsFirst setting Same' rule offset place count tree where
  found j result hj hbefore hr ho := by
    obtain ⟨other, hr', hl⟩ := h.found j result hj hbefore hr ho
    exact ⟨other, hr', hl.mono hs⟩
  missing ha := by
    obtain ⟨other, hr, ho, hoff, ht⟩ := h.missing ha
    exact ⟨other, hr, ho, hoff, hs ht⟩
  only := h.only

/-- These are the places of a search: the last of them is where the next would be at the end. -/
structure Places (input : Input U) (offset : Nat) (place : Nat → Nat) (count : Nat) (tree : T) :
    Prop where
  skip_eq : ∀ j, j = 0 ∨ j < count → (⟨offset, tree⟩ : Cursor T).skip input j = ⟨place j, tree⟩
  atEnd_iff : ∀ j, j = 0 ∨ j < count →
    (((⟨offset, tree⟩ : Cursor T).skip input (j + 1)).atEnd input = true ↔ count ≤ j + 1)

section

variable {offset count : Nat} {place : Nat → Nat} {tree : T} {Plain : T → Prop}
  (hplaces : Places setting.input offset place count tree)
include hplaces

theorem Places.yields_unmatched {j : Nat} (hj : j = 0 ∨ j < count)
    (h : Absent setting rule ⟨place j, tree⟩) : Yields (M := M) setting (.rule rule)
      ((⟨offset, tree⟩ : Cursor T).skip setting.input j) .unmatched := by
  rw [hplaces.skip_eq j hj]
  exact absent_iff.1 h

/-- A search goes on through places where the rule does not match. -/
theorem Places.searchesTo {j : Nat} (hj : j = 0 ∨ j < count)
    (h : ∀ i < j, Absent setting rule ⟨place i, tree⟩) :
    SearchesTo (M := M) setting rule (⟨offset, tree⟩ : Cursor T) j := by
  intro i hi
  have hv : i = 0 ∨ i < count := by omega
  refine ⟨hplaces.yields_unmatched hv (h i hi), ?_⟩
  rw [← Bool.not_eq_true, hplaces.atEnd_iff i hv]
  omega

theorem Places.of_searchesTo {j : Nat}
    (h : SearchesTo (M := M) setting rule (⟨offset, tree⟩ : Cursor T) j) : j = 0 ∨ j < count := by
  induction j with
  | zero => exact Or.inl rfl
  | succ j ih =>
    have hv := ih fun i hi => h i (by omega)
    have he := (h j (Nat.lt_succ_self j)).2
    rw [← Bool.not_eq_true, hplaces.atEnd_iff j hv] at he
    omega

theorem Transparent.findsFirst (ht : Transparent setting Plain) (hp : Plain tree) :
    FindsFirst setting Eq rule offset place count tree where
  found j result hj hbefore hr ho := by
    obtain ⟨parts, hg⟩ := returns_iff_goes.1 hr
    have hne := ho
    rw [← Result.outcome_upshot] at hne
    have hc : ComesToAt setting rule ⟨offset, tree⟩ j result.upshot := by
      refine ⟨result.upshot, ?_, (Upshot.else_of_ne hne).2 rfl⟩
      rw [hplaces.skip_eq j hj]
      exact ⟨parts, result, hg, rfl⟩
    obtain ⟨parts', other, hg', hu⟩ := (ht.yields_untilPast ⟨offset, tree⟩ hp).2
      ⟨j, hplaces.searchesTo hj hbefore, hc⟩
    have hr' := returns_iff_goes.2 ⟨parts', hg'⟩
    exact ⟨other, hr', Result.like_of_upshot (fun hx => absurd hx ho) (ht.restored hr' hp) hu⟩
  missing h := by
    have hj : count - 1 = 0 ∨ count - 1 < count := by omega
    have hc : ComesToAt setting rule ⟨offset, tree⟩ (count - 1) (.unmatched : Upshot T M) := by
      refine ⟨.unmatched, hplaces.yields_unmatched hj (h _ hj), ?_, rfl⟩
      rw [hplaces.atEnd_iff _ hj]
      omega
    obtain ⟨parts, other, hg, hu⟩ := (ht.yields_untilPast ⟨offset, tree⟩ hp).2
      ⟨count - 1, hplaces.searchesTo hj fun i hi => h i (by omega), hc⟩
    have hr := returns_iff_goes.2 ⟨parts, hg⟩
    have ho := Result.upshot_eq_unmatched.1 hu
    have hcursor := ht.restored hr hp ho
    exact ⟨other, hr, ho, congrArg Cursor.offset hcursor, congrArg Cursor.tree hcursor.symm⟩
  only other hr := by
    obtain ⟨parts, hg⟩ := returns_iff_goes.1 hr
    obtain ⟨j, hs, first, hf, hl⟩ :=
      (ht.yields_untilPast ⟨offset, tree⟩ hp).1 ⟨parts, other, hg, rfl⟩
    have hj := hplaces.of_searchesTo hs
    have hbefore : ∀ i < j, Absent setting rule ⟨place i, tree⟩ := by
      intro i hi
      have hu := (hs i hi).1
      rw [hplaces.skip_eq i (by omega)] at hu
      exact absent_iff.2 hu
    rw [hplaces.skip_eq j hj] at hf
    obtain ⟨parts', result, hg', rfl⟩ := hf
    have hr' := returns_iff_goes.2 ⟨parts', hg'⟩
    by_cases ho : result.outcome = .unmatched
    · rw [Result.upshot_eq_unmatched.2 ho] at hl
      have hlast := (hplaces.atEnd_iff j hj).1 hl.1
      refine Or.inl fun i hi => ?_
      rcases Nat.lt_or_ge i j with hlt | hge
      · exact hbefore i hlt
      · obtain rfl : i = j := by omega
        exact ⟨result, hr', ho⟩
    · exact Or.inr ⟨j, result, hj, hbefore, hr', ho⟩

end

omit [DecidableEq U] in
theorem Places.of_stands {input : Input U} {offset : Nat} {us : List U}
    (h : input.Stands offset us) (tree : T) :
    Places input offset (fun j => offset + extent (us.take j)) us.length tree where
  skip_eq j hj := Cursor.skip_eq input tree h (by omega)
  atEnd_iff j hj := by
    unfold Cursor.atEnd
    rw [decide_eq_true_iff]
    rcases Nat.lt_or_ge j us.length with hlt | hge
    · have hj : j + 1 ≤ us.length := hlt
      rw [Cursor.skip_eq input tree h hj]
      have hrest := h
      rw [← List.take_append_drop (j + 1) us] at hrest
      have hlength := hrest.drop.length_eq
      constructor
      · intro hle
        by_contra hn
        have hpos : 0 < extent (us.drop (j + 1)) := extent_pos (by simp; omega)
        dsimp only at hle
        omega
      · intro hle
        rw [List.drop_eq_nil_of_le hle] at hlength
        exact Nat.le_of_eq hlength
    · obtain rfl : us = [] := List.length_eq_zero_iff.1 (by omega)
      obtain rfl : j = 0 := by simpa using hj
      have he : ((⟨offset, tree⟩ : Cursor T).skip input 1).offset = offset :=
        (Cursor.advance_offset input _).trans h.next_nil
      rw [he]
      exact ⟨fun _ => Nat.zero_le _, fun _ => h.length_le⟩

end

/-- What a search finds on a plain tree, it finds on the trees that are like it. -/
theorem Likeness.findsFirst {U L T M : Type} [InputUnit U] [DecidableEq U] [NodeTree T L M]
    [DecidableEq M] {setting : Setting U L} {rule : Rule U L} {offset count : Nat}
    {place : Nat → Nat} {tree plain : T} {Rel : T → T → Prop} {Plain : T → Prop}
    (hl : Likeness setting Rel Plain) (hs : Rel tree plain)
    (h : FindsFirst setting Eq rule offset place count plain) :
    FindsFirst setting (Relation.Join Rel) rule offset place count tree := by
  have forth {j} (ha : Absent setting rule ⟨place j, tree⟩) :
      Absent setting rule ⟨place j, plain⟩ := by
    obtain ⟨result, hr, ho⟩ := ha
    obtain ⟨other, hr', hlike⟩ := hl.forth hr hs
    exact ⟨other, hr', hlike.outcome_eq.trans ho⟩
  have back {j} (ha : Absent setting rule ⟨place j, plain⟩) :
      Absent setting rule ⟨place j, tree⟩ := by
    obtain ⟨other, hr, ho⟩ := ha
    obtain ⟨result, hr', hlike⟩ := hl.back hr hs
    exact ⟨result, hr', hlike.outcome_eq.symm.trans ho⟩
  constructor
  · intro j result hj hbefore hr ho
    obtain ⟨there, hr', hlike⟩ := hl.forth hr hs
    obtain ⟨found, hf, heq⟩ := h.found j there hj (fun i hi => forth (hbefore i hi)) hr'
      (by rwa [hlike.outcome_eq])
    obtain ⟨other, hr, hlike'⟩ := hl.back hf hs
    exact ⟨other, hr, hlike.join heq hlike'⟩
  · intro ha
    obtain ⟨found, hf, ho, hoff, htree⟩ := h.missing fun j hj => forth (ha j hj)
    obtain ⟨other, hr, hlike⟩ := hl.back hf hs
    exact ⟨other, hr, hlike.outcome_eq.symm.trans ho, hlike.offset_eq.symm.trans hoff, plain, hs,
      htree ▸ hlike.tree⟩
  · intro other hr
    obtain ⟨found, hf, -⟩ := hl.forth hr hs
    rcases h.only found hf with ha | ⟨j, there, hj, hbefore, hr, ho⟩
    · exact Or.inl fun j hj => back (ha j hj)
    · obtain ⟨result, hr', hlike⟩ := hl.back hr hs
      rw [hlike.outcome_eq] at ho
      exact Or.inr ⟨j, result, hj, fun i hi => back (hbefore i hi), hr', ho⟩

end Matching

/-- The same nodes with the same one innermost open, and the same trail but for the labels that
were left, which may be gone from the front of either. -/
def SameButLeft {L : Type} (left : List L) (tree other : TrailTree L) : Prop :=
  other.arena = tree.arena ∧ ∃ trail, (tree.trail = trail ∨ tree.trail = left ++ trail) ∧
    (other.trail = trail ∨ other.trail = left ++ trail)

theorem sameButLeft_nil {L : Type} {tree other : TrailTree L} :
    SameButLeft [] tree other ↔ tree = other := by
  unfold SameButLeft
  obtain ⟨arena, trail⟩ := tree
  obtain ⟨arena', trail'⟩ := other
  simp only [List.nil_append, or_self, exists_eq_left', TrailTree.mk.injEq]
  exact and_congr eq_comm eq_comm

namespace Matching

variable {U L : Type} [InputUnit U] [DecidableEq U] [DecidableEq L]

end Matching

end Peg
