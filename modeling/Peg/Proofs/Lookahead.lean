import Peg.Proofs.Forest
import Peg.Proofs.History
import Peg.Proofs.Storing
import Peg.Proofs.Trace
import Peg.Proofs.Upshot

/-
  Lookahead: to look whether a rule matches, or does not, tells what the rule comes to and leaves
  offset, nodes and open nodes as they were; only a hard failure in a look leaves what the rule
  left. So what a match records comes from the matches outside of all looks that matched and were
  not undone (`Course.kept`): one node for each of them that is of a stored rule, in the order in
  which they were begun.
-/

namespace Peg

/-- Whether the rule only looks whether another one matches. -/
def Rule.looks {U L : Type} : Rule U L → Bool
  | .ahead _ | .notAhead _ => true
  | _ => false

/-- That a rule matches, or that it does not. -/
def Outcome.ok {P : Type} : Bool → Outcome P
  | true => matched
  | false => unmatched

/-! ## Nodes that are added -/

namespace Arena

variable {S L : Type} [Slots S L]

/-- The nodes stand after those of the first, which are unchanged, and the same node is innermost
open. -/
structure Adds (before : Arena S) (nodes : List (Node L)) (after : Arena S) : Prop where
  innermost_eq : after.innermost = before.innermost
  size_eq : after.size = before.size + nodes.length
  kept : ∀ i < before.size, after.get? i = before.get? i
  added : ∀ i < nodes.length, after.get? (before.size + i) = nodes[i]?

namespace Adds

variable {a b c d : Arena S} {xs ys nodes : List (Node L)}

theorem nil (hab : a.Grown b) (hba : b.Grown a) : a.Adds [] b where
  innermost_eq := hab.innermost_eq
  size_eq := Nat.le_antisymm hba.size_le hab.size_le
  kept := hab.get?_eq
  added := nofun

theorem append (hx : a.Adds xs b) (hy : b.Adds ys c) : a.Adds (xs ++ ys) c where
  innermost_eq := hy.innermost_eq.trans hx.innermost_eq
  size_eq := by
    rw [hy.size_eq, hx.size_eq, List.length_append, Nat.add_assoc]
  kept i hi := by
    have := hx.size_eq
    rw [hy.kept i (by omega), hx.kept i hi]
  added i hi := by
    have hs := hx.size_eq
    rw [List.length_append] at hi
    by_cases hlt : i < xs.length
    · rw [List.getElem?_append_left hlt, ← hx.added i hlt]
      exact hy.kept _ (by omega)
    · have ha := hy.added (i - xs.length) (by omega)
      rw [hs, Nat.add_assoc, Nat.add_sub_cancel' (Nat.le_of_not_lt hlt)] at ha
      rw [ha, List.getElem?_append_right (Nat.le_of_not_lt hlt)]

/-- The nodes are listed after those of the first. -/
theorem toList_eq (h : a.Adds nodes b) : b.toList = a.toList ++ nodes := by
  have hs : Slots.size b.slots = Slots.size a.slots + nodes.length := h.size_eq
  have hkept : (List.range (Slots.size a.slots)).filterMap (Slots.get? b.slots) = a.toList :=
    List.filterMap_congr fun i hi => h.kept i (List.mem_range.1 hi)
  have hadded : (List.range nodes.length).filterMap
      (Slots.get? b.slots ∘ (Slots.size a.slots + ·)) = nodes := by
    refine Eq.trans ?_ (filterMap_getElem? nodes)
    exact List.filterMap_congr fun i hi => h.added i (List.mem_range.1 hi)
  unfold toList Slots.toList
  rw [hs, List.range_add, List.filterMap_append, List.filterMap_map, hkept, hadded]
  rfl

variable [LawfulSlots S] [DecidableEq L] {label : L} {start stop : Nat}

/-- A node that is opened, and completed after some were added, is added before those. -/
theorem stored (ho : a.openNode? label start = some b) (h : b.Adds nodes c)
    (hc : c.complete label stop = .ok d) :
    a.Adds (⟨label, start, stop, a.innermost⟩ :: nodes) d := by
  obtain ⟨hbi, hbs, hbg⟩ := openNode?_eq_some ho
  obtain ⟨i, node, hi, hn, hdi, hds, hdg⟩ := stored_of_complete hc
  obtain rfl : a.size = i := Option.some.inj ((h.innermost_eq.trans hbi).symm.trans hi)
  have hs := h.size_eq
  have hopened : c.get? a.size = some ⟨label, start, start, a.innermost⟩ := by
    rw [h.kept _ (by omega), hbg, if_pos rfl]
  constructor
  · rw [hdi, parent?_of_get? hopened]
  · rw [hds, hs, hbs, List.length_cons]
    omega
  · intro j hj
    rw [hdg, if_neg (by omega), h.kept j (by omega), hbg, if_neg (by omega)]
  · intro j hj
    cases j with
    | zero =>
      rw [Nat.add_zero, hdg, if_pos rfl, hopened]
      rfl
    | succ j =>
      rw [hdg, if_neg (by omega), List.getElem?_cons_succ,
        ← h.added j (Nat.lt_of_succ_lt_succ hj), hbs]
      congr 1
      omega

end Adds

end Arena

namespace Matching

variable {U L T M : Type}

/-! ## The matches outside of all looks -/

mutual

/-- The match itself and all matches it is made of, but for those that a look is made of. -/
def Course.outside : Course U L T M → List (Course U L T M)
  | ⟨rule, cursor, parts, result⟩ =>
    ⟨rule, cursor, parts, result⟩ :: if rule.looks then [] else outsideIn parts

def outsideIn : List (Course U L T M) → List (Course U L T M)
  | [] => []
  | course :: courses => course.outside ++ outsideIn courses

end

mutual

/-- Of the matches outside of all looks, those that were not undone: they matched, and so did all
that they are part of. -/
def Course.kept : Course U L T M → List (Course U L T M)
  | ⟨rule, cursor, parts, result⟩ =>
    match result.outcome with
    | .matched => ⟨rule, cursor, parts, result⟩ :: if rule.looks then [] else keptIn parts
    | _ => []

def keptIn : List (Course U L T M) → List (Course U L T M)
  | [] => []
  | course :: courses => course.kept ++ keptIn courses

end

mutual

theorem Course.kept_sublist : (course : Course U L T M) → course.kept.Sublist course.outside
  | ⟨rule, cursor, parts, result⟩ => by
    rw [Course.kept, Course.outside]
    split
    · refine .cons_cons _ ?_
      split
      · exact .slnil
      · exact keptIn_sublist parts
    · exact List.nil_sublist _

theorem keptIn_sublist : (courses : List (Course U L T M)) →
    (keptIn courses).Sublist (outsideIn courses)
  | [] => by
    rw [keptIn, outsideIn]
  | course :: courses => by
    rw [keptIn, outsideIn]
    exact course.kept_sublist.append (keptIn_sublist courses)

end

theorem keptIn_single (course : Course U L T M) : keptIn [course] = course.kept := by
  rw [keptIn, keptIn, List.append_nil]

theorem Course.kept_of_ne {course : Course U L T M} (ho : course.result.outcome ≠ .matched) :
    course.kept = [] := by
  obtain ⟨rule, cursor, parts, result⟩ := course
  rw [Course.kept]
  split
  · contradiction
  · rfl

theorem Course.kept_of_matched {course : Course U L T M}
    (ho : course.result.outcome = .matched) :
    course.kept = course :: if course.rule.looks then [] else keptIn course.parts := by
  obtain ⟨rule, cursor, parts, result⟩ := course
  rw [Course.kept, ho]

/-- The node of the match if it is of a stored rule, when it is completed. -/
def Course.node? {S : Type} (view : T → Arena S) (course : Course U L T M) : Option (Node L) :=
  match course.rule with
  | .store label _ => some ⟨label, course.cursor.offset, course.result.cursor.offset,
      (view course.cursor.tree).innermost⟩
  | _ => none

/-! ## What a look tells -/

theorem negate_ok {result : Result T L M} {b : Bool} (ho : result.outcome = .ok b) :
    result.negate = { result with outcome := .ok !b } := by
  unfold Result.negate
  rw [ho]
  cases b <;> rfl

theorem negate_failed {result : Result T L M} {failure : HardFailure (Position M)}
    (ho : result.outcome = .failed failure) : result.negate = result := by
  unfold Result.negate
  rw [ho]

theorem lookFrom_ok [NodeTree T L M] {result : Result T L M} {b : Bool} (position : Position M)
    (ho : result.outcome = .ok b) :
    result.lookFrom position = ⟨.ok b, result.cursor.moveTo position, result.events⟩ := by
  rw [← ho]
  unfold Result.lookFrom
  rw [ho]
  cases b <;> rfl

theorem lookFrom_failed [NodeTree T L M] {result : Result T L M}
    {failure : HardFailure (Position M)} (position : Position M)
    (ho : result.outcome = .failed failure) : result.lookFrom position = result := by
  unfold Result.lookFrom
  rw [ho]

section

variable [NodeTree T L M] [LawfulTree T] [InputUnit U] [DecidableEq U] [DecidableEq M]
  {setting : Setting U L} {rule : Rule U L} {cursor : Cursor T} {result : Result T L M}

/-- What the rule comes to is what looks for it tell: that it matches or not, with everything as it
was, or the same hard failure, with everything as the rule left it. -/
structure LooksOnly (setting : Setting U L) (Same : T → T → Prop) (rule : Rule U L)
    (cursor : Cursor T) (result : Result T L M) : Prop where
  sound : ∀ fault, result.outcome ≠ .faulted fault
  ok : ∀ b, result.outcome = .ok b →
    (∃ seen, Returns setting (.ahead rule) cursor seen ∧
      (⟨.ok b, cursor, []⟩ : Result T L M).Like Same seen) ∧
    ∃ denied, Returns setting (.notAhead rule) cursor denied ∧
      (⟨.ok !b, cursor, []⟩ : Result T L M).Like Same denied
  failed : ∀ failure, result.outcome = .failed failure →
    (∃ seen, Returns setting (.ahead rule) cursor seen ∧ result.Like Eq seen) ∧
    ∃ denied, Returns setting (.notAhead rule) cursor denied ∧ result.Like Eq denied

theorem looksOnly {Same : T → T → Prop}
    (hs : ∀ {t u : T}, LawfulTree.Grown t u → LawfulTree.Grown u t → Same t u)
    (h : Returns setting rule cursor result) : LooksOnly setting Same rule cursor result := by
  have hb := returns_balanced h
  obtain ⟨parts, hg⟩ := returns_iff_goes.1 h
  have hseen := returns_iff_goes.2 ⟨_, Goes.ahead hg⟩
  have hdenied := returns_iff_goes.2 ⟨_, Goes.notAhead hg⟩
  refine ⟨hb.sound, fun b ho => ?_, fun failure ho => ?_⟩
  · obtain ⟨hoff, hg, hr⟩ := moveTo_position hb.grown
    rw [lookFrom_ok cursor.position ho] at hseen hdenied
    rw [negate_ok rfl] at hdenied
    exact ⟨⟨_, hseen, rfl, hoff, hs hg hr⟩, _, hdenied, rfl, hoff, hs hg hr⟩
  · rw [lookFrom_failed cursor.position ho] at hseen hdenied
    rw [negate_failed ho] at hdenied
    exact ⟨⟨_, hseen, rfl, rfl, rfl⟩, _, hdenied, rfl, rfl, rfl⟩

end

/-! ## What is recorded -/

/-- The matches of the task that were not undone, with the task itself if it is a rule. -/
def Task.kept : Task U L M → Cursor T → List (Course U L T M) → Result T L M →
    List (Course U L T M)
  | rule r, cursor, parts, result => Course.kept ⟨r, cursor, parts, result⟩
  | _, _, parts, _ => keptIn parts

section

variable {result : Result T L M}

theorem accept_matched (ho : result.accept.outcome = .matched) :
    (result.outcome = .matched ∨ result.outcome = .unmatched) ∧
      result.accept.cursor = result.cursor := by
  unfold Result.accept at ho ⊢
  split at ho
  · rename_i hr
    exact ⟨Or.inr hr, rfl⟩
  · exact ⟨Or.inl ho, rfl⟩

theorem negate_matched (ho : result.negate.outcome = .matched) :
    result.outcome = .unmatched ∧ result.negate.cursor = result.cursor := by
  unfold Result.negate at ho ⊢
  split at ho
  · cases ho
  · rename_i hr
    exact ⟨hr, rfl⟩
  · contradiction

variable [NodeTree T L M]

theorem demand_matched (ho : result.demand.outcome = .matched) :
    result.outcome = .matched ∧ result.demand.cursor = result.cursor := by
  unfold Result.demand at ho ⊢
  split at ho
  · cases ho
  · exact ⟨ho, rfl⟩

theorem backTo_matched {position : Position M} (ho : (result.backTo position).outcome = .matched) :
    result.outcome = .matched ∧ (result.backTo position).cursor = result.cursor := by
  unfold Result.backTo at ho ⊢
  split at ho
  · rename_i hr
    exact absurd (hr.symm.trans ho) nofun
  · exact ⟨ho, rfl⟩

theorem recoverTo_matched {position : Position M}
    (ho : (result.recoverTo position).outcome = .matched) :
    result.outcome = .matched ∧ (result.recoverTo position).cursor = result.cursor := by
  unfold Result.recoverTo at ho ⊢
  split at ho
  · cases ho
  · exact ⟨ho, rfl⟩

theorem closeNode_matched {policy : Policy} {label : L}
    (ho : (result.closeNode policy label).outcome = .matched) : result.outcome = .matched ∧
      result.cursor.complete label = .ok (result.closeNode policy label).cursor := by
  unfold Result.closeNode Result.closing at ho ⊢
  cases hr : result.outcome with
  | matched =>
    rw [hr] at ho
    cases hc : result.cursor.complete label with
    | ok closed => exact ⟨rfl, rfl⟩
    | error fault =>
      rw [hc] at ho
      cases ho
  | unmatched =>
    rw [hr] at ho
    dsimp only at ho
    split at ho <;> cases ho
  | failed failure =>
    rw [hr] at ho
    dsimp only at ho
    split at ho <;> cases ho
  | faulted fault =>
    rw [hr] at ho
    exact absurd (hr.symm.trans ho) nofun

end

section

variable {S : Type} [Slots S L] {view : T → Arena S}

/-- The nodes of the matches are what the tree in the one cursor got to be the tree in the other. -/
def Accounts (view : T → Arena S) (before : Cursor T) (courses : List (Course U L T Mark))
    (after : Cursor T) : Prop :=
  (view before.tree).Adds (courses.filterMap (Course.node? view)) (view after.tree)

namespace Accounts

variable {a b c : Cursor T} {xs ys : List (Course U L T Mark)}

theorem append (hx : Accounts view a xs b) (hy : Accounts view b ys c) :
    Accounts view a (xs ++ ys) c := by
  unfold Accounts
  rw [List.filterMap_append]
  exact Arena.Adds.append hx hy

/-- What a match that is not of a stored rule adds is what its parts add. -/
theorem whole {course : Course U L T Mark} (ho : course.result.outcome = .matched)
    (hl : course.rule.looks = false) (hn : course.node? view = none)
    (h : Accounts view a (keptIn course.parts) b) : Accounts view a course.kept b := by
  unfold Accounts
  rw [Course.kept_of_matched ho, hl, List.filterMap_cons_none hn]
  exact h

/-- A match of a stored rule adds its own node before what its parts add. -/
theorem stored {course : Course U L T Mark} {node : Node L}
    (ho : course.result.outcome = .matched) (hl : course.rule.looks = false)
    (hn : course.node? view = some node)
    (h : (view a.tree).Adds (node :: (keptIn course.parts).filterMap (Course.node? view))
      (view b.tree)) : Accounts view a course.kept b := by
  unfold Accounts
  rw [Course.kept_of_matched ho, hl, List.filterMap_cons_some hn]
  exact h

/-- A look adds nothing, whatever it is made of. -/
theorem look {course : Course U L T Mark} (ho : course.result.outcome = .matched)
    (hl : course.rule.looks = true) (hn : course.node? view = none)
    (h : Accounts view a ([] : List (Course U L T Mark)) b) : Accounts view a course.kept b := by
  unfold Accounts
  rw [Course.kept_of_matched ho, if_pos hl, List.filterMap_cons_none hn]
  exact h

end Accounts

variable [NodeTree T L Mark] [InputUnit U] [DecidableEq U] {setting : Setting U L}

omit [Slots S L] in
/-- A rule with no part to try neither looks nor is it stored, if it matches. -/
theorem plain_of_done (view : T → Arena S) {rule : Rule U L} {cursor : Cursor T}
    {result : Result T L Mark} (h : atOnce? setting rule cursor = some result)
    (ho : result.outcome = .matched) :
    rule.looks = false ∧ Course.node? view ⟨rule, cursor, [], result⟩ = none := by
  cases rule with
  | ahead | notAhead => cases h
  | store label rule =>
    simp only [atOnce?, step] at h
    split at h
    · cases h
    · cases h
      cases ho
  | _ => exact ⟨rfl, rfl⟩

variable [LawfulTree T]

omit [InputUnit U] [DecidableEq U] in
/-- No match is needed where nothing was added. -/
theorem Accounts.same (hg : ∀ {t u : T}, LawfulTree.Grown t u → (view t).Grown (view u))
    {a b : Cursor T} (hab : LawfulTree.Grown a.tree b.tree)
    (hba : LawfulTree.Grown b.tree a.tree) :
    Accounts view a ([] : List (Course U L T Mark)) b :=
  .nil (hg hab) (hg hba)

/-- A part that does not match was undone, and added nothing. -/
theorem Accounts.part (hg : ∀ {t u : T}, LawfulTree.Grown t u → (view t).Grown (view u))
    {rule : Rule U L} {cursor : Cursor T} {parts : List (Course U L T Mark)}
    {result : Result T L Mark} (h : Goes setting (.rule rule) cursor parts result)
    (ih : result.outcome = .matched →
      Accounts view cursor (Course.kept ⟨rule, cursor, parts, result⟩) result.cursor)
    (ho : result.outcome = .matched ∨ result.outcome = .unmatched) :
    Accounts view cursor (Course.kept ⟨rule, cursor, parts, result⟩) result.cursor := by
  rcases ho with ho | ho
  · exact ih ho
  · have hb := goes_balanced h
    rw [Course.kept_of_ne (by rw [ho]; exact nofun)]
    exact .same hg hb.grown (hb.restored ho).2

variable [LawfulSlots S] [DecidableEq L] (hv : Script.ArenaIn view)
  (hg : ∀ {t u : T}, LawfulTree.Grown t u → (view t).Grown (view u))
include hv hg

/-- What a task that matches adds is what the matches add that were not undone. -/
theorem goes_accounts {task : Task U L Mark} {cursor : Cursor T}
    {parts : List (Course U L T Mark)} {result : Result T L Mark}
    (h : Goes setting task cursor parts result) (ho : result.outcome = .matched) :
    Accounts view cursor (task.kept cursor parts result) result.cursor := by
  have single {rule : Rule U L} {cursor parts result}
      (h : Goes setting (.rule rule) cursor parts result)
      (ih : result.outcome = .matched → Accounts view cursor
        (Course.kept ⟨rule, cursor, parts, result⟩) result.cursor)
      (ho : result.outcome = .matched ∨ result.outcome = .unmatched) :
      Accounts view cursor (keptIn [⟨rule, cursor, parts, result⟩]) result.cursor := by
    rw [keptIn_single]
    exact .part hg h ih ho
  induction h with
  | @done rule cursor result h =>
    have hc : Accounts view cursor ([] : List (Course U L T Mark)) result.cursor := by
      rcases done_cases h with ⟨offset, -, rfl⟩ | ⟨events, rfl⟩ | rfl | rfl
      · exact .same hg (LawfulTree.grown_refl _) (LawfulTree.grown_refl _)
      · cases ho
      · cases ho
      · cases ho
    obtain ⟨hl, hn⟩ := plain_of_done view h ho
    exact .whole ho hl hn hc
  | seq h ih | times h ih =>
    obtain ⟨hr, hc⟩ := backTo_matched ho
    refine .whole ho rfl rfl ?_
    rw [hc]
    exact ih hr
  | or h ih | star h ih | untilPast h ih => exact .whole ho rfl rfl (ih ho)
  | plusStop h hne ih => exact absurd ho hne
  | plusOn h hr hn ih ihn => exact .whole ho rfl rfl (.append (ih hr) (ihn ho))
  | opt he h ih =>
    obtain ⟨hr, hc⟩ := accept_matched ho
    refine .whole ho rfl rfl ?_
    rw [hc]
    exact single h ih hr
  | ahead h ih =>
    -- Whatever the rule recorded inside is gone with the tree back at where it was.
    have hb := goes_balanced h
    obtain ⟨-, hca, hac⟩ := moveTo_position hb.grown
    refine .look ho rfl rfl ?_
    rcases lookFrom_cases hb.toGrows with ⟨failure, hr, he⟩ | ⟨-, -, hc⟩
    · rw [he, hr] at ho
      cases ho
    · rw [hc]
      exact .same hg hca hac
  | notAhead h ih =>
    obtain ⟨hr, hc⟩ := negate_matched ho
    have hb := Balanced.lookFrom (goes_balanced h).toGrows
    refine .look ho rfl rfl ?_
    rw [hc]
    exact .same hg hb.grown (hb.restored hr).2
  | mandatory h ih =>
    obtain ⟨hr, hc⟩ := demand_matched ho
    refine .whole ho rfl rfl ?_
    rw [hc]
    exact single h ih (Or.inl hr)
  | recover h ih =>
    obtain ⟨hr, hc⟩ := recoverTo_matched ho
    refine .whole ho rfl rfl ?_
    rw [hc]
    exact single h ih (Or.inl hr)
  | @store label rule cursor inside parts result hi h ih =>
    obtain ⟨hr, hc⟩ := closeNode_matched ho
    obtain ⟨opened, ht, rfl⟩ := Option.map_eq_some_iff.1 hi
    obtain ⟨closed, hd, he⟩ := of_map_eq_ok hc
    have hadds := Arena.Adds.stored (hv.openNode? ht) (single h ih (Or.inl hr)) (hv.complete hd)
    refine .stored ho rfl rfl ?_
    rw [he]
    exact hadds
  | ref hi h ih | counted h ih => exact .whole ho rfl rfl (single h ih (Or.inl ho))
  | eachNil | greedyEnd => exact .same hg (LawfulTree.grown_refl _) (LawfulTree.grown_refl _)
  | eachStop h hne ih => exact absurd ho hne
  | eachOn h hr hn ih ihn | greedyOn he h hr hp hn ih ihn => exact .append (ih hr) (ihn ho)
  | firstNil | scanEnd => cases ho
  | firstStop h hne ih | greedyStill he h hr hp ih | scanStop h hne ih =>
    exact single h ih (Or.inl ho)
  | firstOn h hr hn ih ihn => exact .append (.part hg h ih (Or.inr hr)) (ihn ho)
  | greedyStop he h hne ih =>
    obtain ⟨hr, hc⟩ := accept_matched ho
    rw [hc]
    exact single h ih hr
  | scanOn h hr he hn ih ihn =>
    have hn := ihn ho
    unfold Accounts at hn
    rw [Cursor.advance_tree] at hn
    exact .append (.part hg h ih (Or.inr hr)) hn

/-- What a match adds that is settled is one node for each match of a stored rule, outside of all
looks, that was not undone. They are listed in the order in which these matches were begun. -/
structure AddsOutside (setting : Setting U L) (view : T → Arena S) (rule : Rule U L)
    (cursor : Cursor T) (result : Result T L Mark) (course : Course U L T Mark) : Prop
    extends Course.Traces setting rule cursor result course where
  outside : course.kept.Sublist course.outside
  adds : (view cursor.tree).Adds (course.kept.filterMap (Course.node? view))
    (view result.cursor.tree)
  listed : (view result.cursor.tree).toList =
    (view cursor.tree).toList ++ course.kept.filterMap (Course.node? view)

theorem addsOutside {rule : Rule U L} {cursor : Cursor T} {result : Result T L Mark} {b : Bool}
    (h : Returns setting rule cursor result) (ho : result.outcome = .ok b) :
    ∃ course, AddsOutside setting view rule cursor result course := by
  obtain ⟨parts, h⟩ := returns_iff_goes.1 h
  have hadds : Accounts view cursor (Course.kept ⟨rule, cursor, parts, result⟩) result.cursor := by
    refine .part hg h (goes_accounts hv hg h) ?_
    cases b with
    | true => exact Or.inl ho
    | false => exact Or.inr ho
  exact ⟨_, h.traces, Course.kept_sublist _, hadds, hadds.toList_eq⟩

end

section

variable {U L : Type} [InputUnit U] [DecidableEq U] [DecidableEq L]

/-- On every kind of tree, whatever nodes are stored and open in it, a look tells what the rule
comes to and leaves everything as it was, or fails as the rule does. Among the nodes that a match
leaves there is none from inside a look. -/
theorem looks_are_pure (setting : Setting U L) (rule : Rule U L) :
    (∀ (cursor : Cursor (TrailTree L)) (result : Result (TrailTree L) L Mark),
      Returns setting rule cursor result →
        LooksOnly setting (fun t u => t.arena.Restored u.arena) rule cursor result ∧
        ∀ b, result.outcome = .ok b →
          ∃ course, AddsOutside setting TrailTree.arena rule cursor result course) ∧
    (∀ (S : Type) [Slots S L] [LawfulSlots S] (cursor : Cursor (Arena S))
      (result : Result (Arena S) L Mark), Returns setting rule cursor result →
        LooksOnly setting Arena.Restored rule cursor result ∧
        ∀ b, result.outcome = .ok b →
          ∃ course, AddsOutside setting (fun tree => tree) rule cursor result course) ∧
    (∀ (cursor : Cursor (DepthTree L)) (result : Result (DepthTree L) L Nat),
      Returns setting rule cursor result → LooksOnly setting Eq rule cursor result) := by
  refine ⟨fun cursor result h => ⟨?_, fun b => ?_⟩, fun S _ _ cursor result h => ⟨?_, fun b => ?_⟩,
    fun cursor result h => ?_⟩
  · exact looksOnly Arena.Grown.restored h
  · exact addsOutside Script.arenaIn_trail id h
  · exact looksOnly Arena.Grown.restored h
  · exact addsOutside Script.arenaIn_self id h
  · refine looksOnly (fun {t u} hg _ => ?_) h
    have hg : u.depth = t.depth := hg
    exact congrArg DepthTree.mk hg.symm

/-- Inside an entry, a number without another one after it is looked for, and then a number is
recorded: only that one is kept, with its sign. In a row with room for a number and its sign, to
look for them leaves the entry alone. A key that is mandatory and missing leaves its label in the
trail also when it is only looked for. -/
theorem looks_are_pure_signed :
    let setting : Setting Char Sample.Label := ⟨.ofList ['-', '1', '2'], fun _ => .undefined, .text⟩
    let entry : Node Sample.Label := ⟨.entry, 0, 0, none⟩
    let trail : Cursor (TrailTree Sample.Label) := ⟨0, ⟨#[entry], some 0⟩, []⟩
    let row : Cursor (RowTree Sample.Label) := ⟨0, ⟨#[some entry, none, none], 1⟩, some 0⟩
    let depth : Cursor (DepthTree Sample.Label) := ⟨0, ⟨1⟩⟩
    let number := Sample.numberRule
    let key : Rule Char Sample.Label := .storeMandatory .key .letter
    (∃ result course, AddsOutside setting TrailTree.arena
      (.seq [.ahead (.seq [number, .notAhead number]), number]) trail result course ∧
      result.outcome = .matched ∧ course.kept.filterMap (Course.node? TrailTree.arena) =
        [⟨.number, 0, 3, some 0⟩, ⟨.sign, 0, 1, some 1⟩]) ∧
    (∃ denied, Returns setting (.notAhead number) row denied ∧ denied.outcome = .unmatched ∧
      denied.cursor.tree.toList = [entry]) ∧
    (∃ seen, Returns setting (.ahead number) depth seen ∧ seen.outcome = .matched ∧
      seen.cursor.offset = 0 ∧ seen.cursor.tree = ⟨1⟩) ∧
    ∃ seen, Returns setting (.ahead key) trail seen ∧
      seen.outcome = .failed (.mandatory ⟨0, ⟨2, some 1⟩⟩) ∧
      seen.cursor = ⟨0, ⟨#[entry], some 0⟩, [.key]⟩ := by
  intro setting entry trail row depth number key
  refine ⟨?_, ?_, ?_, ?_⟩
  · let guarded : Rule Char Sample.Label :=
      .seq [.ahead (.seq [number, .notAhead number]), number]
    have h : (run setting 10 guarded trail).map (fun result =>
        (result.outcome, result.cursor.tree.arena.toList)) =
        some (.matched, [entry, ⟨.number, 0, 3, some 0⟩, ⟨.sign, 0, 1, some 1⟩]) := by
      decide +kernel
    obtain ⟨result, hr, heq⟩ := Option.map_eq_some_iff.1 h
    obtain ⟨ho, hlist⟩ := Prod.mk.inj heq
    obtain ⟨course, hadds⟩ := ((looks_are_pure setting guarded).1 trail result ⟨10, hr⟩).2 true ho
    have hnodes : [entry] ++ course.kept.filterMap (Course.node? TrailTree.arena) =
        [entry] ++ [⟨.number, 0, 3, some 0⟩, ⟨.sign, 0, 1, some 1⟩] :=
      hadds.listed.symm.trans hlist
    exact ⟨result, course, hadds, ho, List.append_cancel_left hnodes⟩
  · have h : (run setting 10 number row).map (·.outcome) = some .matched := by decide +kernel
    obtain ⟨result, hr, ho⟩ := Option.map_eq_some_iff.1 h
    obtain ⟨-, denied, hd, hlike⟩ :=
      ((looks_are_pure setting number).2.1 _ row result ⟨10, hr⟩).1.ok true ho
    exact ⟨denied, hd, hlike.outcome_eq, hlike.tree.toList_eq⟩
  · have h : (run setting 10 number depth).map (·.outcome) = some .matched := by decide +kernel
    obtain ⟨result, hr, ho⟩ := Option.map_eq_some_iff.1 h
    obtain ⟨⟨seen, hs, hlike⟩, -⟩ :=
      ((looks_are_pure setting number).2.2 depth result ⟨10, hr⟩).ok true ho
    exact ⟨seen, hs, hlike.outcome_eq, hlike.offset_eq, hlike.tree.symm⟩
  · have h : (run setting 10 key trail).map (fun result => (result.outcome, result.cursor)) =
        some (.failed (.mandatory ⟨0, ⟨2, some 1⟩⟩), ⟨0, ⟨#[entry], some 0⟩, [.key]⟩) := by
      decide +kernel
    obtain ⟨result, hr, heq⟩ := Option.map_eq_some_iff.1 h
    obtain ⟨ho, hc⟩ := Prod.mk.inj heq
    obtain ⟨⟨seen, hs, hlike⟩, -⟩ :=
      ((looks_are_pure setting key).1 trail result ⟨10, hr⟩).1.failed _ ho
    exact ⟨seen, hs, hlike.outcome_eq.trans ho,
      (Cursor.eq_of hlike.offset_eq hlike.tree.symm).trans hc⟩

end

end Matching

end Peg
