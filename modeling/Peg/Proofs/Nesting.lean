import Peg.Proofs.Log
import Peg.Proofs.OpenNodes

/-
  Nesting: which nodes a match has open at the moment a hard failure is raised. Where the failure
  is raised, the nodes opened by the match and not closed yet are those that the log ends with, for
  each of them says so when the failure passes through (`goes_raises`). An array knows these nodes
  (`Arena.OpenedSince`), a counter only their number.
-/

namespace Peg

namespace Arena

variable {S L : Type} [Slots S L]

/-- Going outwards from parent to parent, through the given nodes and up to the last parent. -/
inductive Path (arena : Arena S) : Option Nat → List Nat → Option Nat → Prop
  | nil {stop} : Path arena stop [] stop
  | cons {i ids node stop} (hn : arena.get? i = some node) (h : Path arena node.parent ids stop) :
      Path arena (some i) (i :: ids) stop

namespace Path

variable {arena : Arena S} {start stop : Option Nat} {ids : List Nat}

theorem concat {i : Nat} {node : Node L} (h : Path arena start ids (some i))
    (hn : arena.get? i = some node) : Path arena start (ids ++ [i]) node.parent := by
  generalize hs : some i = stop at h
  induction h with
  | nil =>
    subst hs
    exact .cons hn .nil
  | cons hm _ ih => exact .cons hm (ih hs)

theorem outwards?_eq (h : Path arena start ids stop) (n : Nat) :
    arena.outwards? (ids.length + n) start = (arena.outwards? n stop).map (ids ++ ·) := by
  induction h with
  | nil => simp
  | @cons i ids node stop hn _ ih =>
    have hp : arena.parent? i = node.parent := parent?_of_get? hn
    have hl : (i :: ids).length + n = (ids.length + n) + 1 := by
      rw [List.length_cons]
      omega
    rw [hl, outwards?, hp, ih, Option.map_map]
    rfl

end Path

/-- The chain of parents is seen in the nodes alone. -/
theorem outwards?_congr {S' : Type} [Slots S' L] {arena : Arena S} {other : Arena S'}
    (hg : ∀ i, other.get? i = arena.get? i) (n : Nat) (start : Option Nat) :
    other.outwards? n start = arena.outwards? n start := by
  induction n generalizing start with
  | zero => cases start <;> rfl
  | succ n ih =>
    cases start with
    | none => rfl
    | some i =>
      have hp : other.parent? i = arena.parent? i := by
        unfold parent?
        rw [hg]
      rw [outwards?, outwards?, hp, ih]

theorem outwards?_slots (arena : Arena S) (innermost : Option Nat) (n : Nat) (start : Option Nat) :
    (⟨arena.slots, innermost⟩ : Arena S).outwards? n start = arena.outwards? n start := by
  have hg (i : Nat) : (⟨arena.slots, innermost⟩ : Arena S).get? i = arena.get? i := rfl
  exact outwards?_congr hg n start

/-- Of the nodes that were opened since the first arena, those that are open in the second, from the
innermost outwards, and their labels. If they were closed, the first would have grown. -/
structure OpenedSince (before now : Arena S) (ids : List Nat) (labels : List L) : Prop where
  grown : before.Grown ⟨now.slots, before.innermost⟩
  path : now.Path now.innermost ids before.innermost
  opened : ∀ i ∈ ids, before.size ≤ i
  length_le : before.size + ids.length ≤ now.size
  labels_eq : ids.map (fun i => (now.get? i).map (·.label)) = labels.map some

namespace OpenedSince

theorem of_grown {before now : Arena S} (h : before.Grown now) :
    before.OpenedSince now [] [] where
  grown := ⟨h.size_le, rfl, h.get?_eq⟩
  path := by
    rw [h.innermost_eq]
    exact .nil
  opened := nofun
  length_le := h.size_le
  labels_eq := rfl

theorem grown_trans {a b c : Arena S} {ids : List Nat} {labels : List L} (hab : a.Grown b)
    (h : b.OpenedSince c ids labels) : a.OpenedSince c ids labels where
  grown := by
    refine ⟨Nat.le_trans hab.size_le h.grown.size_le, rfl, fun i hi => ?_⟩
    have hi' : i < b.size := Nat.lt_of_lt_of_le hi hab.size_le
    exact (h.grown.get?_eq i hi').trans (hab.get?_eq i hi)
  path := by
    rw [← hab.innermost_eq]
    exact h.path
  opened i hi := Nat.le_trans hab.size_le (h.opened i hi)
  length_le := by
    have := h.length_le
    have := hab.size_le
    omega
  labels_eq := h.labels_eq

/-- What was opened first is open around what was opened after it. -/
theorem around [LawfulSlots S] {a b c : Arena S} {label : L} {start : Nat} {ids : List Nat}
    {labels : List L} (ho : a.openNode? label start = some b) (h : b.OpenedSince c ids labels) :
    a.OpenedSince c (ids ++ [a.size]) (labels ++ [label]) := by
  obtain ⟨-, hn, hs, hg⟩ := opened_of_grown ho h.grown
  have hn : c.get? a.size = some ⟨label, start, start, a.innermost⟩ := hn
  have hs : a.size < c.size := hs
  have hg : ∀ i < a.size, c.get? i = a.get? i := hg
  obtain ⟨slots, hp, rfl⟩ := Option.map_eq_some_iff.1 ho
  have hb : Slots.size slots = a.size + 1 := LawfulSlots.size_push hp
  refine ⟨⟨Nat.le_of_lt hs, rfl, hg⟩, h.path.concat hn, ?_, ?_, ?_⟩
  · intro i hi
    rcases List.mem_append.1 hi with hi | hi
    · have : Slots.size slots ≤ i := h.opened i hi
      omega
    · simp only [List.mem_singleton] at hi
      omega
  · have : Slots.size slots + ids.length ≤ c.size := h.length_le
    simp only [List.length_append, List.length_singleton]
    omega
  · have hl : (c.get? a.size).map (·.label) = some label := congrArg (Option.map (·.label)) hn
    rw [List.map_append, List.map_append, h.labels_eq, List.map_singleton, hl]
    rfl

theorem length_eq {before now : Arena S} {ids : List Nat} {labels : List L}
    (h : before.OpenedSince now ids labels) : ids.length = labels.length := by
  simpa using congrArg List.length h.labels_eq

/-- The nodes that are open are these and, around them, those that were open before. -/
theorem openNodes?_eq {before now : Arena S} {ids : List Nat} {labels : List L}
    (hw : before.Ordered) (h : before.OpenedSince now ids labels) :
    ∃ outer, before.openNodes? = some outer ∧ now.openNodes? = some (ids ++ outer) := by
  have hlen := h.length_le
  obtain ⟨n, hn⟩ : ∃ n, now.size + 1 = ids.length + n := ⟨now.size + 1 - ids.length, by omega⟩
  have hpath := h.path.outwards?_eq n
  unfold openNodes?
  rw [hn, hpath]
  cases hi : before.innermost with
  | none => exact ⟨[], by simp [outwards?]⟩
  | some i =>
    have hlt : i < before.size := hw.innermost_lt i hi
    obtain ⟨outer, -, ho⟩ := outwards?_of_grown hw h.grown i hlt
    have hnow := (ho n (by omega)).2
    rw [outwards?_slots] at hnow
    exact ⟨outer, (ho _ (by omega)).1, by rw [hnow, Option.map_some]⟩

end OpenedSince

end Arena

/-! ## Trees that know what is open -/

/-- A node tree that knows which nodes were opened since an earlier state of it. -/
class NestingTree (T : Type) {L M : outParam Type} [NodeTree T L M] [LawfulTree T] where
  /-- The second is inside nodes of these labels, innermost first, that were opened since. -/
  Inside : T → List L → T → Prop
  inside_of_grown : ∀ {t u}, LawfulTree.Grown t u → Inside t [] u
  inside_grown : ∀ {t u v : T} {labels : List L}, LawfulTree.Grown t u → Inside u labels v →
    Inside t labels v
  inside_around : ∀ {t u v : T} {label : L} {start : Nat} {labels : List L},
    NodeTree.openNode? t label start = some u → Inside u labels v →
      Inside t (labels ++ [label]) v

section

variable {L : Type} [DecidableEq L]

instance : NestingTree (TrailTree L) where
  Inside t labels u := ∃ ids, t.arena.OpenedSince u.arena ids labels
  inside_of_grown h := ⟨[], .of_grown h⟩
  inside_grown h := fun ⟨ids, hi⟩ => ⟨ids, hi.grown_trans h⟩
  inside_around ho := fun ⟨ids, hi⟩ => by
    obtain ⟨arena, ha, rfl⟩ := Option.map_eq_some_iff.1 ho
    exact ⟨_, hi.around ha⟩

instance : NestingTree (DepthTree L) where
  Inside t labels u := u.depth = t.depth + labels.length
  inside_of_grown h := h
  inside_grown {t u v labels} h hi := by
    have h : u.depth = t.depth := h
    rw [hi, h]
  inside_around {t u v label start labels} ho hi := by
    cases ho
    rw [hi, List.length_append, List.length_singleton]
    show t.depth + 1 + labels.length = _
    omega

end

/-! ## Where a hard failure is raised -/

namespace Matching

open LawfulTree NestingTree Event

variable {U L T M : Type}

/-- The hard failure was raised here: no part ended in one. -/
structure Course.Fails (failure : HardFailure (Position M)) (origin : Course U L T M) : Prop where
  outcome_eq : origin.result.outcome = .failed failure
  parts_ne : ∀ part ∈ origin.parts, ∀ other, part.result.outcome ≠ .failed other

/-- Nothing is done to a hard failure, and none is made of anything else. -/
def Passes (before after : Result T L M) : Prop :=
  ∀ failure, after.outcome = .failed failure → after = before

theorem Passes.refl (result : Result T L M) : Passes result result :=
  fun _ _ => rfl

theorem passes_accept (result : Result T L M) : Passes result result.accept := by
  unfold Result.accept
  split
  · exact fun _ => nofun
  · exact .refl result

theorem passes_negate (result : Result T L M) : Passes result result.negate := by
  unfold Result.negate
  split
  · exact fun _ => nofun
  · exact fun _ => nofun
  · exact .refl result

theorem Passes.trans {a b c : Result T L M} (hab : Passes a b) (hbc : Passes b c) :
    Passes a c := by
  intro failure ho
  have hc := hbc failure ho
  rw [hc] at ho ⊢
  exact hab failure ho

variable [NodeTree T L M]

theorem passes_backTo (position : Position M) (result : Result T L M) :
    Passes result (result.backTo position) := by
  unfold Result.backTo
  split
  · rename_i ho
    intro failure hf
    exact absurd (ho.symm.trans hf) nofun
  · exact .refl result

theorem passes_lookFrom (position : Position M) (result : Result T L M) :
    Passes result (result.lookFrom position) := by
  unfold Result.lookFrom
  split
  · rename_i ho
    intro failure hf
    exact absurd (ho.symm.trans hf) nofun
  · rename_i ho
    intro failure hf
    exact absurd (ho.symm.trans hf) nofun
  · exact .refl result

theorem passes_recoverTo (position : Position M) (result : Result T L M) :
    Passes result (result.recoverTo position) := by
  unfold Result.recoverTo
  split
  · exact fun _ => nofun
  · exact .refl result

/-- A mandatory rule raises a hard failure exactly where its own rule did not match. -/
theorem demand_cases (result : Result T L M) :
    (result.outcome = .unmatched ∧ result.demand =
      ⟨.failed (.mandatory result.cursor.position), result.cursor,
        result.events ++ [.mandatoryFailed result.cursor.position]⟩) ∨
    (result.outcome ≠ .unmatched ∧ result.demand = result) := by
  unfold Result.demand
  split
  · rename_i ho
    exact Or.inl ⟨ho, rfl⟩
  · rename_i ho
    exact Or.inr ⟨ho, rfl⟩

variable [LawfulTree T] [NestingTree T]

/-- A hard failure was raised by the last of the attempts, at the position that it names, inside the
nodes that end the log. -/
def RaisedInside (attempts : List (Course U L T M)) (cursor : Cursor T) (result : Result T L M) :
    Prop :=
  ∀ failure, result.outcome = .failed failure → ∃ origin : Course U L T M,
    origin.Fails failure ∧ origin.attempts <:+ attempts ∧
    (∀ position, failure = .mandatory position → origin.result.cursor.position = position) ∧
    Inside cursor.tree (lastLabels result.events) origin.result.cursor.tree

namespace RaisedInside

variable {attempts attempts' : List (Course U L T M)} {cursor inside : Cursor T}
  {before after result : Result T L M}

theorem of_ne (h : ∀ failure, result.outcome ≠ .failed failure) :
    RaisedInside attempts cursor result :=
  fun failure ho => absurd ho (h failure)

theorem pass (h : RaisedInside attempts cursor before) (hp : Passes before after)
    (hs : attempts <:+ attempts') : RaisedInside attempts' cursor after := by
  intro failure ho
  obtain rfl := hp failure ho
  obtain ⟨origin, hf, hl, hi⟩ := h failure ho
  exact ⟨origin, hf, hl.trans hs, hi⟩

/-- What goes on later starts from what has grown, with a log that ends with no label. -/
theorem later {next : Cursor T} (h : RaisedInside attempts next result)
    (hg : Grown cursor.tree next.tree) {events : List (Event L M)} (he : lastLabels events = [])
    (hs : attempts <:+ attempts') : RaisedInside attempts' cursor (result.after events) := by
  intro failure ho
  obtain ⟨origin, hf, hl, hp, hi⟩ := h failure ho
  refine ⟨origin, hf, hl.trans hs, hp, ?_⟩
  show Inside cursor.tree (lastLabels (events ++ result.events)) origin.result.cursor.tree
  rw [lastLabels_append he]
  exact inside_grown hg hi

theorem demand {part : Course U L T M} (hb : Balanced cursor part.result)
    (h : RaisedInside part.attempts cursor part.result) :
    RaisedInside (attemptsOf (.rule (.mandatory part.rule)) cursor [part] part.result.demand) cursor
      part.result.demand := by
  rcases demand_cases part.result with ⟨ho, hd⟩ | ⟨-, hd⟩
  · intro failure hf
    refine ⟨⟨.mandatory part.rule, cursor, [part], part.result.demand⟩, ⟨hf, ?_⟩,
      List.suffix_refl _, ?_, ?_⟩
    · intro other hp
      obtain rfl := List.mem_singleton.1 hp
      rw [ho]
      exact nofun
    · rintro position rfl
      simpa [hd] using hf
    · simp only [hd]
      rw [lastLabels_concat_of_ne _ nofun]
      exact inside_of_grown hb.grown
  · rw [hd]
    exact h.pass (.refl _) (part_suffix_rule _ _ _ _)

theorem closeNode {label : L} (policy : Policy) (hi : cursor.openNode? label = some inside)
    (hg : Grows inside result) (h : RaisedInside attempts inside result)
    (hs : attempts <:+ attempts') :
    RaisedInside attempts' cursor (result.closeNode policy label) := by
  rcases closeNode_cases policy hi hg with ⟨hne, ho, -⟩ | ⟨failure, _, ho, -, hc⟩
  · rw [← ho] at hne
    exact .of_ne hne
  · obtain ⟨tree, ht, rfl⟩ := Option.map_eq_some_iff.1 hi
    obtain ⟨origin, hf, hl, hp, hin⟩ := h failure ho
    rw [hc]
    intro failure' hf'
    cases hf'
    refine ⟨origin, hf, hl.trans hs, hp, ?_⟩
    show Inside cursor.tree (lastLabels (result.events ++ [.whileParsing label])) _
    rw [lastLabels_concat]
    exact inside_around ht hin

end RaisedInside

variable [InputUnit U] [DecidableEq U] [DecidableEq M] {setting : Setting U L}

theorem raised_done {rule : Rule U L} {cursor : Cursor T} {result : Result T L M}
    (h : atOnce? setting rule cursor = some result) :
    RaisedInside (attemptsOf (.rule rule) cursor [] result) cursor result := by
  rcases done_cases h with ⟨offset, -, rfl⟩ | ⟨events, rfl⟩ | rfl | rfl
  · exact .of_ne nofun
  · exact .of_ne nofun
  · exact .of_ne nofun
  · intro failure ho
    obtain rfl : .exhausted = failure := by simpa using ho
    exact ⟨⟨rule, cursor, [], _⟩, ⟨rfl, nofun⟩, List.suffix_refl _, nofun,
      inside_of_grown (grown_refl _)⟩

theorem goes_raises {task : Task U L M} {cursor : Cursor T} {parts : List (Course U L T M)}
    {result : Result T L M} (h : Goes setting task cursor parts result) :
    RaisedInside (attemptsOf task cursor parts result) cursor result := by
  -- Of several parts only the last can have failed; the log of the others ends with no label.
  induction h with
  | done h => exact raised_done h
  | seq _ ih | times _ ih => exact ih.pass (passes_backTo _ _) (attemptsIn_suffix_rule _ _ _ _)
  | or _ ih | star _ ih | untilPast _ ih =>
    exact ih.pass (.refl _) (attemptsIn_suffix_rule _ _ _ _)
  | plusStop _ _ ih | ref _ _ ih => exact ih.pass (.refl _) (part_suffix_rule _ _ _ _)
  | plusOn h ho _ _ ihn =>
    exact ihn.later (goes_balanced h).grown (lastLabels_of_goes h (Or.inl ho))
      ((attemptsIn_suffix_cons _ _).trans (attemptsIn_suffix_rule _ _ _ _))
  | opt _ _ ih => exact ih.pass (passes_accept _) (part_suffix_rule _ _ _ _)
  | ahead _ ih => exact ih.pass (passes_lookFrom _ _) (part_suffix_rule _ _ _ _)
  | notAhead _ ih =>
    exact ih.pass ((passes_lookFrom _ _).trans (passes_negate _)) (part_suffix_rule _ _ _ _)
  | mandatory h ih => exact .demand (goes_balanced h) ih
  | recover _ ih => exact ih.pass (passes_recoverTo _ _) (part_suffix_rule _ _ _ _)
  | store hi h ih =>
    exact ih.closeNode _ hi (goes_balanced h).toGrows (part_suffix_rule _ _ _ _)
  | counted _ ih => exact ih.later (grown_refl _) rfl (part_suffix_rule _ _ _ _)
  | eachNil | firstNil | greedyEnd | scanEnd => exact .of_ne nofun
  | eachStop _ _ ih | firstStop _ _ ih | greedyStill _ _ _ _ ih | scanStop _ _ ih =>
    exact ih.pass (.refl _) (attempts_suffix_singleton _)
  | greedyStop _ _ _ ih => exact ih.pass (passes_accept _) (attempts_suffix_singleton _)
  | eachOn h ho _ _ ihn | greedyOn _ h ho _ _ _ ihn =>
    exact ihn.later (goes_balanced h).grown (lastLabels_of_goes h (Or.inl ho))
      (attemptsIn_suffix_cons _ _)
  | firstOn h ho _ _ ihn =>
    exact ihn.later (goes_balanced h).grown (lastLabels_of_goes h (Or.inr ho))
      (attemptsIn_suffix_cons _ _)
  | scanOn h ho _ _ _ ihn =>
    refine ihn.later ?_ (lastLabels_of_goes h (Or.inr ho)) (attemptsIn_suffix_cons _ _)
    rw [Cursor.advance_tree]
    exact (goes_balanced h).grown

end Matching

end Peg
