import Mathlib.Data.List.TakeWhile
import Peg.Proofs.Meaning

/-
  Scanning: what rules mean by the units that stand from an offset on. A rule `Takes` a text or
  `Misses` the units; a run of units with a property is taken whole. A `Verdict` on a rule is that
  it matches some first part of the units, and what is known of that part, or that it does not
  match, or that a mandatory rule fails. Each way to put rules together turns verdicts on the parts
  into one on the whole.
-/

namespace Peg

variable {U : Type} [InputUnit U]

/-! ## Units from an offset on -/

/-- No unit with the property comes first. -/
def StopsAt (p : U → Bool) (us : List U) : Prop := ∀ u, us.head? = some u → p u = false

namespace StopsAt

variable {p q : U → Bool} {u : U} {us : List U}

omit [InputUnit U]

theorem nil : StopsAt p [] := nofun

theorem cons (h : p u = false) : StopsAt p (u :: us) := by
  intro v hv
  cases hv
  exact h

theorem mono (h : StopsAt p us) (hq : ∀ u, q u = true → p u = true) : StopsAt q us := by
  intro u hu
  have hp := h u hu
  cases hqu : q u with
  | false => rfl
  | true => rw [hq u hqu] at hp; cases hp

/-- What comes first is in the run, or else comes right after it. -/
theorem append {xs : List U} (hx : ∀ x ∈ xs, p x = false) (h : StopsAt p us) :
    StopsAt p (xs ++ us) := by
  cases xs with
  | nil => exact h
  | cons x xs => exact cons (hx x List.mem_cons_self)

/-- The units divide into a run with the property and what stops it. -/
theorem exists_run (p : U → Bool) (us : List U) :
    ∃ xs ys, us = xs ++ ys ∧ (∀ x ∈ xs, p x = true) ∧ StopsAt p ys := by
  refine ⟨us.takeWhile p, us.dropWhile p, List.takeWhile_append_dropWhile.symm,
    fun x hx => List.mem_takeWhile_imp hx, ?_⟩
  intro u hu
  have := List.head?_dropWhile_not p us
  rw [hu] at this
  exact this

end StopsAt

namespace Input

/-- From the offset on stand these units, up to the end of input. -/
def Stands (input : Input U) (offset : Nat) (us : List U) : Prop :=
  ∃ before, input.units = before ++ us ∧ extent before = offset

theorem stands_ofList (before us : List U) :
    (ofList (before ++ us)).Stands (extent before) us := ⟨before, rfl, rfl⟩

namespace Stands

variable {input : Input U} {offset : Nat} {u : U} {us xs ys : List U}

theorem drop (h : input.Stands offset (xs ++ ys)) : input.Stands (offset + extent xs) ys := by
  obtain ⟨before, hu, rfl⟩ := h
  exact ⟨before ++ xs, by rw [hu, List.append_assoc], extent_append _ _⟩

theorem tail (h : input.Stands offset (u :: us)) : input.Stands (offset + extent [u]) us := by
  rw [← List.singleton_append] at h
  exact h.drop

theorem length_eq (h : input.Stands offset us) : input.length = offset + extent us := by
  obtain ⟨before, hu, rfl⟩ := h
  rw [input.length_eq, hu, extent_append]

theorem lt_length (h : input.Stands offset (u :: us)) : offset < input.length := by
  have hl := h.length_eq
  have hw := InputUnit.width_pos u
  unfold extent at hl
  omega

theorem length_le (h : input.Stands offset []) : input.length ≤ offset :=
  Nat.le_of_eq h.length_eq

theorem unitAt?_cons (h : input.Stands offset (u :: us)) : input.unitAt? offset = some u := by
  obtain ⟨before, hu, ho⟩ := h
  exact (input.unitAt?_eq_some_iff offset u).2 ⟨before, us, hu, ho⟩

theorem unitAt?_nil (h : input.Stands offset []) : input.unitAt? offset = none := by
  cases hu : input.unitAt? offset with
  | none => rfl
  | some u =>
    have := unitAt?_lt hu
    have := InputUnit.width_pos u
    have := h.length_le
    omega

theorem head? (h : input.Stands offset us) : input.unitAt? offset = us.head? := by
  cases us with
  | nil => exact h.unitAt?_nil
  | cons u us => exact h.unitAt?_cons

theorem next_cons (h : input.Stands offset (u :: us)) :
    input.next offset = offset + extent [u] := by
  unfold next
  rw [h.unitAt?_cons]
  rfl

theorem next_nil (h : input.Stands offset []) : input.next offset = offset := by
  unfold next
  rw [h.unitAt?_nil]

end Stands

end Input

theorem extent_pos {us : List U} (h : us ≠ []) : 0 < extent us := by
  cases us with
  | nil => exact absurd rfl h
  | cons u us =>
    have := InputUnit.width_pos u
    unfold extent
    omega

theorem add_extent (offset : Nat) (xs ys : List U) :
    offset + extent xs + extent ys = offset + extent (xs ++ ys) := by
  rw [Nat.add_assoc, ← extent_append]

/-- Of the first parts of some units, no two have the same extent. -/
theorem eq_of_extent_eq {xs ys xs' ys' : List U} (h : xs ++ ys = xs' ++ ys')
    (he : extent xs = extent xs') : xs = xs' := by
  rcases List.append_eq_append_iff.1 h with ⟨more, rfl, -⟩ | ⟨more, rfl, -⟩
  all_goals
    rw [extent_append] at he
    have hm : more = [] := by
      by_contra hm
      have := extent_pos hm
      omega
    rw [hm, List.append_nil]

/-! ## What runs of units mean -/

namespace Matching

variable {L : Type} {input : Input U} {references : Nat → Reference U L} {p : U → Bool}
  {offset : Nat} {u : U} {us xs ys : List U}

theorem means_unit (h : input.Stands offset (u :: us)) (hp : p u = true) :
    Means input references (.unit p) offset (.yes (offset + extent [u]) []) :=
  .unit h.unitAt?_cons hp

theorem means_unitNot (h : input.Stands offset us) (hs : StopsAt p us) :
    Means input references (.unit p) offset .no :=
  .unitNot fun u hu => hs u (h.head? ▸ hu)

/-- A run of units is taken whole. -/
theorem means_star_unit (h : input.Stands offset (xs ++ ys)) (hx : ∀ x ∈ xs, p x = true)
    (hy : StopsAt p ys) :
    Means input references (.star (.unit p)) offset (.yes (offset + extent xs) []) := by
  induction xs generalizing offset with
  | nil =>
    cases ys with
    | nil => exact .starEnd h.length_le
    | cons y ys => exact .starStop h.lt_length (means_unitNot h hy) nofun
  | cons x xs ih =>
    have hn := ih h.tail fun y hy => hx y (List.mem_cons_of_mem x hy)
    rw [add_extent] at hn
    refine .starOn h.lt_length (means_unit h (hx x List.mem_cons_self)) ?_ hn
    have := extent_pos (List.cons_ne_nil x [])
    omega

theorem means_plus_unit {x : U} (h : input.Stands offset (x :: xs ++ ys))
    (hx : ∀ y ∈ x :: xs, p y = true) (hy : StopsAt p ys) :
    Means input references (.plus (.unit p)) offset (.yes (offset + extent (x :: xs)) []) := by
  have hn : Means input references (.star (.unit p)) (offset + extent [x]) _ :=
    means_star_unit h.tail (fun y hy => hx y (List.mem_cons_of_mem x hy)) hy
  rw [add_extent] at hn
  exact .plusOn (means_unit h (hx x List.mem_cons_self)) hn

/-! ## Taking and missing -/

section

variable (input : Input U) (references : Nat → Reference U L) (rule : Rule U L) (offset : Nat)

/-- Where the text stands, followed by the rest, the rule takes the text and records the forest. -/
def Takes (text rest : List U) (forest : Forest L) : Prop :=
  input.Stands offset (text ++ rest) →
    Means input references rule offset (.yes (offset + extent text) forest)

/-- Where the units stand, the rule does not match. -/
def Misses (us : List U) : Prop :=
  input.Stands offset us → Means input references rule offset .no

end

section

variable {rule : Rule U L} {rules : List (Rule U L)} {text more rest : List U}
  {forest others : Forest L}

namespace Misses

theorem unit (h : StopsAt p us) : Misses input references (.unit p) offset us :=
  fun hs => means_unitNot hs h

theorem plus (h : Misses input references rule offset us) :
    Misses input references (.plus rule) offset us :=
  fun hs => .plusStop (h hs) nofun

theorem seqStop (h : Misses input references rule offset us) :
    Misses input references (.seq (rule :: rules)) offset us :=
  fun hs => .seqStop (h hs) nofun

theorem seqOn (h : Takes input references rule offset text rest forest)
    (hn : Misses input references (.seq rules) (offset + extent text) rest) :
    Misses input references (.seq (rule :: rules)) offset (text ++ rest) :=
  fun hs => .seqOn (h hs) (hn hs.drop)

theorem orNil : Misses input references (.or []) offset us := fun _ => .orNil

theorem orOn (h : Misses input references rule offset us)
    (hn : Misses input references (.or rules) offset us) :
    Misses input references (.or (rule :: rules)) offset us :=
  fun hs => .orOn (h hs) (hn hs)

theorem store {label : L} (h : Misses input references rule offset us) :
    Misses input references (.store label rule) offset us :=
  fun hs => .store (h hs)

theorem ref {i : Nat} (hi : references i = .defined rule)
    (h : Misses input references rule offset us) : Misses input references (.ref i) offset us :=
  fun hs => .ref hi (h hs)

/-- A scan does not match where there is nothing to stop at. -/
theorem untilAt (h : ∀ x ∈ us, p x = false) :
    Misses input references (.untilAt (.unit p)) offset us := by
  intro hs
  induction us generalizing offset with
  | nil =>
    refine .scanEnd (.ahead (means_unitNot hs .nil)) ?_
    rw [hs.next_nil]
    exact hs.length_le
  | cons u us ih =>
    have hno : Means input references (.ahead (.unit p)) offset .no :=
      .ahead (means_unitNot hs (.cons (h u List.mem_cons_self)))
    have hn := ih (fun x hx => h x (List.mem_cons_of_mem u hx)) hs.tail
    rw [← hs.next_cons] at hn
    cases us with
    | nil =>
      refine .scanEnd hno ?_
      rw [hs.next_cons]
      exact hs.tail.length_le
    | cons v us =>
      refine .scanOn hno ?_ hn
      rw [hs.next_cons]
      exact hs.tail.lt_length

end Misses

namespace Takes

theorem unit (hp : p u = true) : Takes input references (.unit p) offset [u] rest [] :=
  fun hs => means_unit hs hp

theorem atEnd : Takes input references .atEnd offset [] [] [] := fun hs => .atEnd hs.length_le

theorem run (hx : ∀ x ∈ xs, p x = true) (hr : StopsAt p rest) :
    Takes input references (.star (.unit p)) offset xs rest [] :=
  fun hs => means_star_unit hs hx hr

theorem runOn (hne : xs ≠ []) (hx : ∀ x ∈ xs, p x = true) (hr : StopsAt p rest) :
    Takes input references (.plus (.unit p)) offset xs rest [] := by
  cases xs with
  | nil => exact absurd rfl hne
  | cons x xs => exact fun hs => means_plus_unit hs hx hr

/-- A scan takes all before the first unit to stop at. -/
theorem untilAt (hx : ∀ x ∈ xs, p x = false) (hp : p u = true) :
    Takes input references (.untilAt (.unit p)) offset xs (u :: rest) [] := by
  intro hs
  induction xs generalizing offset with
  | nil => exact .scanStop (.ahead (means_unit hs hp)) nofun
  | cons x xs ih =>
    have hno : Means input references (.ahead (.unit p)) offset .no :=
      .ahead (means_unitNot hs (.cons (hx x List.mem_cons_self)))
    have hd : input.Stands (offset + extent [x]) (xs ++ u :: rest) := hs.tail
    have hn := ih (fun y hy => hx y (List.mem_cons_of_mem x hy)) hd
    rw [add_extent, ← hs.next_cons] at hn
    refine .scanOn hno ?_ hn
    have hpos := extent_pos (List.cons_ne_nil u rest)
    rw [hs.next_cons, hd.length_eq, extent_append]
    omega

theorem seqLast (h : Takes input references rule offset text rest forest) :
    Takes input references (.seq [rule]) offset text rest forest := by
  intro hs
  have hm := Means.seqOn (h hs) .seqNil
  rwa [Answer.after, List.append_nil] at hm

theorem seqOn (h : Takes input references rule offset text (more ++ rest) forest)
    (hn : Takes input references (.seq rules) (offset + extent text) more rest others) :
    Takes input references (.seq (rule :: rules)) offset (text ++ more) rest
      (forest ++ others) := by
  intro hs
  rw [List.append_assoc] at hs
  have hm := Means.seqOn (h hs) (hn hs.drop)
  rwa [add_extent] at hm

theorem orStop (h : Takes input references rule offset text rest forest) :
    Takes input references (.or (rule :: rules)) offset text rest forest :=
  fun hs => .orStop (h hs) nofun

theorem orOn (h : Misses input references rule offset (text ++ rest))
    (hn : Takes input references (.or rules) offset text rest forest) :
    Takes input references (.or (rule :: rules)) offset text rest forest :=
  fun hs => .orOn (h hs) (hn hs)

theorem opt (hne : text ≠ []) (h : Takes input references rule offset text rest forest) :
    Takes input references (.opt rule) offset text rest forest := by
  cases text with
  | nil => exact absurd rfl hne
  | cons u us => exact fun hs => .opt hs.lt_length (h hs)

theorem optMissed (h : Misses input references rule offset rest) :
    Takes input references (.opt rule) offset [] rest [] := by
  cases rest with
  | nil => exact fun hs => .optEnd hs.length_le
  | cons u us => exact fun hs => .opt hs.lt_length (h hs)

theorem starMissed (h : Misses input references rule offset rest) :
    Takes input references (.star rule) offset [] rest [] := by
  cases rest with
  | nil => exact fun hs => .starEnd hs.length_le
  | cons u us => exact fun hs => .starStop hs.lt_length (h hs) nofun

theorem starOn (hne : text ≠ [])
    (h : Takes input references rule offset text (more ++ rest) forest)
    (hn : Takes input references (.star rule) (offset + extent text) more rest others) :
    Takes input references (.star rule) offset (text ++ more) rest (forest ++ others) := by
  intro hs
  rw [List.append_assoc] at hs
  have hpos := extent_pos hne
  have he : offset < input.length := by
    rw [hs.length_eq, extent_append]
    omega
  have hm := Means.starOn he (h hs) (by omega) (hn hs.drop)
  rwa [add_extent] at hm

theorem mandatory (h : Takes input references rule offset text rest forest) :
    Takes input references (.mandatory rule) offset text rest forest :=
  fun hs => .mandatory (h hs)

theorem store {label : L} (h : Takes input references rule offset text rest forest) :
    Takes input references (.store label rule) offset text rest
      [.mk label offset (offset + extent text) forest] :=
  fun hs => .store (h hs)

theorem ref {i : Nat} (hi : references i = .defined rule)
    (h : Takes input references rule offset text rest forest) :
    Takes input references (.ref i) offset text rest forest :=
  fun hs => .ref hi (h hs)

end Takes

end

/-! ## Verdicts -/

/-- What comes of a rule at an offset where the units stand. What it matches is a first part of
them, with a forest that it was found to go with. That it does not match was found too. The hard
failure is of a mandatory rule. -/
inductive Verdict (input : Input U) (references : Nat → Reference U L) (rule : Rule U L)
    (offset : Nat) (us : List U) (Missed : Prop) (Found : List U → Forest L → Prop) : Prop
  | found {text rest forest} (hu : us = text ++ rest) (hf : Found text forest)
      (hm : Means input references rule offset (.yes (offset + extent text) forest))
  | missed (hn : Missed) (hm : Means input references rule offset .no)
  | broken {stop} (hm : Means input references rule offset (.failed (.mandatory ()) stop))

namespace Verdict

variable {rule : Rule U L} {rules : List (Rule U L)} {Missed Missed' : Prop}
  {Found Found' : List U → Forest L → Prop}

theorem imp (h : Verdict input references rule offset us Missed Found) (hn : Missed → Missed')
    (hf : ∀ text forest, Found text forest → Found' text forest) :
    Verdict input references rule offset us Missed' Found' := by
  cases h with
  | found hu h hm => exact .found hu (hf _ _ h) hm
  | missed h hm => exact .missed (hn h) hm
  | broken hm => exact .broken hm

theorem means (h : Verdict input references rule offset us Missed Found) :
    ∃ answer, Means input references rule offset answer := by
  cases h with
  | found _ _ hm | missed _ hm | broken hm => exact ⟨_, hm⟩

/-- It may be of no matter why the rule does not match. -/
theorem forget (h : Verdict input references rule offset us Missed Found) :
    Verdict input references rule offset us True Found :=
  h.imp (fun _ => trivial) fun _ _ hf => hf

/-- The rule matches nothing of the units. -/
theorem nothing (hf : Found [] []) (hm : Means input references rule offset (.yes offset [])) :
    Verdict input references rule offset us Missed Found :=
  .found (List.nil_append us).symm hf hm

theorem unit (hs : input.Stands offset us) :
    Verdict input references (.unit p) offset us (StopsAt p us)
      (fun text forest => (∃ u, text = [u] ∧ p u = true) ∧ forest = []) := by
  cases us with
  | nil => exact .missed .nil (means_unitNot hs .nil)
  | cons u us =>
    cases hp : p u with
    | true => exact .found List.singleton_append.symm ⟨⟨u, rfl, hp⟩, rfl⟩ (means_unit hs hp)
    | false => exact .missed (.cons hp) (means_unitNot hs (.cons hp))

theorem run (hs : input.Stands offset us) :
    Verdict input references (.star (.unit p)) offset us Missed
      (fun text forest => (∀ u ∈ text, p u = true) ∧ forest = []) := by
  obtain ⟨xs, ys, rfl, hx, hy⟩ := StopsAt.exists_run p us
  exact .found rfl ⟨hx, rfl⟩ (means_star_unit hs hx hy)

theorem runOn (hs : input.Stands offset us) :
    Verdict input references (.plus (.unit p)) offset us (StopsAt p us)
      (fun text forest => text ≠ [] ∧ (∀ u ∈ text, p u = true) ∧ forest = []) := by
  obtain ⟨xs, ys, rfl, hx, hy⟩ := StopsAt.exists_run p us
  cases xs with
  | nil => exact .missed hy (.plusStop (means_unitNot hs hy) nofun)
  | cons x xs => exact .found rfl ⟨List.cons_ne_nil x xs, hx, rfl⟩ (means_plus_unit hs hx hy)

theorem atEnd (hs : input.Stands offset us) :
    Verdict input references .atEnd offset us (us ≠ [])
      (fun text forest => text = [] ∧ us = [] ∧ forest = []) := by
  cases us with
  | nil => exact .nothing ⟨rfl, rfl, rfl⟩ (.atEnd hs.length_le)
  | cons u us => exact .missed (List.cons_ne_nil u us) (.atEndNot hs.lt_length)

theorem seqLast (h : Verdict input references rule offset us Missed Found) :
    Verdict input references (.seq [rule]) offset us Missed Found := by
  cases h with
  | found hu hf hm =>
    have hm := Means.seqOn hm .seqNil
    rw [Answer.after, List.append_nil] at hm
    exact .found hu hf hm
  | missed h hm => exact .missed h (.seqStop hm nofun)
  | broken hm => exact .broken (.seqStop hm nofun)

/-- What the first rule leaves is for the rules after it. -/
theorem seqOn {First : List U → Forest L → Prop} (hs : input.Stands offset us)
    (h : Verdict input references rule offset us Missed First)
    (hn : ∀ {text rest forest}, us = text ++ rest → First text forest →
      input.Stands (offset + extent text) rest →
        Verdict input references (.seq rules) (offset + extent text) rest Missed
          fun more others => Found (text ++ more) (forest ++ others)) :
    Verdict input references (.seq (rule :: rules)) offset us Missed Found := by
  cases h with
  | @found text rest forest hu hf hm =>
    subst hu
    cases hn rfl hf hs.drop with
    | @found more left others hu hf hm' =>
      rw [add_extent] at hm'
      exact .found (by rw [hu, List.append_assoc]) hf (.seqOn hm hm')
    | missed h hm' => exact .missed h (.seqOn hm hm')
    | broken hm' => exact .broken (.seqOn hm hm')
  | missed h hm => exact .missed h (.seqStop hm nofun)
  | broken hm => exact .broken (.seqStop hm nofun)

theorem orNil (hn : Missed) : Verdict input references (.or []) offset us Missed Found :=
  .missed hn .orNil

/-- The rules after the first are for where the first does not match. -/
theorem orOn (h : Verdict input references rule offset us Missed Found)
    (hn : Missed → Verdict input references (.or rules) offset us Missed' Found) :
    Verdict input references (.or (rule :: rules)) offset us Missed' Found := by
  cases h with
  | found hu hf hm => exact .found hu hf (.orStop hm nofun)
  | missed h hm =>
    cases hn h with
    | found hu hf hm' => exact .found hu hf (.orOn hm hm')
    | missed h hm' => exact .missed h (.orOn hm hm')
    | broken hm' => exact .broken (.orOn hm hm')
  | broken hm => exact .broken (.orStop hm nofun)

/-- At the end of input the rule is not tried, so nothing is found of it there. -/
theorem opt (hs : input.Stands offset us)
    (h : us ≠ [] → Verdict input references rule offset us Missed Found) (hf : Found [] []) :
    Verdict input references (.opt rule) offset us Missed' Found := by
  cases us with
  | nil => exact .nothing hf (.optEnd hs.length_le)
  | cons u us =>
    cases h (List.cons_ne_nil u us) with
    | found hu hf hm => exact .found hu hf (.opt hs.lt_length hm)
    | missed _ hm => exact .nothing hf (.opt hs.lt_length hm)
    | broken hm => exact .broken (.opt hs.lt_length hm)

theorem mandatory (h : Verdict input references rule offset us Missed Found) :
    Verdict input references (.mandatory rule) offset us Missed' Found := by
  cases h with
  | found hu hf hm => exact .found hu hf (.mandatory hm)
  | missed _ hm => exact .broken (.mandatory hm)
  | broken hm => exact .broken (.mandatory hm)

theorem store {label : L} (h : Verdict input references rule offset us Missed fun text forest =>
      Found text [.mk label offset (offset + extent text) forest]) :
    Verdict input references (.store label rule) offset us Missed Found := by
  cases h with
  | found hu hf hm => exact .found hu hf (.store hm)
  | missed h hm => exact .missed h (.store hm)
  | broken hm => exact .broken (.store hm)

theorem ref {i : Nat} (hi : references i = .defined rule)
    (h : Verdict input references rule offset us Missed Found) :
    Verdict input references (.ref i) offset us Missed Found := by
  cases h with
  | found hu hf hm => exact .found hu hf (.ref hi hm)
  | missed h hm => exact .missed h (.ref hi hm)
  | broken hm => exact .broken (.ref hi hm)

/-- One round after the other, where each takes something and there are fewer units than given. -/
theorem star {Round Rounds : Nat → List U → Forest L → Prop} {bound : Nat}
    (h : ∀ {offset us}, us.length < bound → input.Stands offset us →
      Verdict input references rule offset us Missed (Round offset))
    (hne : ∀ {offset text forest}, Round offset text forest → text ≠ [])
    (hnil : ∀ offset, Rounds offset [] [])
    (hcons : ∀ {offset text forest more others}, Round offset text forest →
      Rounds (offset + extent text) more others → Rounds offset (text ++ more) (forest ++ others))
    (hs : input.Stands offset us) (hl : us.length < bound) :
    Verdict input references (.star rule) offset us Missed' (Rounds offset) := by
  induction hn : us.length using Nat.strongRecOn generalizing offset us with
  | _ n ih =>
    subst hn
    cases us with
    | nil => exact .nothing (hnil offset) (.starEnd hs.length_le)
    | cons u us =>
      cases h hl hs with
      | @found text rest forest hu hf hm =>
        have hpos := extent_pos (hne hf)
        have hlen : rest.length < (u :: us).length := by
          have := List.length_pos_of_ne_nil (hne hf)
          rw [hu, List.length_append]
          omega
        have he : offset + extent text ≠ offset := by omega
        have hd : input.Stands (offset + extent text) rest := by
          rw [hu] at hs
          exact hs.drop
        cases ih _ hlen hd (by omega) rfl with
        | @found more left others hu' hf' hm' =>
          rw [add_extent] at hm'
          have hu : u :: us = text ++ more ++ left := by rw [hu, hu', List.append_assoc]
          exact .found hu (hcons hf hf') (.starOn hs.lt_length hm he hm')
        | missed h hm' => exact .missed h (.starOn hs.lt_length hm he hm')
        | broken hm' => exact .broken (.starOn hs.lt_length hm he hm')
      | missed _ hm =>
        exact .nothing (hnil offset) (.starStop hs.lt_length hm nofun)
      | broken hm => exact .broken (.starStop hs.lt_length hm nofun)

end Verdict

end Matching

end Peg
