import Mathlib.Data.List.Forall2
import Peg.Proofs.Log

/-
  Shadows: two matches in lock step, over inputs that are the same from some offsets on and over
  two kinds of trees. A shadow says how the trees of the second kind follow those of the first, and
  which of these fit. Where every tree of a match fits, the other match has a result alike; where
  one does not, the other match finds no room (`goes_follows`).
-/

namespace Peg

/-! ## Alike but for positions and places -/

inductive Outcome.Alike {P Q : Type} (R : P → Q → Prop) : Outcome P → Outcome Q → Prop
  | matched : Alike R .matched .matched
  | unmatched : Alike R .unmatched .unmatched
  | mandatory {p q} (h : R p q) : Alike R (.failed (.mandatory p)) (.failed (.mandatory q))
  | exhausted : Alike R (.failed .exhausted) (.failed .exhausted)
  | faulted {fault} : Alike R (.faulted fault) (.faulted fault)

theorem Outcome.Alike.map_eq {P Q V : Type} {R : P → Q → Prop} {f : P → V} {g : Q → V}
    {outcome : Outcome P} {outcome' : Outcome Q} (h : Alike R outcome outcome')
    (hf : ∀ p q, R p q → g q = f p) : outcome'.map g = outcome.map f := by
  cases h with
  | mandatory hp => exact congrArg (failed ∘ .mandatory) (hf _ _ hp)
  | matched | unmatched | exhausted | faulted => rfl

theorem Outcome.Alike.of_mandatory {P Q : Type} {R : P → Q → Prop} {p : P} {outcome : Outcome Q}
    (h : Alike R (.failed (.mandatory p)) outcome) :
    ∃ q, outcome = .failed (.mandatory q) ∧ R p q := by
  cases h with
  | mandatory hp => exact ⟨_, rfl, hp⟩

theorem Outcome.map_id {P : Type} (outcome : Outcome P) : outcome.map id = outcome := by
  rcases outcome with _ | _ | (_ | _) | _ <;> rfl

inductive Event.Alike {L M N : Type} (R : Position M → Position N → Prop) :
    Event L M → Event L N → Prop
  | mandatoryFailed {p q} (h : R p q) : Alike R (.mandatoryFailed p) (.mandatoryFailed q)
  | recovered {p q} (h : R p q) : Alike R (.recovered p) (.recovered q)
  | whileParsing {label} : Alike R (.whileParsing label) (.whileParsing label)
  | notDefined : Alike R .notDefined .notDefined
  | dropped : Alike R .dropped .dropped
  | tried {counter} : Alike R (.tried counter) (.tried counter)

theorem Event.lastLabels_alike {L M N : Type} {R : Position M → Position N → Prop}
    {events : List (Event L M)} {events' : List (Event L N)}
    (h : List.Forall₂ (Event.Alike R) events events') : lastLabels events = lastLabels events' := by
  unfold lastLabels
  refine List.rel_foldl ?_ rfl h
  rintro labels _ rfl event event' ha
  cases ha <;> rfl

/-- Offsets of two inputs that stand for the same place, with the same units from there on. -/
structure Alignment {U : Type} [InputUnit U] (input input' : Input U) where
  At : Nat → Nat → Prop
  unitAt?_eq : ∀ {a b}, At a b → input'.unitAt? b = input.unitAt? a
  length_le_iff : ∀ {a b}, At a b → (input'.length ≤ b ↔ input.length ≤ a)
  add : ∀ {a b}, At a b → ∀ n, At (a + n) (b + n)
  eq_iff : ∀ {a b a' b'}, At a b → At a' b' → (a = a' ↔ b = b')

/-- Each offset of an input stands for itself. -/
def Alignment.refl {U : Type} [InputUnit U] (input : Input U) : Alignment input input where
  At a b := b = a
  unitAt?_eq h := by rw [h]
  length_le_iff h := by rw [h]
  add h n := by rw [h]
  eq_iff h h' := by rw [h, h']

/-- The other way round. -/
def Alignment.flip {U : Type} [InputUnit U] {input input' : Input U}
    (alignment : Alignment input input') : Alignment input' input where
  At b a := alignment.At a b
  unitAt?_eq h := (alignment.unitAt?_eq h).symm
  length_le_iff h := (alignment.length_le_iff h).symm
  add h n := alignment.add h n
  eq_iff h h' := (alignment.eq_iff h h').symm

/-- The tree has grown since a node of this label was opened in it. -/
def Opened {T L M : Type} [NodeTree T L M] [LawfulTree T] (label : L) (tree : T) : Prop :=
  ∃ (before opened : T) (start : Nat),
    NodeTree.openNode? before label start = some opened ∧ LawfulTree.Grown opened tree

section

variable {U : Type} [InputUnit U] {input input' : Input U} {T₁ T₂ L M₁ M₂ : Type}
  [NodeTree T₁ L M₁] [NodeTree T₂ L M₂] [LawfulTree T₁] [LawfulTree T₂]

variable (input input' T₁ T₂) in
/-- How trees of the second kind follow those of the first, as long as these fit. -/
structure Shadow extends Alignment input input' where
  Rel : T₁ → T₂ → Prop
  Fits : T₁ → Prop
  fits : ∀ {t u}, Rel t u → Fits t
  rewind : ∀ {t t' : T₁} {u u' : T₂}, Rel t u → Rel t' u' →
    Rel (NodeTree.rewind t' (NodeTree.mark t)) (NodeTree.rewind u' (NodeTree.mark u))
  /-- There is room for a node if the tree with the node fits. -/
  opened : ∀ {t t' : T₁} {u : T₂} {label : L} {a b : Nat}, Rel t u → At a b →
    NodeTree.openNode? t label a = some t' →
    (∃ u', NodeTree.openNode? u label b = some u' ∧ Rel t' u') ∨
      ¬ Fits t' ∧ NodeTree.openNode? u label b = none
  full : ∀ {t : T₁} {u : T₂} {label : L} {a b : Nat}, Rel t u → At a b →
    NodeTree.openNode? t label a = none → NodeTree.openNode? u label b = none
  complete : ∀ {t t' : T₁} {u u' : T₂} {label : L} {a b : Nat}, Rel t u → At a b →
    Opened label t → NodeTree.complete t label a = .ok t' →
    Opened label u → NodeTree.complete u label b = .ok u' → Rel t' u'
  abandon : ∀ {t t' : T₁} {u u' : T₂} {label : L}, Rel t u →
    Opened label t → NodeTree.abandon t label = .ok t' →
    Opened label u → NodeTree.abandon u label = .ok u' → Rel t' u'
  unwind : ∀ {t : T₁} {u : T₂} (label : L), Rel t u →
    Rel (NodeTree.unwind t label) (NodeTree.unwind u label)

theorem opened_of_grows {cursor inside : Cursor T₁} {label : L} {result : Result T₁ L M₁}
    (hi : cursor.openNode? label = some inside) (hg : Matching.Grows inside result) :
    Opened label result.cursor.tree := by
  obtain ⟨tree, ht, rfl⟩ := Option.map_eq_some_iff.1 hi
  exact ⟨cursor.tree, tree, cursor.offset, ht, hg.grown⟩

namespace Shadow

variable (shadow : Shadow input input' T₁ T₂)

/-- Where all trees fit, the first match follows the second as well. -/
def flip (hf : ∀ t, shadow.Fits t) : Shadow input' input T₂ T₁ where
  toAlignment := shadow.toAlignment.flip
  Rel u t := shadow.Rel t u
  Fits _ := True
  fits _ := trivial
  rewind h h' := shadow.rewind h h'
  opened {u u' t label b a} h hb ho := by
    refine Or.inl ?_
    cases ht : NodeTree.openNode? t label a with
    | none => simp [shadow.full h hb ht] at ho
    | some t' =>
      obtain ⟨u'', hu, hr⟩ := (shadow.opened h hb ht).resolve_right fun hx => hx.1 (hf t')
      obtain rfl : u'' = u' := Option.some.inj (hu.symm.trans ho)
      exact ⟨t', rfl, hr⟩
  full {u t label b a} h hb ho := by
    cases ht : NodeTree.openNode? t label a with
    | none => rfl
    | some t' =>
      obtain ⟨u', hu, -⟩ := (shadow.opened h hb ht).resolve_right fun hx => hx.1 (hf t')
      simp [hu] at ho
  complete h hb ho hc ho' hc' := shadow.complete h hb ho' hc' ho hc
  abandon h ho ha ho' ha' := shadow.abandon h ho' ha' ho ha
  unwind label h := shadow.unwind label h

/-- Positions are related if they were taken at one place in related trees. -/
def Positions (p : Position M₁) (q : Position M₂) : Prop :=
  shadow.At p.offset q.offset ∧
    ∃ t u, shadow.Rel t u ∧ p.mark = NodeTree.mark t ∧ q.mark = NodeTree.mark u

/-- At one place, with related trees. -/
structure Cursors (cursor : Cursor T₁) (other : Cursor T₂) : Prop where
  at_offset : shadow.At cursor.offset other.offset
  tree : shadow.Rel cursor.tree other.tree

structure Results (result : Result T₁ L M₁) (other : Result T₂ L M₂) : Prop where
  outcome : Outcome.Alike shadow.Positions result.outcome other.outcome
  cursor : shadow.Cursors result.cursor other.cursor
  events : List.Forall₂ (Event.Alike shadow.Positions) result.events other.events

/-- The same task, with related positions to go back to. -/
inductive Tasks : Matching.Task U L M₁ → Matching.Task U L M₂ → Prop
  | rule {rule} : Tasks (.rule rule) (.rule rule)
  | each {rules} : Tasks (.each rules) (.each rules)
  | first {rules} : Tasks (.first rules) (.first rules)
  | greedy {rule} : Tasks (.greedy rule) (.greedy rule)
  | scan {rule p q} (h : shadow.Positions p q) : Tasks (.scan rule p) (.scan rule q)

/-! ## What a cursor does -/

namespace Cursors

variable {shadow} {cursor : Cursor T₁} {other : Cursor T₂}

theorem position (h : shadow.Cursors cursor other) :
    shadow.Positions cursor.position other.position :=
  ⟨h.at_offset, cursor.tree, other.tree, h.tree, rfl, rfl⟩

theorem moveTo {p : Position M₁} {q : Position M₂} (h : shadow.Cursors cursor other)
    (hp : shadow.Positions p q) : shadow.Cursors (cursor.moveTo p) (other.moveTo q) := by
  obtain ⟨ho, t, u, hr, ht, hu⟩ := hp
  refine ⟨ho, ?_⟩
  show shadow.Rel (NodeTree.rewind cursor.tree p.mark) (NodeTree.rewind other.tree q.mark)
  rw [ht, hu]
  exact shadow.rewind hr h.tree

theorem goOn (h : shadow.Cursors cursor other) (n : Nat) :
    shadow.Cursors ⟨cursor.offset + n, cursor.tree⟩ ⟨other.offset + n, other.tree⟩ :=
  ⟨shadow.add h.at_offset n, h.tree⟩

theorem atEnd_eq (h : shadow.Cursors cursor other) :
    other.atEnd input' = cursor.atEnd input := by
  unfold Cursor.atEnd
  rw [decide_eq_decide]
  exact shadow.length_le_iff h.at_offset

theorem advance (h : shadow.Cursors cursor other) :
    shadow.Cursors (cursor.advance input) (other.advance input') := by
  have hu := shadow.unitAt?_eq h.at_offset
  unfold Cursor.advance Cursor.peek?
  rw [hu]
  cases input.unitAt? cursor.offset with
  | none => exact h
  | some u => exact h.goOn (InputUnit.width u)

theorem take? (h : shadow.Cursors cursor other) (p : U → Bool) :
    Option.Rel shadow.Cursors (cursor.take? input p) (other.take? input' p) := by
  have hu := shadow.unitAt?_eq h.at_offset
  unfold Cursor.take? Cursor.peek?
  rw [hu]
  cases input.unitAt? cursor.offset with
  | none => exact .none
  | some u =>
    dsimp only
    split
    · exact .some h.advance
    · exact .none

theorem takeAll? [DecidableEq U] (h : shadow.Cursors cursor other) (us : List U) :
    Option.Rel shadow.Cursors (cursor.takeAll? input us) (other.takeAll? input' us) := by
  induction us generalizing cursor other with
  | nil => exact .some h
  | cons u us ih =>
    rw [Cursor.takeAll?, Cursor.takeAll?]
    have ht := h.take? (· = u)
    generalize cursor.take? input (· = u) = next, other.take? input' (· = u) = next' at ht ⊢
    cases ht with
    | none => exact .none
    | some hn => exact ih hn

/-- The other opens the node too, or it has no room and the tree with the node does not fit. -/
theorem openNode? {label : L} {inside : Cursor T₁} (h : shadow.Cursors cursor other)
    (hi : cursor.openNode? label = some inside) :
    (∃ inside', other.openNode? label = some inside' ∧ shadow.Cursors inside inside') ∨
      ¬ shadow.Fits inside.tree ∧ other.openNode? label = none := by
  obtain ⟨tree, ht, rfl⟩ := Option.map_eq_some_iff.1 hi
  rcases shadow.opened h.tree h.at_offset ht with ⟨tree', hu, hr⟩ | ⟨hf, hu⟩
  · exact Or.inl ⟨_, Option.map_eq_some_iff.2 ⟨tree', hu, rfl⟩, h.at_offset, hr⟩
  · exact Or.inr ⟨hf, Option.map_eq_none_iff.2 hu⟩

theorem unwind (h : shadow.Cursors cursor other) (label : L) :
    shadow.Cursors (cursor.unwind label) (other.unwind label) :=
  ⟨h.at_offset, shadow.unwind label h.tree⟩

theorem complete {label : L} {next : Cursor T₁} {next' : Cursor T₂}
    (h : shadow.Cursors cursor other) (ho : Opened label cursor.tree)
    (hn : cursor.complete label = .ok next) (ho' : Opened label other.tree)
    (hn' : other.complete label = .ok next') : shadow.Cursors next next' := by
  obtain ⟨tree, ht, rfl⟩ := of_map_eq_ok hn
  obtain ⟨tree', hu, rfl⟩ := of_map_eq_ok hn'
  exact ⟨h.at_offset, shadow.complete h.tree h.at_offset ho ht ho' hu⟩

theorem abandon {label : L} {next : Cursor T₁} {next' : Cursor T₂}
    (h : shadow.Cursors cursor other) (ho : Opened label cursor.tree)
    (hn : cursor.abandon label = .ok next) (ho' : Opened label other.tree)
    (hn' : other.abandon label = .ok next') : shadow.Cursors next next' := by
  obtain ⟨tree, ht, rfl⟩ := of_map_eq_ok hn
  obtain ⟨tree', hu, rfl⟩ := of_map_eq_ok hn'
  exact ⟨h.at_offset, shadow.abandon h.tree ho ht ho' hu⟩

/-- Only consumed input is progress, so both make progress or neither does. -/
theorem progressed_eq [DecidableEq M₁] [DecidableEq M₂] {policy : Policy}
    (hp : policy.nodesAreProgress = false) {next : Cursor T₁} {next' : Cursor T₂}
    (h : shadow.Cursors cursor other) (hn : shadow.Cursors next next') :
    policy.progressed other.position next' = policy.progressed cursor.position next := by
  have hi := shadow.eq_iff hn.at_offset h.at_offset
  unfold Policy.progressed
  rw [hp]
  show (next'.offset != other.offset) = (next.offset != cursor.offset)
  rw [bne, bne, Bool.not_inj_iff, beq_eq_beq]
  exact hi.symm

end Cursors

/-! ## What is done to results -/

namespace Results

variable {shadow} {result last : Result T₁ L M₁} {other last' : Result T₂ L M₂}

theorem matched_iff (h : shadow.Results result other) :
    other.outcome = .matched ↔ result.outcome = .matched := by
  obtain ⟨outcome, cursor, events⟩ := result
  obtain ⟨outcome', cursor', events'⟩ := other
  obtain ⟨ho, hc, he⟩ := h
  cases ho <;> simp

theorem unmatched_iff (h : shadow.Results result other) :
    other.outcome = .unmatched ↔ result.outcome = .unmatched := by
  obtain ⟨outcome, cursor, events⟩ := result
  obtain ⟨outcome', cursor', events'⟩ := other
  obtain ⟨ho, hc, he⟩ := h
  cases ho <;> simp

theorem after {events : List (Event L M₁)} {events' : List (Event L M₂)}
    (he : List.Forall₂ (Event.Alike shadow.Positions) events events')
    (h : shadow.Results last last') : shadow.Results (last.after events) (last'.after events') :=
  ⟨h.outcome, h.cursor, List.rel_append he h.events⟩

theorem accept (h : shadow.Results result other) : shadow.Results result.accept other.accept := by
  obtain ⟨outcome, cursor, events⟩ := result
  obtain ⟨outcome', cursor', events'⟩ := other
  obtain ⟨ho, hc, he⟩ := h
  cases ho with
  | matched | exhausted | faulted => exact ⟨by constructor, hc, he⟩
  | unmatched => exact ⟨.matched, hc, he⟩
  | mandatory hp => exact ⟨.mandatory hp, hc, he⟩

theorem negate (h : shadow.Results result other) : shadow.Results result.negate other.negate := by
  obtain ⟨outcome, cursor, events⟩ := result
  obtain ⟨outcome', cursor', events'⟩ := other
  obtain ⟨ho, hc, he⟩ := h
  cases ho with
  | matched => exact ⟨.unmatched, hc, he⟩
  | unmatched => exact ⟨.matched, hc, he⟩
  | exhausted | faulted => exact ⟨by constructor, hc, he⟩
  | mandatory hp => exact ⟨.mandatory hp, hc, he⟩

variable {p : Position M₁} {q : Position M₂}

theorem backTo (h : shadow.Results result other) (hp : shadow.Positions p q) :
    shadow.Results (result.backTo p) (other.backTo q) := by
  obtain ⟨outcome, cursor, events⟩ := result
  obtain ⟨outcome', cursor', events'⟩ := other
  obtain ⟨ho, hc, he⟩ := h
  cases ho with
  | matched | exhausted | faulted => exact ⟨by constructor, hc, he⟩
  | unmatched => exact ⟨.unmatched, hc.moveTo hp, he⟩
  | mandatory hq => exact ⟨.mandatory hq, hc, he⟩

theorem lookFrom (h : shadow.Results result other) (hp : shadow.Positions p q) :
    shadow.Results (result.lookFrom p) (other.lookFrom q) := by
  obtain ⟨outcome, cursor, events⟩ := result
  obtain ⟨outcome', cursor', events'⟩ := other
  obtain ⟨ho, hc, he⟩ := h
  cases ho with
  | matched => exact ⟨.matched, hc.moveTo hp, he⟩
  | unmatched => exact ⟨.unmatched, hc.moveTo hp, he⟩
  | exhausted | faulted => exact ⟨by constructor, hc, he⟩
  | mandatory hq => exact ⟨.mandatory hq, hc, he⟩

theorem demand (h : shadow.Results result other) : shadow.Results result.demand other.demand := by
  obtain ⟨outcome, cursor, events⟩ := result
  obtain ⟨outcome', cursor', events'⟩ := other
  obtain ⟨ho, hc, he⟩ := h
  have hc : shadow.Cursors cursor cursor' := hc
  cases ho with
  | matched | exhausted | faulted => exact ⟨by constructor, hc, he⟩
  | unmatched =>
    have hp := hc.position
    exact ⟨.mandatory hp, hc, List.rel_append he (.cons (.mandatoryFailed hp) .nil)⟩
  | mandatory hq => exact ⟨.mandatory hq, hc, he⟩

theorem recoverTo (h : shadow.Results result other) (hp : shadow.Positions p q) :
    shadow.Results (result.recoverTo p) (other.recoverTo q) := by
  obtain ⟨outcome, cursor, events⟩ := result
  obtain ⟨outcome', cursor', events'⟩ := other
  obtain ⟨ho, hc, he⟩ := h
  cases ho with
  | matched | unmatched | exhausted | faulted => exact ⟨by constructor, hc, he⟩
  | mandatory hq =>
    exact ⟨.unmatched, hc.moveTo hp, List.rel_append he (.cons (.recovered hq) .nil)⟩

theorem closing {closed : Cursor T₁} {closed' : Cursor T₂} (h : shadow.Results result other)
    (hc : shadow.Cursors closed closed') :
    shadow.Results (result.closing (.ok closed)) (other.closing (.ok closed')) :=
  ⟨h.outcome, hc, h.events⟩

/-- Both close the node that was opened around them, in the same way. -/
theorem closeNode {cursor inside : Cursor T₁}
    {cursor' inside' : Cursor T₂} {label : L} (policy : Policy)
    (hi : cursor.openNode? label = some inside) (hi' : cursor'.openNode? label = some inside')
    (hg : Matching.Grows inside result) (hg' : Matching.Grows inside' other)
    (h : shadow.Results result other) :
    shadow.Results (result.closeNode policy label) (other.closeNode policy label) := by
  obtain ⟨completed, abandoned, hc, ha⟩ := Matching.closes_opened hi hg
  obtain ⟨completed', abandoned', hc', ha'⟩ := Matching.closes_opened hi' hg'
  have ho := opened_of_grows hi hg
  have ho' := opened_of_grows hi' hg'
  have hcs := h.cursor.complete ho hc ho' hc'
  have has := h.cursor.abandon ho ha ho' ha'
  have he := h.events
  have ho := h.outcome
  have hf : shadow.Cursors (if policy.keepsTrail then abandoned.unwind label else abandoned)
      (if policy.keepsTrail then abandoned'.unwind label else abandoned') := by
    split
    · exact has.unwind label
    · exact has
  have hl : List.Forall₂ (Event.Alike shadow.Positions) (result.events ++ [.whileParsing label])
      (other.events ++ [.whileParsing label]) := List.rel_append he (.cons .whileParsing .nil)
  unfold Result.closeNode
  rw [hc, hc', ha, ha']
  generalize hr : result.outcome = outcome, hr' : other.outcome = outcome' at ho
  cases ho with
  | matched => exact h.closing hcs
  | unmatched => exact h.closing has
  | mandatory hq => exact ⟨.mandatory hq, hf, hl⟩
  | exhausted => exact ⟨.exhausted, hf, hl⟩
  | faulted => exact h

end Results

/-! ## Lock step -/

open Matching

/-- Every tree that a part starts with fits. -/
def Fit (parts : List (Course U L T₁ M₁)) : Prop :=
  ∀ attempt ∈ attemptsIn parts, shadow.Fits attempt.cursor.tree

/-- If all trees fit, the results are alike; if not, the other match found no room. -/
def Follows (parts : List (Course U L T₁ M₁)) (result : Result T₁ L M₁)
    (other : Result T₂ L M₂) : Prop :=
  shadow.Fit parts ∧ shadow.Results result other ∨
    ¬ shadow.Fit parts ∧ other.outcome = .failed .exhausted

variable {shadow}

theorem fit_nil : shadow.Fit [] := by
  intro attempt ha
  rw [attemptsIn] at ha
  cases ha

theorem fit_cons {course : Course U L T₁ M₁} {courses : List (Course U L T₁ M₁)} :
    shadow.Fit (course :: courses) ↔
      shadow.Fits course.cursor.tree ∧ shadow.Fit course.parts ∧ shadow.Fit courses := by
  unfold Fit
  simp only [mem_attemptsIn_cons, or_imp, forall_and, forall_eq]

theorem fit_single {course : Course U L T₁ M₁} (h : shadow.Fits course.cursor.tree) :
    shadow.Fit [course] ↔ shadow.Fit course.parts := by
  rw [fit_cons]
  exact ⟨fun hf => hf.2.1, fun hf => ⟨h, hf, fit_nil⟩⟩

namespace Follows

variable {parts rest : List (Course U L T₁ M₁)} {rule : Rule U L} {cursor : Cursor T₁}
  {result last : Result T₁ L M₁} {other last' : Result T₂ L M₂}

theorem of_results (h : shadow.Results result other) : shadow.Follows [] result other :=
  Or.inl ⟨fit_nil, h⟩

theorem imp {change : Result T₁ L M₁ → Result T₁ L M₁} {change' : Result T₂ L M₂ → Result T₂ L M₂}
    (h : shadow.Follows parts result other)
    (hr : shadow.Results result other → shadow.Results (change result) (change' other))
    (hx : other.outcome = .failed .exhausted → (change' other).outcome = .failed .exhausted) :
    shadow.Follows parts (change result) (change' other) :=
  Or.imp (fun ⟨hf, h⟩ => ⟨hf, hr h⟩) (fun ⟨hf, h⟩ => ⟨hf, hx h⟩) h

/-- What follows for the parts of a part that fits follows for the part. -/
theorem part (hc : shadow.Fits cursor.tree) (h : shadow.Follows parts last last') :
    shadow.Follows [⟨rule, cursor, parts, result⟩] last last' := by
  have hs : shadow.Fit [⟨rule, cursor, parts, result⟩] ↔ shadow.Fit parts := fit_single hc
  unfold Follows at h ⊢
  rw [hs]
  exact h

theorem later {cursor' : Cursor T₂} (hc : shadow.Cursors cursor cursor') (hf : shadow.Fit parts)
    (hr : shadow.Results result other) (h : shadow.Follows rest last last') :
    shadow.Follows (⟨rule, cursor, parts, result⟩ :: rest) (last.after result.events)
      (last'.after other.events) := by
  have hs : shadow.Fit (⟨rule, cursor, parts, result⟩ :: rest) ↔ shadow.Fit rest := by
    rw [fit_cons]
    exact ⟨fun h => h.2.2, fun h => ⟨shadow.fits hc.tree, hf, h⟩⟩
  unfold Follows at h ⊢
  rw [hs]
  exact Or.imp (fun ⟨hf, h⟩ => ⟨hf, h.after hr.events⟩) id h

theorem ne_matched (h : shadow.Follows parts result other) (ho : result.outcome ≠ .matched) :
    other.outcome ≠ .matched := by
  rcases h with ⟨-, hr⟩ | ⟨-, hx⟩
  · rw [ne_eq, hr.matched_iff]
    exact ho
  · rw [hx]
    exact nofun

theorem ne_unmatched (h : shadow.Follows parts result other) (ho : result.outcome ≠ .unmatched) :
    other.outcome ≠ .unmatched := by
  rcases h with ⟨-, hr⟩ | ⟨-, hx⟩
  · rw [ne_eq, hr.unmatched_iff]
    exact ho
  · rw [hx]
    exact nofun

/-- Where there was no room, nothing is done later. -/
theorem stop (hf : ¬ shadow.Fit parts) (hx : other.outcome = .failed .exhausted) :
    shadow.Follows (⟨rule, cursor, parts, result⟩ :: rest) last other :=
  Or.inr ⟨fun h => hf (fit_cons.1 h).2.1, hx⟩

end Follows

variable [DecidableEq U] [DecidableEq M₁] [DecidableEq M₂] {references : Nat → Reference U L}
  {policy : Policy}

theorem follows_done {rule : Rule U L} {cursor : Cursor T₁} {other : Cursor T₂}
    {result : Result T₁ L M₁} (h : atOnce? ⟨input, references, policy⟩ rule cursor = some result)
    (hc : shadow.Cursors cursor other) : ∃ result',
      atOnce? ⟨input', references, policy⟩ rule other = some result' ∧
      shadow.Results result result' := by
  cases rule with
  | unit p =>
    have ht := hc.take? p
    simp only [atOnce?, step] at h ⊢
    generalize cursor.take? input p = next, other.take? input' p = next' at ht h ⊢
    cases ht with
    | none =>
      cases h
      exact ⟨_, rfl, .unmatched, hc, .nil⟩
    | some hn =>
      cases h
      exact ⟨_, rfl, .matched, hn, .nil⟩
  | units us =>
    have ht := hc.takeAll? us
    simp only [atOnce?, step] at h ⊢
    generalize cursor.takeAll? input us = next, other.takeAll? input' us = next' at ht h ⊢
    cases ht with
    | none =>
      cases h
      exact ⟨_, rfl, .unmatched, hc.moveTo hc.position, .nil⟩
    | some hn =>
      cases h
      exact ⟨_, rfl, .matched, hn, .nil⟩
  | atEnd =>
    cases h
    refine ⟨_, rfl, ?_, hc, .nil⟩
    dsimp only
    rw [hc.atEnd_eq]
    split
    · exact .matched
    · exact .unmatched
  | succeed =>
    cases h
    exact ⟨_, rfl, .matched, hc, .nil⟩
  | fail =>
    cases h
    exact ⟨_, rfl, .unmatched, hc, .nil⟩
  | exhaust =>
    cases h
    exact ⟨_, rfl, .exhausted, hc, .nil⟩
  | opt rule =>
    simp only [atOnce?, step] at h ⊢
    rw [hc.atEnd_eq]
    split at h
    · rename_i he
      cases h
      rw [if_pos he]
      exact ⟨_, rfl, .matched, hc, .nil⟩
    · cases h
  | store label rule =>
    simp only [atOnce?, step] at h
    split at h
    · cases h
    · rename_i hi
      cases h
      have hi' : other.openNode? label = none :=
        Option.map_eq_none_iff.2 (shadow.full hc.tree hc.at_offset (Option.map_eq_none_iff.1 hi))
      simp only [atOnce?, step, hi']
      exact ⟨_, rfl, .exhausted, hc, .nil⟩
  | ref i =>
    simp only [atOnce?, step] at h ⊢
    split at h
    · cases h
      exact ⟨_, rfl, .unmatched, hc, .cons .notDefined .nil⟩
    · cases h
    · cases h
      exact ⟨_, rfl, .unmatched, hc, .cons .dropped .nil⟩
  | seq | or | star | plus | times | ahead | notAhead | untilPast | mandatory | recover
  | counted => cases h

/-- A match over related trees, at the same place, goes the same way for as long as all fits. -/
theorem goes_follows (hp : policy.nodesAreProgress = false) {task : Task U L M₁}
    {task' : Task U L M₂} {cursor : Cursor T₁} {other : Cursor T₂}
    {parts : List (Course U L T₁ M₁)} {result : Result T₁ L M₁}
    (h : Goes ⟨input, references, policy⟩ task cursor parts result) (ht : shadow.Tasks task task')
    (hc : shadow.Cursors cursor other) : ∃ parts' result',
      Goes ⟨input', references, policy⟩ task' other parts' result' ∧
      shadow.Follows parts result result' := by
  have notMatched : (.failed .exhausted : Outcome (Position M₂)) ≠ .matched := nofun
  have notUnmatched : (.failed .exhausted : Outcome (Position M₂)) ≠ .unmatched := nofun
  induction h generalizing task' other with
  | done h =>
    cases ht
    obtain ⟨result', hd, hr⟩ := follows_done h hc
    exact ⟨[], result', .done hd, .of_results hr⟩
  | seq _ ih =>
    cases ht
    obtain ⟨parts', result', hg, hf⟩ := ih .each hc
    exact ⟨parts', _, .seq hg,
      hf.imp (·.backTo hc.position) ((relays_backTo _ _).outcome_iff _).2⟩
  | or _ ih =>
    cases ht
    obtain ⟨parts', result', hg, hf⟩ := ih .first hc
    exact ⟨parts', _, .or hg, hf⟩
  | star _ ih =>
    cases ht
    obtain ⟨parts', result', hg, hf⟩ := ih .greedy hc
    exact ⟨parts', _, .star hg, hf⟩
  | plusStop _ ho ih =>
    cases ht
    obtain ⟨parts', result', hg, hf⟩ := ih .rule hc
    exact ⟨_, _, .plusStop hg (hf.ne_matched ho), hf.part (shadow.fits hc.tree)⟩
  | plusOn _ ho _ ih ihn =>
    cases ht
    obtain ⟨parts', result', hg, ⟨hf, hr⟩ | ⟨hf, hx⟩⟩ := ih .rule hc
    · obtain ⟨rest', last', hgn, hfn⟩ := ihn .greedy hr.cursor
      exact ⟨_, _, .plusOn hg (hr.matched_iff.2 ho) hgn, hfn.later hc hf hr⟩
    · exact ⟨_, _, .plusStop hg (by rw [hx]; exact notMatched), .stop hf hx⟩
  | opt he _ ih =>
    cases ht
    obtain ⟨parts', result', hg, hf⟩ := ih .rule hc
    exact ⟨_, _, .opt (hc.atEnd_eq.trans he) hg,
      (hf.part (shadow.fits hc.tree)).imp (·.accept) ((relays_accept _).outcome_iff _).2⟩
  | times _ ih =>
    cases ht
    obtain ⟨parts', result', hg, hf⟩ := ih .each hc
    exact ⟨parts', _, .times hg,
      hf.imp (·.backTo hc.position) ((relays_backTo _ _).outcome_iff _).2⟩
  | ahead _ ih =>
    cases ht
    obtain ⟨parts', result', hg, hf⟩ := ih .rule hc
    exact ⟨_, _, .ahead hg,
      (hf.part (shadow.fits hc.tree)).imp (·.lookFrom hc.position)
        ((relays_lookFrom _ _).outcome_iff _).2⟩
  | notAhead _ ih =>
    cases ht
    obtain ⟨parts', result', hg, hf⟩ := ih .rule hc
    have hl := hf.imp (·.lookFrom hc.position) ((relays_lookFrom _ _).outcome_iff _).2
    have hn := hl.imp (·.negate) ((relays_negate _).outcome_iff _).2
    exact ⟨_, _, .notAhead hg, hn.part (shadow.fits hc.tree)⟩
  | untilPast _ ih =>
    cases ht
    obtain ⟨parts', result', hg, hf⟩ := ih (.scan hc.position) hc
    exact ⟨parts', _, .untilPast hg, hf⟩
  | mandatory _ ih =>
    cases ht
    obtain ⟨parts', result', hg, hf⟩ := ih .rule hc
    exact ⟨_, _, .mandatory hg,
      (hf.part (shadow.fits hc.tree)).imp (·.demand) demand_exhausted⟩
  | recover _ ih =>
    cases ht
    obtain ⟨parts', result', hg, hf⟩ := ih .rule hc
    exact ⟨_, _, .recover hg,
      (hf.part (shadow.fits hc.tree)).imp (·.recoverTo hc.position) (recoverTo_exhausted _)⟩
  | store hi h ih =>
    cases ht
    rcases hc.openNode? hi with ⟨inside', hi', hc'⟩ | ⟨hf, hi'⟩
    · obtain ⟨parts', result', hg, hf⟩ := ih .rule hc'
      have hb' := (goes_balanced hg).toGrows
      exact ⟨_, _, .store hi' hg, (hf.part (shadow.fits hc'.tree)).imp
        (·.closeNode policy hi hi' (goes_balanced h).toGrows hb')
        ((relays_closeNode policy hi' hb').outcome_iff _).2⟩
    · refine ⟨[], ⟨.failed .exhausted, other, []⟩, .done ?_, Or.inr ⟨fun h => ?_, rfl⟩⟩
      · simp only [atOnce?, step, hi']
      · exact hf (fit_cons.1 h).1
  | ref hi _ ih =>
    cases ht
    obtain ⟨parts', result', hg, hf⟩ := ih .rule hc
    exact ⟨_, _, .ref hi hg, hf.part (shadow.fits hc.tree)⟩
  | counted _ ih =>
    cases ht
    obtain ⟨parts', result', hg, hf⟩ := ih .rule hc
    exact ⟨_, _, .counted hg,
      (hf.part (shadow.fits hc.tree)).imp (·.after (.cons .tried .nil)) id⟩
  | eachNil =>
    cases ht
    exact ⟨_, _, .eachNil, .of_results ⟨.matched, hc, .nil⟩⟩
  | eachStop _ ho ih =>
    cases ht
    obtain ⟨parts', result', hg, hf⟩ := ih .rule hc
    exact ⟨_, _, .eachStop hg (hf.ne_matched ho), hf.part (shadow.fits hc.tree)⟩
  | eachOn _ ho _ ih ihn =>
    cases ht
    obtain ⟨parts', result', hg, ⟨hf, hr⟩ | ⟨hf, hx⟩⟩ := ih .rule hc
    · obtain ⟨rest', last', hgn, hfn⟩ := ihn .each hr.cursor
      exact ⟨_, _, .eachOn hg (hr.matched_iff.2 ho) hgn, hfn.later hc hf hr⟩
    · exact ⟨_, _, .eachStop hg (by rw [hx]; exact notMatched), .stop hf hx⟩
  | firstNil =>
    cases ht
    exact ⟨_, _, .firstNil, .of_results ⟨.unmatched, hc, .nil⟩⟩
  | firstStop _ ho ih =>
    cases ht
    obtain ⟨parts', result', hg, hf⟩ := ih .rule hc
    exact ⟨_, _, .firstStop hg (hf.ne_unmatched ho), hf.part (shadow.fits hc.tree)⟩
  | firstOn _ ho _ ih ihn =>
    cases ht
    obtain ⟨parts', result', hg, ⟨hf, hr⟩ | ⟨hf, hx⟩⟩ := ih .rule hc
    · obtain ⟨rest', last', hgn, hfn⟩ := ihn .first hr.cursor
      exact ⟨_, _, .firstOn hg (hr.unmatched_iff.2 ho) hgn, hfn.later hc hf hr⟩
    · exact ⟨_, _, .firstStop hg (by rw [hx]; exact notUnmatched), .stop hf hx⟩
  | greedyEnd he =>
    cases ht
    exact ⟨_, _, .greedyEnd (hc.atEnd_eq.trans he), .of_results ⟨.matched, hc, .nil⟩⟩
  | greedyStop he _ ho ih =>
    cases ht
    obtain ⟨parts', result', hg, hf⟩ := ih .rule hc
    exact ⟨_, _, .greedyStop (hc.atEnd_eq.trans he) hg (hf.ne_matched ho),
      (hf.part (shadow.fits hc.tree)).imp (·.accept) ((relays_accept _).outcome_iff _).2⟩
  | greedyStill he _ ho hs ih =>
    cases ht
    have he' := hc.atEnd_eq.trans he
    obtain ⟨parts', result', hg, ⟨hf, hr⟩ | ⟨hf, hx⟩⟩ := ih .rule hc
    · exact ⟨_, _, .greedyStill he' hg (hr.matched_iff.2 ho)
        ((hc.progressed_eq hp hr.cursor).trans hs), .part (shadow.fits hc.tree) (Or.inl ⟨hf, hr⟩)⟩
    · exact ⟨_, _, .greedyStop he' hg (by rw [hx]; exact notMatched),
        .stop hf (((relays_accept _).outcome_iff _).2 hx)⟩
  | greedyOn he _ ho hs _ ih ihn =>
    cases ht
    have he' := hc.atEnd_eq.trans he
    obtain ⟨parts', result', hg, ⟨hf, hr⟩ | ⟨hf, hx⟩⟩ := ih .rule hc
    · obtain ⟨rest', last', hgn, hfn⟩ := ihn .greedy hr.cursor
      exact ⟨_, _, .greedyOn he' hg (hr.matched_iff.2 ho)
        ((hc.progressed_eq hp hr.cursor).trans hs) hgn, hfn.later hc hf hr⟩
    · exact ⟨_, _, .greedyStop he' hg (by rw [hx]; exact notMatched),
        .stop hf (((relays_accept _).outcome_iff _).2 hx)⟩
  | scanStop _ ho ih =>
    cases ht
    obtain ⟨parts', result', hg, hf⟩ := ih .rule hc
    exact ⟨_, _, .scanStop hg (hf.ne_unmatched ho), hf.part (shadow.fits hc.tree)⟩
  | scanEnd _ ho he ih =>
    cases ht with
    | scan hs =>
      obtain ⟨parts', result', hg, ⟨hf, hr⟩ | ⟨hf, hx⟩⟩ := ih .rule hc
      · have hn := hr.cursor.advance
        exact ⟨_, _, .scanEnd hg (hr.unmatched_iff.2 ho) (hn.atEnd_eq.trans he),
          .part (shadow.fits hc.tree) (Or.inl ⟨hf, .unmatched, hn.moveTo hs, hr.events⟩)⟩
      · exact ⟨_, _, .scanStop hg (by rw [hx]; exact notUnmatched), .stop hf hx⟩
  | scanOn _ ho he _ ih ihn =>
    cases ht with
    | scan hs =>
      obtain ⟨parts', result', hg, ⟨hf, hr⟩ | ⟨hf, hx⟩⟩ := ih .rule hc
      · have hn := hr.cursor.advance
        obtain ⟨rest', last', hgn, hfn⟩ := ihn (.scan hs) hn
        exact ⟨_, _, .scanOn hg (hr.unmatched_iff.2 ho) (hn.atEnd_eq.trans he) hgn,
          hfn.later hc hf hr⟩
      · exact ⟨_, _, .scanStop hg (by rw [hx]; exact notUnmatched), .stop hf hx⟩

/-- What follows a match that went its course to its result. -/
theorem returns_follows (hp : policy.nodesAreProgress = false) {course : Course U L T₁ M₁}
    (h : course.Happens ⟨input, references, policy⟩) {other : Cursor T₂}
    (hc : shadow.Cursors course.cursor other) : ∃ result',
      Returns ⟨input', references, policy⟩ course.rule other result' ∧
      shadow.Follows course.parts course.result result' := by
  obtain ⟨parts', result', hg, hf⟩ := goes_follows hp h .rule hc
  exact ⟨result', returns_iff_goes.2 ⟨parts', hg⟩, hf⟩

/-- Where all trees fit, the other match has a result alike. -/
theorem returns_results (hf : ∀ t, shadow.Fits t) (hp : policy.nodesAreProgress = false)
    {rule : Rule U L} {cursor : Cursor T₁} {other : Cursor T₂} {result : Result T₁ L M₁}
    (h : Returns ⟨input, references, policy⟩ rule cursor result)
    (hc : shadow.Cursors cursor other) : ∃ result',
      Returns ⟨input', references, policy⟩ rule other result' ∧ shadow.Results result result' := by
  obtain ⟨course, hh, rfl, rfl, rfl, -⟩ := h.traced
  obtain ⟨result', hr, hfollows⟩ := returns_follows hp hh hc
  exact ⟨result', hr, (hfollows.resolve_right fun hx => hx.1 fun _ _ => hf _).2⟩

end Shadow

end

end Peg
