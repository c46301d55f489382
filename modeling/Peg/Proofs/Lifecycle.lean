import Peg.Proofs.Trace
import Peg.Sample.Grammar
import Peg.Script.Forward

/-
  The life of forward rules: what was called so far decides what every name and every handle stands
  for. A forward rule has one number for ever, that of its declaration among all declarations. It
  lives as long as it has its name, its first definition is its definition, and a handle keeps the
  number that it was taken with (`forward_lifecycle`).
-/

namespace Peg

/-! ## Names and registries -/

namespace Names

variable {α : Type}

theorem lookup_put (names : Names α) (name other : String) (a : α) :
    (names.put name a).lookup other = if other = name then some a else names.lookup other := by
  show List.lookup other ((name, a) :: names) = _
  rw [List.lookup_cons]
  by_cases h : other = name
  · rw [if_pos h, beq_iff_eq.2 h]
  · rw [if_neg h, beq_false_of_ne h]

theorem lookup_erase (names : Names α) (name other : String) :
    (names.erase name).lookup other = if other = name then none else names.lookup other := by
  unfold erase
  induction names with
  | nil => exact (ite_self none).symm
  | cons entry names ih =>
    obtain ⟨first, a⟩ := entry
    have hc : List.lookup other ((first, a) :: names) = _ := lookup_put names first other a
    rw [List.filter_cons, hc]
    by_cases hf : first = name
    · subst hf
      rw [if_neg (by simp), ih]
      split <;> rfl
    · rw [if_pos (bne_iff_ne.2 hf)]
      show (put (names.filter (·.1 != name)) first a).lookup other = _
      rw [lookup_put, ih]
      by_cases ho : other = first
      · rw [if_pos ho, if_neg (ho ▸ hf)]
        exact (if_pos ho).symm
      · rw [if_neg ho, if_neg ho]

end Names

namespace Registry

variable {U L : Type} {registry registry' : Registry U L} {i : Nat} {rule : Rule U L}

theorem next_drop (registry : Registry U L) (i : Nat) : (registry.drop i).next = registry.next :=
  Array.size_setIfInBounds

theorem next_declare (registry : Registry U L) : registry.declare.next = registry.next + 1 :=
  Array.size_push _

theorem lookup_declare (registry : Registry U L) (k : Nat) :
    registry.declare.lookup k = if k = registry.next then .undefined else registry.lookup k := by
  unfold lookup declare next
  dsimp only
  rw [Array.getElem?_push]
  split <;> rfl

theorem lookup_of_le {k : Nat} (h : registry.next ≤ k) : registry.lookup k = .dropped := by
  unfold lookup
  rw [Array.getElem?_eq_none h]
  rfl

theorem lookup_drop (registry : Registry U L) (i k : Nat) :
    (registry.drop i).lookup k = if k = i then .dropped else registry.lookup k := by
  unfold lookup drop
  dsimp only
  rw [Array.getElem?_setIfInBounds]
  by_cases h : i = k
  · subst h
    rw [if_pos rfl, if_pos rfl]
    split <;> rfl
  · rw [if_neg h, if_neg (Ne.symm h)]

/-- A definition is taken where there is none yet, and nothing else changes. -/
theorem define?_eq_some (h : registry.define? i rule = some registry') :
    registry'.next = registry.next ∧
      ∀ k, registry'.lookup k = if k = i then .defined rule else registry.lookup k := by
  unfold define? at h
  split at h
  · rename_i hi
    cases h
    have hl : i < registry.entries.size := by
      refine Nat.lt_of_not_le fun hle => ?_
      rw [lookup_of_le hle] at hi
      cases hi
    refine ⟨Array.size_setIfInBounds, fun k => ?_⟩
    unfold lookup
    dsimp only
    rw [Array.getElem?_setIfInBounds]
    by_cases hk : i = k
    · subst hk
      rw [if_pos rfl, if_pos rfl, if_pos hl]
      rfl
    · rw [if_neg hk, if_neg (Ne.symm hk)]
  · cases h

theorem define?_of_undefined (rule : Rule U L) (h : registry.lookup i = .undefined) :
    ∃ registry', registry.define? i rule = some registry' := by
  unfold define?
  rw [h]
  exact ⟨_, rfl⟩

theorem define?_of_defined {first : Rule U L} (rule : Rule U L)
    (h : registry.lookup i = .defined first) : registry.define? i rule = none := by
  unfold define?
  rw [h]

end Registry

/-! ## What was called so far -/

namespace Script

variable {L U : Type} [InputUnit U]

/-- How many forward rules were declared; the latest call comes first. -/
def created : List (ForwardCall L U) → Nat
  | [] => 0
  | .declare _ :: past => created past + 1
  | _ :: past => created past

/-- The number of the forward rule that has the name. -/
def holder? : List (ForwardCall L U) → String → Option Nat
  | [], _ => none
  | .declare name :: past, other => if other = name then some (created past) else holder? past other
  | .drop name :: past, other => if other = name then none else holder? past other
  | _ :: past, other => holder? past other

/-- The number of the forward rule that the handle was taken from, if need be through other
handles. -/
def source? : List (ForwardCall L U) → String → Option Nat
  | [], _ => none
  | .handle name handle :: past, other =>
    if other = handle then holder? past name else source? past other
  | .copy handle copy :: past, other =>
    if other = copy then source? past handle else source? past other
  | _ :: past, other => source? past other

/-- The first definition that was given for the forward rule of the number. -/
def definition? : List (ForwardCall L U) → Nat → Option (Rule U L)
  | [], _ => none
  | .define name rule _ :: past, k =>
    (definition? past k).or (if holder? past name = some k then some rule else none)
  | _ :: past, k => definition? past k

/-- The forward rule of the number has been neither dropped nor replaced. -/
def Alive (past : List (ForwardCall L U)) (k : Nat) : Prop :=
  ∃ name, holder? past name = some k

/-- The name under which the call takes or copies a handle. -/
def ForwardCall.taken? : ForwardCall L U → Option String
  | .handle _ taken | .copy _ taken => some taken
  | _ => none

variable {past : List (ForwardCall L U)} {name other : String} {k : Nat}

theorem holder_lt (h : holder? past name = some k) : k < created past := by
  induction past with
  | nil => cases h
  | cons call past ih =>
    cases call with
    | declare other =>
      show k < created past + 1
      simp only [holder?] at h
      split at h
      · cases h
        exact Nat.lt_succ_self _
      · exact Nat.lt_succ_of_lt (ih h)
    | drop other =>
      simp only [holder?] at h
      split at h
      · cases h
      · exact ih h
    | _ => exact ih h

/-- No two names have the same forward rule. -/
theorem holder_unique (h : holder? past name = some k) (h' : holder? past other = some k) :
    name = other := by
  induction past with
  | nil => cases h
  | cons call past ih =>
    cases call with
    | declare newest =>
      simp only [holder?] at h h'
      split at h <;> split at h'
      · rename_i hn ho
        rw [hn, ho]
      · cases h
        exact absurd (holder_lt h') (Nat.lt_irrefl _)
      · cases h'
        exact absurd (holder_lt h) (Nat.lt_irrefl _)
      · exact ih h h'
    | drop gone =>
      simp only [holder?] at h h'
      split at h <;> split at h'
      · cases h
      · cases h
      · cases h'
      · exact ih h h'
    | _ => exact ih h h'

theorem source_lt (h : source? past name = some k) : k < created past := by
  induction past generalizing name with
  | nil => cases h
  | cons call past ih =>
    cases call with
    | declare other => exact Nat.lt_succ_of_lt (ih h)
    | handle other taken =>
      simp only [source?] at h
      split at h
      · exact holder_lt h
      · exact ih h
    | copy handle taken =>
      simp only [source?] at h
      split at h <;> exact ih h
    | _ => exact ih h

theorem definition_lt {rule : Rule U L} (h : definition? past k = some rule) :
    k < created past := by
  induction past with
  | nil => cases h
  | cons call past ih =>
    cases call with
    | declare other => exact Nat.lt_succ_of_lt (ih h)
    | define name new keep? =>
      rcases Option.or_eq_some_iff.1 h with h | ⟨-, h⟩
      · exact ih h
      · split at h
        · rename_i hh
          exact holder_lt hh
        · cases h
    | _ => exact ih h

theorem alive_declare : Alive (.declare name :: past) k ↔
    k = created past ∨ Alive past k ∧ holder? past name ≠ some k := by
  constructor
  · rintro ⟨other, h⟩
    simp only [holder?] at h
    split at h
    · exact Or.inl (Option.some.inj h).symm
    · rename_i ho
      exact Or.inr ⟨⟨other, h⟩, fun h' => ho (holder_unique h h')⟩
  · rintro (rfl | ⟨⟨other, h⟩, hn⟩)
    · exact ⟨name, if_pos rfl⟩
    · refine ⟨other, (if_neg ?_).trans h⟩
      rintro rfl
      exact hn h

theorem alive_drop :
    Alive (.drop name :: past) k ↔ Alive past k ∧ holder? past name ≠ some k := by
  constructor
  · rintro ⟨other, h⟩
    simp only [holder?] at h
    split at h
    · cases h
    · rename_i ho
      exact ⟨⟨other, h⟩, fun h' => ho (holder_unique h h')⟩
  · rintro ⟨⟨other, h⟩, hn⟩
    refine ⟨other, (if_neg ?_).trans h⟩
    rintro rfl
    exact hn h

/-! ## The workspace recalls it -/

/-- The workspace after the calls: its names, its handles and what its numbers stand for. -/
structure Recalls (past : List (ForwardCall L U)) (space : Workspace U L) : Prop where
  next_eq : space.registry.next = created past
  owner_eq : ∀ name, space.owner? name = holder? past name
  handle_eq : ∀ name, space.handles.lookup name = source? past name
  alive : ∀ k, Alive past k →
    space.registry.lookup k = (definition? past k).elim .undefined .defined
  dead : ∀ k, ¬ Alive past k → space.registry.lookup k = .dropped

namespace Recalls

variable {space : Workspace U L}

theorem drop (h : Recalls past space) (name : String) :
    Recalls (.drop name :: past) (space.drop name).2 := by
  have ho := h.owner_eq name
  unfold Workspace.drop
  cases hn : space.owner? name with
  | none =>
    rw [hn] at ho
    have hsame : ∀ k, Alive (.drop name :: past) k ↔ Alive past k := by
      intro k
      rw [alive_drop, ← ho]
      simp
    refine ⟨h.next_eq, fun other => ?_, h.handle_eq, fun k hk => h.alive k ((hsame k).1 hk),
      fun k hk => h.dead k (mt (hsame k).2 hk)⟩
    show space.owner? other = if other = name then none else holder? past other
    split
    · rename_i he
      rw [he, hn]
    · exact h.owner_eq other
  | some i =>
    rw [hn] at ho
    refine ⟨(Registry.next_drop _ _).trans h.next_eq, fun other => ?_, h.handle_eq, fun k hk => ?_,
      fun k hk => ?_⟩
    · show (space.owners.erase name).lookup other =
        if other = name then none else holder? past other
      rw [Names.lookup_erase, ← h.owner_eq other]
      rfl
    · obtain ⟨hk, hne⟩ := alive_drop.1 hk
      show (space.registry.drop i).lookup k = _
      rw [Registry.lookup_drop, if_neg fun hki => hne (by rw [← ho, hki])]
      exact h.alive k hk
    · show (space.registry.drop i).lookup k = _
      rw [Registry.lookup_drop]
      split
      · rfl
      · rename_i hki
        refine h.dead k fun ha => hk (alive_drop.2 ⟨ha, ?_⟩)
        rw [← ho]
        exact fun he => hki (Option.some.inj he).symm

theorem declare (h : Recalls past space) (name : String) :
    Recalls (.declare name :: past) (space.declare name) := by
  -- The rule that had the name before is dropped first.
  have hd := h.drop name
  have hnext : (space.drop name).2.registry.next = created past := hd.next_eq
  refine ⟨?_, fun other => ?_, hd.handle_eq, fun k hk => ?_, fun k hk => ?_⟩
  · show (space.drop name).2.registry.declare.next = created past + 1
    rw [Registry.next_declare, hnext]
  · show ((space.drop name).2.owners.put name (space.drop name).2.registry.next).lookup other =
      if other = name then some (created past) else holder? past other
    have ho : (space.drop name).2.owners.lookup other =
        if other = name then none else holder? past other := hd.owner_eq other
    rw [Names.lookup_put, ho, hnext]
    split <;> rfl
  · show (space.drop name).2.registry.declare.lookup k = (definition? past k).elim _ _
    rw [Registry.lookup_declare, hnext]
    by_cases hk' : k = created past
    · have hn : definition? past k = none := by
        cases hd : definition? past k with
        | none => rfl
        | some rule => exact absurd (definition_lt hd) (by omega)
      rw [if_pos hk', hn]
      rfl
    · rw [if_neg hk']
      exact hd.alive k (alive_drop.2 ((alive_declare.1 hk).resolve_left hk'))
  · show (space.drop name).2.registry.declare.lookup k = _
    rw [Registry.lookup_declare, hnext, if_neg fun hk' => hk (alive_declare.2 (Or.inl hk'))]
    exact hd.dead k fun ha => hk (alive_declare.2 (Or.inr (alive_drop.1 ha)))

theorem define {isNew : Bool} {space' : Workspace U L} {rule : Rule U L}
    {keep? : Option String} (h : Recalls past space)
    (hd : space.define? name rule keep? = some (isNew, space')) :
    Recalls (.define name rule keep? :: past) space' := by
  obtain ⟨i, hi, hd⟩ := Option.map_eq_some_iff.1 hd
  have hi : holder? past name = some i := (h.owner_eq name).symm.trans hi
  have hl := h.alive i ⟨name, hi⟩
  cases hf : definition? past i with
  | none =>
    rw [hf] at hl
    obtain ⟨registry, hr⟩ := Registry.define?_of_undefined rule hl
    obtain ⟨hnext, hlook⟩ := Registry.define?_eq_some hr
    simp only [hr] at hd
    cases hd
    refine ⟨hnext.trans h.next_eq, h.owner_eq, h.handle_eq, fun k hk => ?_, fun k hk => ?_⟩
    · show registry.lookup k = ((definition? past k).or _).elim _ _
      rw [hlook, hi]
      by_cases hk' : k = i
      · subst hk'
        rw [hf, if_pos rfl, if_pos rfl]
        rfl
      · rw [if_neg hk', if_neg fun he => hk' (Option.some.inj he).symm, Option.or_none]
        exact h.alive k hk
    · show registry.lookup k = _
      rw [hlook, if_neg fun hk' : k = i => hk ⟨name, hk' ▸ hi⟩]
      exact h.dead k hk
  | some first =>
    rw [hf] at hl
    have hr := Registry.define?_of_defined rule hl
    simp only [hr] at hd
    cases hd
    refine ⟨h.next_eq, h.owner_eq, h.handle_eq, fun k hk => ?_, h.dead⟩
    show space.registry.lookup k = ((definition? past k).or _).elim _ _
    rw [hi]
    by_cases hk' : k = i
    · subst hk'
      rw [hf, Option.some_or]
      exact hl
    · rw [if_neg fun he => hk' (Option.some.inj he).symm, Option.or_none]
      exact h.alive k hk

theorem handle {space' : Workspace U L} {taken : String} (h : Recalls past space)
    (hd : space.handle? name taken = some space') :
    Recalls (.handle name taken :: past) space' := by
  obtain ⟨i, hi, rfl⟩ := Option.map_eq_some_iff.1 hd
  refine ⟨h.next_eq, h.owner_eq, fun other => ?_, h.alive, h.dead⟩
  show (space.handles.put taken i).lookup other = _
  rw [Names.lookup_put, h.handle_eq, ← hi, h.owner_eq]
  rfl

theorem copy {space' : Workspace U L} {taken : String} (h : Recalls past space)
    (hd : space.copy? name taken = some space') :
    Recalls (.copy name taken :: past) space' := by
  obtain ⟨i, hi, rfl⟩ := Option.map_eq_some_iff.1 hd
  refine ⟨h.next_eq, h.owner_eq, fun other => ?_, h.alive, h.dead⟩
  show (space.handles.put taken i).lookup other = _
  rw [Names.lookup_put, h.handle_eq, ← hi, h.handle_eq]
  rfl

variable [DecidableEq U] [DecidableEq L]

theorem call {bound : Nat} {call : ForwardCall L U} {answer : ForwardAnswer L}
    {space' : Workspace U L} (h : Recalls past space)
    (hc : callForward? bound space call = some (answer, space')) :
    Recalls (call :: past) space' := by
  cases call with
  | declare name =>
    cases hc
    exact h.declare name
  | define name rule keep? =>
    obtain ⟨⟨isNew, _⟩, hd, hc⟩ := Option.map_eq_some_iff.1 hc
    cases hc
    exact h.define hd
  | handle name taken =>
    obtain ⟨_, hd, hc⟩ := Option.map_eq_some_iff.1 hc
    cases hc
    exact h.handle hd
  | copy name taken =>
    obtain ⟨_, hd, hc⟩ := Option.map_eq_some_iff.1 hc
    cases hc
    exact h.copy hd
  | drop name =>
    cases hc
    exact h.drop name
  | isDefined | describe | tryRule =>
    obtain ⟨_, -, hc⟩ := Option.map_eq_some_iff.1 hc
    cases hc
    exact ⟨h.next_eq, h.owner_eq, h.handle_eq, h.alive, h.dead⟩
  | tryNamed name input =>
    obtain ⟨_, -, hc⟩ := Option.bind_eq_some_iff.1 hc
    obtain ⟨_, -, hc⟩ := Option.map_eq_some_iff.1 hc
    cases hc
    exact ⟨h.next_eq, h.owner_eq, h.handle_eq, h.alive, h.dead⟩

end Recalls

/-! ## What a reference does -/

section

variable [DecidableEq U] [DecidableEq L] [Describe L]

/-- Over every kind of tree, the reference is matched as the rule is. -/
def StandsFor (setting : Setting U L) (k : Nat) (rule : Rule U L) : Prop :=
  ∀ (T M : Type) [NodeTree T L M] [DecidableEq M] (cursor : Cursor T) (result : Result T L M),
    Matching.Returns setting (.ref k) cursor result ↔ Matching.Returns setting rule cursor result

/-- Over every kind of tree, the reference does not match, leaves the cursor as it was, and logs one
line, which is a warning. -/
def OnlyWarns (setting : Setting U L) (k : Nat) (text : String) : Prop :=
  ∀ (T M : Type) [NodeTree T L M] [DecidableEq M] [Describe M] (cursor : Cursor T),
    ∃ event : Event L M, event.logLine? = some ⟨.warn, text⟩ ∧ ∀ result,
      Matching.Returns setting (.ref k) cursor result ↔ result = ⟨.unmatched, cursor, [event]⟩

variable {setting : Setting U L} {k : Nat} {rule : Rule U L}

omit [DecidableEq L] [Describe L] in
theorem standsFor (h : setting.references k = .defined rule) : StandsFor setting k rule := by
  intro T M _ _ cursor result
  constructor
  · rintro ⟨bound, hr⟩
    cases bound with
    | zero => cases hr
    | succ bound =>
      simp only [Matching.run, Matching.step, h] at hr
      exact ⟨bound, hr⟩
  · rintro ⟨bound, hr⟩
    refine ⟨bound + 1, ?_⟩
    simp only [Matching.run, Matching.step, h]
    exact hr

omit [DecidableEq L] in
theorem onlyWarns_of_undefined (h : setting.references k = .undefined) :
    OnlyWarns setting k "forward rule matched before being defined" := by
  intro T M _ _ _ cursor
  refine ⟨.notDefined, rfl, fun result => Matching.returns_iff_of_atOnce? ?_⟩
  simp only [Matching.atOnce?, Matching.step, h]

omit [DecidableEq L] in
theorem onlyWarns_of_dropped (h : setting.references k = .dropped) :
    OnlyWarns setting k "forward rule matched after being dropped" := by
  intro T M _ _ _ cursor
  refine ⟨.dropped, rfl, fun result => Matching.returns_iff_of_atOnce? ?_⟩
  simp only [Matching.atOnce?, Matching.step, h]

/-! ## The life of a forward rule -/

/-- The workspace came of the calls, the latest of which is first. -/
inductive Lived : List (ForwardCall L U) → Workspace U L → Prop
  | nil : Lived [] (.ofRules [])
  | call {past space space' bound call answer} (h : Lived past space)
      (hc : callForward? bound space call = some (answer, space')) : Lived (call :: past) space'

omit [Describe L] in
theorem Lived.recalls {past : List (ForwardCall L U)} {space : Workspace U L}
    (h : Lived past space) : Recalls past space := by
  induction h with
  | nil =>
    refine ⟨rfl, fun _ => rfl, fun _ => rfl, ?_, fun k _ => Registry.lookup_of_le (Nat.zero_le k)⟩
    rintro k ⟨name, h⟩
    cases h
  | call _ hc ih => exact ih.call hc

/-- How forward rules stand after the calls. The first definition of one is taken. Every other is
given back, and changes nothing but what is kept. A name is matched as its forward rule, or else as
its handle, and what that does is decided by the first definition while the forward rule lives. -/
structure Lifecycle (past : List (ForwardCall L U)) (space : Workspace U L) : Prop where
  owner : ∀ name, space.owner? name = holder? past name
  handle : ∀ name, space.handles.lookup name = source? past name
  define_first : ∀ {name k}, holder? past name = some k → definition? past k = none →
    ∀ bound rule keep?,
      (∃ space', callForward? bound space (.define name rule keep?) = some (.holds true, space')) ∧
      definition? (.define name rule keep? :: past) k = some rule
  define_again : ∀ {name k first}, holder? past name = some k → definition? past k = some first →
    ∀ bound rule keep?, callForward? bound space (.define name rule keep?) =
      some (.holds false, { space with kept := keep?.elim space.kept (space.kept.put · rule) })
  named : ∀ {bound name input answer space'},
    callForward? bound space (.tryNamed name input) = some (answer, space') →
      space' = space ∧ ∃ k result, (holder? past name).or (source? past name) = some k ∧
        answer = .result result ∧
        Matching.Returns ⟨input, space.registry.lookup, .text⟩ (.ref k)
          (.start .empty) result
  defined : ∀ {k rule}, Alive past k → definition? past k = some rule →
    ∀ input policy, StandsFor ⟨input, space.registry.lookup, policy⟩ k rule
  undefined : ∀ {k}, Alive past k → definition? past k = none →
    ∀ input policy, OnlyWarns ⟨input, space.registry.lookup, policy⟩ k
      "forward rule matched before being defined"
  dead : ∀ {k}, ¬ Alive past k →
    ∀ input policy, OnlyWarns ⟨input, space.registry.lookup, policy⟩ k
      "forward rule matched after being dropped"

theorem Recalls.lifecycle {past : List (ForwardCall L U)} {space : Workspace U L}
    (h : Recalls past space) : Lifecycle past space where
  owner := h.owner_eq
  handle := h.handle_eq
  define_first {name k} hn hf bound rule keep? := by
    have hl := h.alive k ⟨name, hn⟩
    rw [hf] at hl
    obtain ⟨registry, hr⟩ := Registry.define?_of_undefined rule hl
    have ho : space.owner? name = some k := (h.owner_eq name).trans hn
    constructor
    · refine ⟨{ space with registry := registry }, ?_⟩
      simp only [callForward?, Workspace.define?, ho, hr, Option.map_some]
    · simp only [definition?, hf, hn, if_true, Option.none_or]
  define_again {name k first} hn hf bound rule keep? := by
    have hl := h.alive k ⟨name, hn⟩
    rw [hf] at hl
    have hr := Registry.define?_of_defined rule hl
    have ho : space.owner? name = some k := (h.owner_eq name).trans hn
    simp only [callForward?, Workspace.define?, ho, hr, Option.map_some]
  named {bound name input answer space'} hc := by
    obtain ⟨k, hk, hc⟩ := Option.bind_eq_some_iff.1 hc
    obtain ⟨result, hr, hc⟩ := Option.map_eq_some_iff.1 hc
    cases hc
    rw [Workspace.resolve?, h.owner_eq, h.handle_eq] at hk
    exact ⟨rfl, k, result, hk, rfl, bound, hr⟩
  defined {k rule} ha hf input policy := by
    have hl : space.registry.lookup k = .defined rule := by
      rw [h.alive k ha, hf]
      rfl
    exact standsFor hl
  undefined {k} ha hf input policy := by
    have hl : space.registry.lookup k = .undefined := by
      rw [h.alive k ha, hf]
      rfl
    exact onlyWarns_of_undefined hl
  dead {k} ha input policy := onlyWarns_of_dropped (h.dead k ha)

end

/-! ## What lasts -/

theorem definition_lasts {rule : Rule U L} (h : definition? past k = some rule)
    (later : List (ForwardCall L U)) : definition? (later ++ past) k = some rule := by
  induction later with
  | nil => exact h
  | cons call later ih =>
    cases call with
    | define name new keep? =>
      show (definition? (later ++ past) k).or _ = some rule
      rw [ih]
      rfl
    | _ => exact ih

theorem source_lasts {handle : String} (h : source? past handle = some k)
    {later : List (ForwardCall L U)} (ht : ∀ call ∈ later, call.taken? ≠ some handle) :
    source? (later ++ past) handle = some k := by
  induction later with
  | nil => exact h
  | cons call later ih =>
    obtain ⟨hc, ht⟩ := List.forall_mem_cons.1 ht
    have ih := ih ht
    cases call with
    | handle name taken | copy name taken =>
      have hne : handle ≠ taken := fun he => hc (congrArg some he.symm)
      exact (if_neg hne).trans ih
    | _ => exact ih

theorem created_le (later past : List (ForwardCall L U)) :
    created past ≤ created (later ++ past) := by
  induction later with
  | nil => exact Nat.le_refl _
  | cons call later ih =>
    cases call with
    | declare name => exact Nat.le_succ_of_le ih
    | _ => exact ih

/-- A name never gets a forward rule that is there already. -/
theorem holder_of_later {later : List (ForwardCall L U)} (hk : k < created past)
    (h : holder? (later ++ past) name = some k) : holder? past name = some k := by
  induction later with
  | nil => exact h
  | cons call later ih =>
    cases call with
    | declare other =>
      simp only [List.cons_append, holder?] at h
      split at h
      · cases h
        exact absurd hk (Nat.not_lt_of_le (created_le later past))
      · exact ih h
    | drop other =>
      simp only [List.cons_append, holder?] at h
      split at h
      · cases h
      · exact ih h
    | _ => exact ih h

/-- Whatever is called later, definitions stay as they are, and so does what a handle stands for,
unless another one is put in its place. No name gets the forward rule of a handle anew, and what was
dropped does not come back. -/
structure Lasts (past later : List (ForwardCall L U)) : Prop where
  definition : ∀ {k rule}, definition? past k = some rule →
    definition? (later ++ past) k = some rule
  handle : ∀ {handle k}, source? past handle = some k →
    (∀ call ∈ later, call.taken? ≠ some handle) → source? (later ++ past) handle = some k
  holder : ∀ {handle k}, source? past handle = some k →
    ∀ name, holder? (later ++ past) name = some k → holder? past name = some k
  dead : ∀ {k}, k < created past → ¬ Alive past k → ¬ Alive (later ++ past) k

/-- Whatever was called, forward rules stand as the calls say, and whatever is called later, what
they stand for lasts. -/
theorem forward_lifecycle [DecidableEq U] [DecidableEq L] [Describe L]
    {past : List (ForwardCall L U)} {space : Workspace U L} (h : Lived past space) :
    Lifecycle past space ∧ ∀ later, Lasts past later :=
  ⟨h.recalls.lifecycle, fun later =>
    ⟨fun hd => definition_lasts hd later, fun hs ht => source_lasts hs ht,
      fun hs _ hh => holder_of_later (source_lt hs) hh,
      fun hk ha ⟨name, hh⟩ => ha ⟨name, holder_of_later hk hh⟩⟩⟩

/-- The rule `a` is defined twice and has two handles when another rule gets its name. -/
theorem forward_lifecycle_replaced :
    let past : List (ForwardCall Sample.Label) :=
      [.define "a" .letter (some "spare"), .define "a" .digit none, .copy "h" "g",
        .handle "a" "h", .declare "a"]
    ∃ space space', Lived past space ∧ Lived (.declare "a" :: past) space' ∧
      source? past "g" = some 0 ∧ source? (.declare "a" :: past) "g" = some 0 ∧
      (∀ input policy, StandsFor ⟨input, space.registry.lookup, policy⟩ 0 .digit) ∧
      (∀ input policy, OnlyWarns ⟨input, space'.registry.lookup, policy⟩ 0
        "forward rule matched after being dropped") ∧
      ∀ input policy, OnlyWarns ⟨input, space'.registry.lookup, policy⟩ 1
        "forward rule matched before being defined" := by
  intro past
  have h₁ := Lived.nil.call (rfl : callForward? 0
    (.ofRules [] : Workspace Char Sample.Label) (.declare "a") = some (.done, _))
  have h₂ := h₁.call (rfl : callForward? 0 _ (.handle "a" "h") = some (.done, _))
  have h₃ := h₂.call (rfl : callForward? 0 _ (.copy "h" "g") = some (.done, _))
  have h₄ := h₃.call (rfl : callForward? 0 _ (.define "a" .digit none) = some (.holds true, _))
  have h₅ := h₄.call
    (rfl : callForward? 0 _ (.define "a" .letter (some "spare")) = some (.holds false, _))
  have h₆ := h₅.call (rfl : callForward? 0 _ (.declare "a") = some (.done, _))
  obtain ⟨hlife, hlasts⟩ := forward_lifecycle h₅
  obtain ⟨hlife', -⟩ := forward_lifecycle h₆
  have hg : source? past "g" = some 0 := rfl
  have hdead : ¬ Alive (.declare "a" :: past) 0 := by
    rw [alive_declare]
    rintro (h | ⟨-, h⟩)
    · cases h
    · exact h rfl
  refine ⟨_, _, h₅, h₆, hg, (hlasts [.declare "a"]).handle hg ?_, hlife.defined ⟨"a", rfl⟩ rfl,
    hlife'.dead hdead, hlife'.undefined ⟨"a", rfl⟩ rfl⟩
  exact List.forall_mem_singleton.2 nofun

end Script

end Peg
