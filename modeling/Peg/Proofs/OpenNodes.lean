import Peg.Proofs.Balance
import Peg.Proofs.Trace
import Peg.Sample.Grammar

/-
  Open nodes: the nodes that are open before a match are open after it, and no others, whatever
  came of the match and over every kind of tree (`open_nodes_kept`). Where parents come before
  children the chain of open nodes ends, and growth does not change it (`openNodes?_of_grown`).
-/

namespace Peg

namespace Arena

variable {S L : Type} [Slots S L]

/-- Parents come before children, and the innermost open node is a stored one. -/
structure Ordered (arena : Arena S) : Prop where
  innermost_lt : ∀ i, arena.innermost = some i → i < arena.size
  parent_lt : ∀ i < arena.size, ∀ p, arena.parent? i = some p → p < i

/-- The stored nodes are still there, first and unchanged, and the open nodes are the same ones. -/
structure KeepsOpen (before after : Arena S) : Prop where
  innermost_eq : after.innermost = before.innermost
  stored : before.toList <+: after.toList
  openNodes : ∃ ids, before.openNodes? = some ids ∧ after.openNodes? = some ids ∧
    ∀ i ∈ ids, i < before.size

theorem Grown.parent?_eq {before after : Arena S} (h : before.Grown after) {i : Nat}
    (hi : i < before.size) : after.parent? i = before.parent? i := by
  unfold parent?
  rw [h.get?_eq i hi]

/-- From a stored node outwards there is one chain, for the arena and for what grows from it. -/
theorem outwards?_of_grown {before after : Arena S} (hw : before.Ordered)
    (h : before.Grown after) (i : Nat) (hi : i < before.size) :
    ∃ ids, (∀ j ∈ ids, j < before.size) ∧ ∀ n, i < n →
      before.outwards? n (some i) = some ids ∧ after.outwards? n (some i) = some ids := by
  induction i using Nat.strongRecOn with
  | _ i ih =>
    have hp := h.parent?_eq hi
    cases hb : before.parent? i with
    | none =>
      refine ⟨[i], by simpa using hi, ?_⟩
      intro n hn
      obtain ⟨n, rfl⟩ : ∃ k, n = k + 1 := ⟨n - 1, by omega⟩
      simp only [outwards?, hp, hb]
      exact ⟨rfl, rfl⟩
    | some p =>
      have hlt : p < i := hw.parent_lt i hi p hb
      obtain ⟨ids, hids, hn⟩ := ih p hlt (by omega)
      refine ⟨i :: ids, ?_, ?_⟩
      · intro j hj
        rcases List.mem_cons.1 hj with rfl | hj
        · exact hi
        · exact hids j hj
      · intro n hin
        obtain ⟨n, rfl⟩ : ∃ k, n = k + 1 := ⟨n - 1, by omega⟩
        obtain ⟨hob, hoa⟩ := hn n (by omega)
        simp only [outwards?, hp, hb, hob, hoa]
        exact ⟨rfl, rfl⟩

theorem openNodes?_of_grown {before after : Arena S} (hw : before.Ordered)
    (h : before.Grown after) : ∃ ids, before.openNodes? = some ids ∧
      after.openNodes? = some ids ∧ ∀ i ∈ ids, i < before.size := by
  unfold openNodes?
  rw [h.innermost_eq]
  cases hb : before.innermost with
  | none => exact ⟨[], by simp [outwards?]⟩
  | some i =>
    have hi : i < before.size := hw.innermost_lt i hb
    have hle := h.size_le
    obtain ⟨ids, hids, hn⟩ := outwards?_of_grown hw h i hi
    exact ⟨ids, (hn _ (by omega)).1, (hn _ (by omega)).2, hids⟩

theorem keepsOpen_of_grown {before after : Arena S} (hw : before.Ordered)
    (h : before.Grown after) : before.KeepsOpen after :=
  ⟨h.innermost_eq, h.toList_prefix, openNodes?_of_grown hw h⟩

end Arena

namespace Matching

section

variable {U L T M : Type} [NodeTree T L M] [InputUnit U] [DecidableEq U] [DecidableEq M]

/-- The match of the rule at the cursor is made of matches none of which ends in a fault. -/
def Faultless (setting : Setting U L) (rule : Rule U L) (cursor : Cursor T)
    (result : Result T L M) : Prop :=
  ∃ course, Course.Traces setting rule cursor result course ∧
    ∀ attempt ∈ course.attempts, ∀ fault, attempt.result.outcome ≠ .faulted fault

theorem returns_faultless [LawfulTree T] {setting : Setting U L} {rule : Rule U L}
    {cursor : Cursor T} {result : Result T L M} (h : Returns setting rule cursor result) :
    Faultless setting rule cursor result := by
  obtain ⟨course, hc⟩ := h.traced
  refine ⟨course, hc, ?_⟩
  intro attempt ha
  exact (goes_balanced (hc.happens.attempts attempt ha)).sound

end

variable {U L : Type} [DecidableEq L] [InputUnit U] [DecidableEq U]

/-- Whatever comes of a match, the nodes that were open are open, the nodes that were stored are
stored unchanged before all others, and nowhere in the match is a node closed wrongly. -/
theorem open_nodes_kept (setting : Setting U L) (rule : Rule U L) :
    (∀ (cursor : Cursor (TrailTree L)) (result : Result (TrailTree L) L Mark),
      cursor.tree.arena.Ordered → Returns setting rule cursor result →
        cursor.tree.arena.KeepsOpen result.cursor.tree.arena ∧
        Faultless setting rule cursor result) ∧
    (∀ (cursor : Cursor (RowTree L)) (result : Result (RowTree L) L Mark),
      cursor.tree.Ordered → Returns setting rule cursor result →
        cursor.tree.KeepsOpen result.cursor.tree ∧ Faultless setting rule cursor result) ∧
    (∀ (cursor : Cursor (DepthTree L)) (result : Result (DepthTree L) L Nat),
      Returns setting rule cursor result →
        result.cursor.tree.depth = cursor.tree.depth ∧
        Faultless setting rule cursor result) := by
  refine ⟨?_, ?_, ?_⟩
  · intro cursor result hw h
    exact ⟨Arena.keepsOpen_of_grown hw (returns_balanced h).grown, returns_faultless h⟩
  · intro cursor result hw h
    exact ⟨Arena.keepsOpen_of_grown hw (returns_balanced h).grown, returns_faultless h⟩
  · intro cursor result h
    exact ⟨(returns_balanced h).grown, returns_faultless h⟩

/-- A list breaks off inside an item, inside itself, with an entry open around it: `(1, x` ends
without a closing parenthesis. -/
theorem open_nodes_kept_unclosed_list :
    let setting : Setting Char Sample.Label :=
      ⟨.ofList ['(', '1', ',', 'x'], Sample.workspace.registry.lookup, .text⟩
    let nodes : Array (Node Sample.Label) := #[⟨.entry, 0, 0, none⟩]
    let arena : ArrayTree Sample.Label := ⟨nodes, some 0⟩
    arena.Ordered ∧ ∃ result,
      Returns setting Sample.listRule ⟨0, TrailTree.mk arena []⟩ result ∧
      result.outcome.map Position.offset = .failed (.mandatory 1) ∧
      arena.KeepsOpen result.cursor.tree.arena ∧
      Faultless setting Sample.listRule ⟨0, TrailTree.mk arena []⟩ result := by
  intro setting nodes arena
  have hw : arena.Ordered := by
    refine ⟨?_, ?_⟩
    · intro i hi
      cases hi
      decide
    · intro i hi p hp
      obtain rfl : i = 0 := by
        have : i < 1 := hi
        omega
      cases hp
  have h : (run setting 20 Sample.listRule ⟨0, TrailTree.mk arena []⟩).map
      (·.outcome.map Position.offset) = some (.failed (.mandatory 1)) := by decide +kernel
  obtain ⟨result, hr, ho⟩ := Option.map_eq_some_iff.1 h
  have hk := (open_nodes_kept setting Sample.listRule).1 ⟨0, TrailTree.mk arena []⟩ result hw
    ⟨20, hr⟩
  exact ⟨hw, result, ⟨20, hr⟩, ho, hk⟩

end Matching

end Peg
