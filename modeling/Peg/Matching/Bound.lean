import Peg.Matching

/-
  The bound of a match only decides whether there is a result: a result stays the same under every
  larger bound (`run_mono`), so a rule at a cursor has at most one result (`Returns.unique`).
-/

namespace Peg.Matching

variable {U L T M : Type}

/-- Every result of one way to match parts is a result of the other. -/
def Extends (attempt attempt' : Attempt U L T M) : Prop :=
  ∀ rule cursor result, attempt rule cursor = some result → attempt' rule cursor = some result

theorem andThen_mono {next next' : Cursor T → Option (Result T L M)}
    (h : ∀ c r, next c = some r → next' c = some r) {x y : Result T L M}
    (hx : x.andThen next = some y) : x.andThen next' = some y := by
  unfold Result.andThen at hx ⊢
  split at hx
  · simp only [Option.map_eq_some_iff] at hx ⊢
    obtain ⟨a, ha, rfl⟩ := hx
    exact ⟨a, h _ _ ha, rfl⟩
  · exact hx

theorem orElse_mono {next next' : Cursor T → Option (Result T L M)}
    (h : ∀ c r, next c = some r → next' c = some r) {x y : Result T L M}
    (hx : x.orElse next = some y) : x.orElse next' = some y := by
  unfold Result.orElse at hx ⊢
  split at hx
  · simp only [Option.map_eq_some_iff] at hx ⊢
    obtain ⟨a, ha, rfl⟩ := hx
    exact ⟨a, h _ _ ha, rfl⟩
  · exact hx

section Parts

variable {attempt attempt' : Attempt U L T M} (h : Extends attempt attempt')
include h

theorem bind_mono {rule : Rule U L} {cursor : Cursor T} {next next' : Result T L M →
    Option (Result T L M)} (hn : ∀ r x, next r = some x → next' r = some x) {x : Result T L M}
    (hx : (attempt rule cursor).bind next = some x) :
    (attempt' rule cursor).bind next' = some x := by
  rw [Option.bind_eq_some_iff] at hx ⊢
  obtain ⟨r, hr, hx⟩ := hx
  exact ⟨r, h _ _ _ hr, hn _ _ hx⟩

theorem map_mono {rule : Rule U L} {cursor : Cursor T} {f : Result T L M → Result T L M}
    {x : Result T L M} (hx : (attempt rule cursor).map f = some x) :
    (attempt' rule cursor).map f = some x := by
  rw [Option.map_eq_some_iff] at hx ⊢
  obtain ⟨r, hr, hx⟩ := hx
  exact ⟨r, h _ _ _ hr, hx⟩

theorem matchEach_mono (rules : List (Rule U L)) {cursor : Cursor T} {x : Result T L M}
    (hx : matchEach attempt rules cursor = some x) : matchEach attempt' rules cursor = some x := by
  induction rules generalizing cursor x with
  | nil => exact hx
  | cons rule rules ih =>
    exact bind_mono h (fun _ _ => andThen_mono fun _ _ => ih) hx

theorem matchFirst_mono (rules : List (Rule U L)) {cursor : Cursor T} {x : Result T L M}
    (hx : matchFirst attempt rules cursor = some x) :
    matchFirst attempt' rules cursor = some x := by
  induction rules generalizing cursor x with
  | nil => exact hx
  | cons rule rules ih =>
    exact bind_mono h (fun _ _ => orElse_mono fun _ _ => ih) hx

theorem matchTimes_mono (rule : Rule U L) (n : Nat) {cursor : Cursor T} {x : Result T L M}
    (hx : matchTimes attempt rule n cursor = some x) :
    matchTimes attempt' rule n cursor = some x := by
  induction n generalizing cursor x with
  | zero => exact hx
  | succ n ih => exact bind_mono h (fun _ _ => andThen_mono fun _ _ => ih) hx

variable [InputUnit U] [NodeTree T L M] [DecidableEq M] (setting : Setting U L)

theorem greedy_mono (rule : Rule U L) {n m : Nat} (hnm : n ≤ m) {cursor : Cursor T}
    {x : Result T L M} (hx : greedy attempt setting rule n cursor = some x) :
    greedy attempt' setting rule m cursor = some x := by
  induction n generalizing m cursor x with
  | zero => cases hx
  | succ n ih =>
    obtain ⟨m, rfl⟩ : ∃ k, m = k + 1 := ⟨m - 1, by omega⟩
    unfold greedy at hx ⊢
    split at hx
    · rename_i he; rw [if_pos he]; exact hx
    · rename_i he
      rw [if_neg he]
      refine bind_mono h (fun r y hy => ?_) hx
      split at hy
      · split at hy
        · rename_i hp
          rw [if_pos hp]
          rw [Option.map_eq_some_iff] at hy ⊢
          obtain ⟨z, hz, rfl⟩ := hy
          exact ⟨z, ih (by omega) hz, rfl⟩
        · rename_i hp; rw [if_neg hp]; exact hy
      · exact hy

omit [DecidableEq M] in
theorem scan_mono (rule : Rule U L) (start : Position M) {n m : Nat} (hnm : n ≤ m)
    {cursor : Cursor T} {x : Result T L M}
    (hx : scan attempt setting rule start n cursor = some x) :
    scan attempt' setting rule start m cursor = some x := by
  induction n generalizing m cursor x with
  | zero => cases hx
  | succ n ih =>
    obtain ⟨m, rfl⟩ : ∃ k, m = k + 1 := ⟨m - 1, by omega⟩
    refine bind_mono h (fun r y => orElse_mono fun c z hz => ?_) hx
    dsimp only at hz ⊢
    split at hz
    · rename_i he; rw [if_pos he]; exact hz
    · rename_i he; rw [if_neg he]; exact ih (by omega) hz

variable [DecidableEq U]

theorem step_mono {n m : Nat} (hnm : n ≤ m) (rule : Rule U L) {cursor : Cursor T}
    {x : Result T L M} (hx : step setting attempt n rule cursor = some x) :
    step setting attempt' m rule cursor = some x := by
  cases rule with
  | unit | units | atEnd | succeed | fail | exhaust => exact hx
  | seq rules =>
    simp only [step, Option.map_eq_some_iff] at hx ⊢
    obtain ⟨r, hr, rfl⟩ := hx
    exact ⟨r, matchEach_mono h rules hr, rfl⟩
  | or rules => exact matchFirst_mono h rules hx
  | star rule => exact greedy_mono h setting rule hnm hx
  | plus rule =>
    exact bind_mono h (fun _ _ => andThen_mono fun _ _ => greedy_mono h setting rule hnm) hx
  | opt rule =>
    simp only [step] at hx ⊢
    split at hx
    · rename_i he; rw [if_pos he]; exact hx
    · rename_i he; rw [if_neg he]; exact map_mono h hx
  | times rule k =>
    simp only [step, Option.map_eq_some_iff] at hx ⊢
    obtain ⟨r, hr, rfl⟩ := hx
    exact ⟨r, matchTimes_mono h rule k hr, rfl⟩
  | ahead rule | notAhead rule | mandatory rule | recover rule | counted _ rule =>
    exact map_mono h hx
  | untilPast rule => exact scan_mono h setting rule _ hnm hx
  | store label rule =>
    simp only [step] at hx ⊢
    split at hx
    · exact map_mono h hx
    · exact hx
  | ref i =>
    simp only [step] at hx ⊢
    split at hx
    · exact hx
    · exact h _ _ _ hx
    · exact hx

end Parts

variable [InputUnit U] [DecidableEq U] [NodeTree T L M] [DecidableEq M] (setting : Setting U L)

theorem run_mono {n m : Nat} (hnm : n ≤ m) :
    Extends (run (T := T) (M := M) setting n) (run setting m) := by
  induction n generalizing m with
  | zero => intro _ _ _ hx; cases hx
  | succ n ih =>
    obtain ⟨m, rfl⟩ : ∃ k, m = k + 1 := ⟨m - 1, by omega⟩
    intro rule cursor x hx
    exact step_mono (ih (by omega)) setting (by omega) rule hx

/-- The rule at the cursor has this result. -/
def Returns (rule : Rule U L) (cursor : Cursor T) (result : Result T L M) : Prop :=
  ∃ bound, run setting bound rule cursor = some result

theorem Returns.unique {rule : Rule U L} {cursor : Cursor T} {x y : Result T L M}
    (hx : Returns setting rule cursor x) (hy : Returns setting rule cursor y) : x = y := by
  obtain ⟨n, hn⟩ := hx
  obtain ⟨m, hm⟩ := hy
  have hn := run_mono setting (Nat.le_max_left n m) _ _ _ hn
  have hm := run_mono setting (Nat.le_max_right n m) _ _ _ hm
  exact Option.some.inj (hn.symm.trans hm)

end Peg.Matching
