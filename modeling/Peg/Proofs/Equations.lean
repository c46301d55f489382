import Peg.Proofs.Likeness
import Peg.Sample.Grammar

/-
  Equations: rules that can take the place of each other on every kind of tree. A common first part
  of two choices may be tried once or twice, and what is nested in a row or in a choice may stand
  in it directly (`factor_and_flatten`). So many times in a row is a row, one that can be divided
  anywhere, and one or more is one and then any number (`repetitions_are_rows`). All of these are
  equations between upshots: to go on is associative, and going on distributes over choice.
-/

namespace Peg

namespace Upshot

variable {T M : Type} {first last : Upshot T M} {next other : Cursor T → Upshot T M → Prop}

/-- To go on in one way, or else to begin again and go on in the other, is to go on in one way or
else in the other. -/
theorem then_else : (∃ upshot, first.Then next upshot ∧ upshot.Else (first.Then other) last) ↔
    first.Then (fun cursor last => ∃ upshot, next cursor upshot ∧ upshot.Else (other cursor) last)
      last := by
  cases first with
  | matched cursor => exact Iff.rfl
  | unmatched | failed | faulted => exact exists_eq_left

end Upshot

namespace Matching

section

variable {U L : Type} [InputUnit U] [DecidableEq U] {setting : Setting U L}

section

variable {T M : Type} [NodeTree T L M] [DecidableEq M] {task : Task U L M} {a b : Rule U L}
  {cursor : Cursor T} {upshot : Upshot T M}

/-- There is no other upshot. -/
theorem Yields.exists_iff (h : Yields setting task cursor upshot) {P : Upshot T M → Prop} :
    (∃ other, Yields setting task cursor other ∧ P other) ↔ P upshot := by
  constructor
  · rintro ⟨other, ho, hp⟩
    rwa [h.unique ho] at hp
  · exact fun hp => ⟨upshot, h, hp⟩

theorem yields_pair : Yields setting (.rule (.seq [a, b])) cursor upshot ↔
    ∃ first, Yields setting (.rule a) cursor first ∧
      first.Then (Yields setting (.rule b)) upshot := by
  rw [yields_seq, yields_each_cons]
  exact exists_congr fun first => and_congr_right fun _ =>
    Upshot.then_congr fun _ _ => yields_each_single

theorem Transparent.yields_either {Plain : T → Prop} (ht : Transparent setting Plain)
    (hp : Plain cursor.tree) : Yields setting (.rule (.or [a, b])) cursor upshot ↔
      ∃ first, Yields setting (.rule a) cursor first ∧
        first.Else (Yields setting (.rule b) cursor) upshot := by
  rw [yields_or, ht.yields_first_cons hp]
  exact exists_congr fun first => and_congr_right fun _ =>
    Upshot.else_congr fun _ => ht.yields_first_single hp

end

namespace Equivalent

/-! ## Choices and rows -/

/-- Choices that begin with the same rule need to try it only once. -/
theorem factor (a b c : Rule U L) :
    Equivalent setting (.or [.seq [a, b], .seq [a, c]]) (.seq [a, .or [b, c]]) := by
  intro T M _ _ Plain ht cursor hp last
  let A := Yields (M := M) setting (.rule a) cursor
  let B := Yields (T := T) (M := M) setting (.rule b)
  let C := Yields (T := T) (M := M) setting (.rule c)
  calc Yields setting (.rule (.or [.seq [a, b], .seq [a, c]])) cursor last
      ↔ ∃ upshot, Yields setting (.rule (.seq [a, b])) cursor upshot ∧
          upshot.Else (Yields setting (.rule (.seq [a, c])) cursor) last := ht.yields_either hp
    _ ↔ ∃ first, A first ∧ ∃ upshot, first.Then B upshot ∧
          upshot.Else (Yields setting (.rule (.seq [a, c])) cursor) last := by
        constructor
        · rintro ⟨upshot, hab, hl⟩
          obtain ⟨first, ha, hb⟩ := yields_pair.1 hab
          exact ⟨first, ha, upshot, hb, hl⟩
        · rintro ⟨first, ha, upshot, hb, hl⟩
          exact ⟨upshot, yields_pair.2 ⟨first, ha, hb⟩, hl⟩
    _ ↔ ∃ first, A first ∧ ∃ upshot, first.Then B upshot ∧ upshot.Else (first.Then C) last :=
        -- Tried a second time, the common part comes to what it came to the first time.
        exists_congr fun first => and_congr_right fun ha => exists_congr fun upshot =>
          and_congr_right fun _ => Upshot.else_congr fun _ => yields_pair.trans ha.exists_iff
    _ ↔ ∃ first, A first ∧ first.Then (fun next last => ∃ upshot, B next upshot ∧
          upshot.Else (C next) last) last :=
        exists_congr fun first => and_congr_right fun _ => Upshot.then_else
    _ ↔ ∃ first, A first ∧ first.Then (Yields setting (.rule (.or [b, c]))) last :=
        exists_congr fun first => and_congr_right fun ha => Upshot.then_congr fun next hm =>
          (ht.yields_either (ht.plain_of_yields hp (hm ▸ ha))).symm
    _ ↔ Yields setting (.rule (.seq [a, .or [b, c]])) cursor last := yields_pair.symm

/-- A row within a row. -/
theorem flatten_seq (xs ys zs : List (Rule U L)) :
    Equivalent setting (.seq (xs ++ [.seq ys] ++ zs)) (.seq (xs ++ ys ++ zs)) := by
  intro T M _ _ Plain ht cursor hp last
  have hs : Yields (T := T) (M := M) setting (.each [.seq ys]) = Yields setting (.each ys) := by
    funext cursor upshot
    rw [yields_each_single, yields_seq]
  simp only [yields_seq, yields_each_append, hs]

/-- A choice within a choice. -/
theorem flatten_or (xs ys zs : List (Rule U L)) :
    Equivalent setting (.or (xs ++ [.or ys] ++ zs)) (.or (xs ++ ys ++ zs)) := by
  intro T M _ _ Plain ht cursor hp last
  have hs : Yields (M := M) setting (.first [.or ys]) cursor =
      Yields setting (.first ys) cursor := by
    funext upshot
    rw [ht.yields_first_single hp, yields_or]
  simp only [yields_or, ht.yields_first_append hp, hs]

/-! ## Repetitions -/

theorem times_eq_seq (rule : Rule U L) (n : Nat) :
    Equivalent setting (.times rule n) (.seq (List.replicate n rule)) := by
  intro T M _ _ Plain ht cursor hp last
  rw [yields_times, yields_seq]

theorem times_add (rule : Rule U L) (m n : Nat) :
    Equivalent setting (.times rule (m + n)) (.seq [.times rule m, .times rule n]) := by
  intro T M _ _ Plain ht cursor hp last
  have hk (k : Nat) : Yields (T := T) (M := M) setting (.each (List.replicate k rule)) =
      Yields setting (.rule (.times rule k)) := by
    funext cursor upshot
    rw [yields_times]
  rw [yields_times, List.replicate_add, yields_each_append, yields_pair, hk, hk]

theorem plus_eq_seq (rule : Rule U L) :
    Equivalent setting (.plus rule) (.seq [rule, .star rule]) := by
  intro T M _ _ Plain ht cursor hp last
  rw [yields_plus, yields_pair]

end Equivalent

variable [DecidableEq L]

/-- Two choices that begin with the same rule can be one row that begins with it, and a row in a row
or a choice in a choice can give way to its parts. -/
theorem factor_and_flatten (input : Input U) (references : Nat → Reference U L) :
    (∀ a b c : Rule U L, Interchangeable input references
      (.or [.seq [a, b], .seq [a, c]]) (.seq [a, .or [b, c]])) ∧
    (∀ xs ys zs : List (Rule U L), Interchangeable input references
      (.seq (xs ++ [.seq ys] ++ zs)) (.seq (xs ++ ys ++ zs))) ∧
    ∀ xs ys zs : List (Rule U L), Interchangeable input references
      (.or (xs ++ [.or ys] ++ zs)) (.or (xs ++ ys ++ zs)) := by
  refine ⟨fun a b c => ?_, fun xs ys zs => ?_, fun xs ys zs => ?_⟩
  · exact (Equivalent.factor a b c).interchangeable
  · exact (Equivalent.flatten_seq xs ys zs).interchangeable
  · exact (Equivalent.flatten_or xs ys zs).interchangeable

/-- A sign is recorded inside a node that is open. With the sign before each choice it is recorded,
dropped and recorded again; nested in a row it is lost to a hard failure, and where a row of slots
has no room for it, there is no room in a choice within a choice either. -/
theorem factor_and_flatten_signs :
    let input : Input Char := .ofList ['-', 'x']
    let setting : Setting Char Sample.Label := ⟨input, fun _ => .undefined, .text⟩
    let sign : Rule Char Sample.Label := .store .sign (.is '-')
    let inside : Cursor (TrailTree Sample.Label) := ⟨0, ⟨#[⟨.entry, 0, 0, none⟩], some 0⟩, []⟩
    let full : Cursor (RowTree Sample.Label) := .start (Arena.ofSlots (SlotRow.ofCapacity 0))
    (∃ result other,
      Returns setting (.or [.seq [sign, .digit], .seq [sign, .letter]]) inside result ∧
      Returns setting (.seq [sign, .or [.digit, .letter]]) inside other ∧
      result.outcome = .matched ∧ result.cursor.tree.arena.size = 2 ∧ result.Like Eq other) ∧
    (∃ result other, Returns setting (.seq ([] ++ [.seq [sign, .mandatory .digit]] ++ [.letter]))
        inside result ∧
      Returns setting (.seq ([] ++ [sign, .mandatory .digit] ++ [.letter])) inside other ∧
      result.outcome = .failed (.mandatory ⟨1, ⟨2, some 0⟩⟩) ∧ result.Like Eq other) ∧
    ∃ result other, Returns setting (.or ([.digit] ++ [.or [sign, .letter]] ++ [])) full result ∧
      Returns setting (.or ([.digit] ++ [sign, .letter] ++ [])) full other ∧
      result.outcome = .failed .exhausted ∧ result.Like Arena.Restored other := by
  intro input setting sign inside full
  obtain ⟨hfactor, hseq, hor⟩ := factor_and_flatten (L := Sample.Label) input fun _ => .undefined
  have h₁ : (run setting 6 (.or [.seq [sign, .digit], .seq [sign, .letter]]) inside).map
      (fun result => (result.outcome, result.cursor.tree.arena.size)) = some (.matched, 2) := by
    decide +kernel
  have h₂ : (run setting 6 (.seq ([] ++ [.seq [sign, .mandatory .digit]] ++ [.letter]))
      inside).map (·.outcome) = some (.failed (.mandatory ⟨1, ⟨2, some 0⟩⟩)) := by
    decide +kernel
  have h₃ : (run setting 6 (.or ([.digit] ++ [.or [sign, .letter]] ++ [])) full).map (·.outcome) =
      some (.failed .exhausted) := by
    decide +kernel
  obtain ⟨result, hr, heq⟩ := Option.map_eq_some_iff.1 h₁
  obtain ⟨ho, hsize⟩ := Prod.mk.inj heq
  obtain ⟨result₂, hr₂, ho₂⟩ := Option.map_eq_some_iff.1 h₂
  obtain ⟨result₃, hr₃, ho₃⟩ := Option.map_eq_some_iff.1 h₃
  obtain ⟨other, ho', hl⟩ := ((hfactor sign .digit .letter).trail inside rfl).forth _ ⟨6, hr⟩
  obtain ⟨other₂, ho₂', hl₂⟩ :=
    ((hseq [] [sign, .mandatory .digit] [.letter]).trail inside rfl).forth _ ⟨6, hr₂⟩
  obtain ⟨other₃, ho₃', hl₃⟩ := ((hor [.digit] [sign, .letter] []).row full).forth _ ⟨6, hr₃⟩
  exact ⟨⟨result, other, ⟨6, hr⟩, ho', ho, hsize, hl⟩, ⟨result₂, other₂, ⟨6, hr₂⟩, ho₂', ho₂, hl₂⟩,
    result₃, other₃, ⟨6, hr₃⟩, ho₃', ho₃, hl₃⟩

/-- So many times in a row is as many copies in a row, and can be divided in two anywhere; once or
more is once and then any number of times. -/
theorem repetitions_are_rows (input : Input U) (references : Nat → Reference U L)
    (rule : Rule U L) (m n : Nat) :
    Interchangeable input references (.times rule n) (.seq (List.replicate n rule)) ∧
    Interchangeable input references (.times rule (m + n))
      (.seq [.times rule m, .times rule n]) ∧
    Interchangeable input references (.plus rule) (.seq [rule, .star rule]) := by
  refine ⟨?_, ?_, ?_⟩
  · exact (Equivalent.times_eq_seq rule n).interchangeable
  · exact (Equivalent.times_add rule m n).interchangeable
  · exact (Equivalent.plus_eq_seq rule).interchangeable

/-- What may be a sign matches and is recorded where there is none, too: three times before the
letter, and once or more until it matches nothing. -/
theorem repetitions_are_rows_signs :
    let input : Input Char := .ofList ['-', 'x']
    let setting : Setting Char Sample.Label := ⟨input, fun _ => .undefined, .text⟩
    let sign : Rule Char Sample.Label := .store .sign (.opt (.is '-'))
    let start : Cursor (TrailTree Sample.Label) := .start .empty
    (∃ result row divided, Returns setting (.times sign (1 + 2)) start result ∧
      Returns setting (.seq (List.replicate (1 + 2) sign)) start row ∧
      Returns setting (.seq [.times sign 1, .times sign 2]) start divided ∧
      result.outcome = .matched ∧ result.cursor.offset = 1 ∧
      result.cursor.tree.arena.size = 3 ∧ result.Like Eq row ∧ result.Like Eq divided) ∧
    ∃ result other, Returns setting (.plus sign) start result ∧
      Returns setting (.seq [sign, .star sign]) start other ∧
      result.outcome = .matched ∧ result.cursor.tree.arena.size = 2 ∧ result.Like Eq other := by
  intro input setting sign start
  obtain ⟨htimes, -, -⟩ := repetitions_are_rows input (fun _ => .undefined) sign 0 (1 + 2)
  obtain ⟨-, hdivided, hplus⟩ := repetitions_are_rows input (fun _ => .undefined) sign 1 2
  have h₁ : (run setting 8 (.times sign (1 + 2)) start).map (fun result =>
      (result.outcome, result.cursor.offset, result.cursor.tree.arena.size)) =
      some (.matched, 1, 3) := by decide +kernel
  have h₂ : (run setting 8 (.plus sign) start).map (fun result =>
      (result.outcome, result.cursor.tree.arena.size)) = some (.matched, 2) := by decide +kernel
  obtain ⟨result, hr, heq⟩ := Option.map_eq_some_iff.1 h₁
  obtain ⟨ho, heq⟩ := Prod.mk.inj heq
  obtain ⟨hoff, hsize⟩ := Prod.mk.inj heq
  obtain ⟨result₂, hr₂, heq₂⟩ := Option.map_eq_some_iff.1 h₂
  obtain ⟨ho₂, hsize₂⟩ := Prod.mk.inj heq₂
  obtain ⟨row, hrow, hl⟩ := (htimes.trail start rfl).forth _ ⟨8, hr⟩
  obtain ⟨divided, hd, hl'⟩ := (hdivided.trail start rfl).forth _ ⟨8, hr⟩
  obtain ⟨other, hother, hl₂⟩ := (hplus.trail start rfl).forth _ ⟨8, hr₂⟩
  exact ⟨⟨result, row, divided, ⟨8, hr⟩, hrow, hd, ho, hoff, hsize, hl, hl'⟩,
    result₂, other, ⟨8, hr₂⟩, hother, ho₂, hsize₂, hl₂⟩

end

end Matching

end Peg
