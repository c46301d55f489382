import Peg.Proofs.Diagnostics
import Peg.Proofs.Invariant
import Peg.Proofs.WellNested

/-
  Boundaries: a match of text that starts between two characters is between two characters at every
  moment, and never before its start or past the end. There, to look for the end of input, to look
  at a character and to go past it agree with each other, as every loop takes for granted. Positions
  of hard failures are such moments too, so the text before a syntax error is there to be counted
  (`match_on_boundaries`).
-/

namespace Peg

open Relation

/-! ## Offsets between units -/

namespace Input

variable {U : Type} [InputUnit U]

/-- A boundary no earlier than a start, and within the input. -/
structure Reached (input : Input U) (start offset : Nat) : Prop where
  start_le : start ≤ offset
  le_length : offset ≤ input.length
  isBoundary : input.isBoundary offset = true

variable {input : Input U} {offset : Nat}

theorem Reached.refl (h : input.isBoundary offset = true) : input.Reached offset offset :=
  ⟨Nat.le_refl _, le_length_of_isBoundary h, h⟩

theorem Reached.next {start : Nat} (h : input.Reached start offset) :
    input.Reached start (input.next offset) :=
  ⟨Nat.le_trans h.start_le (input.le_next offset),
    le_length_of_isBoundary (isBoundary_next h.isBoundary), isBoundary_next h.isBoundary⟩

end Input

/-- The input ends at the cursor exactly where there is no character to be seen, the cursor goes on
exactly where it does not end, and it goes on by the UTF-8 width of the character. -/
structure Cursor.ReadsOn {T : Type} (input : Input Char) (cursor : Cursor T) : Prop where
  atEnd_iff : cursor.atEnd input = true ↔ cursor.peek? input = none
  advance_iff : (cursor.advance input).offset ≠ cursor.offset ↔ cursor.atEnd input = false
  advance_offset : ∀ c, cursor.peek? input = some c →
    (cursor.advance input).offset = cursor.offset + c.utf8Size

theorem Cursor.readsOn {T : Type} {input : Input Char} {cursor : Cursor T}
    (h : input.isBoundary cursor.offset = true) : cursor.ReadsOn input := by
  have hp : cursor.peek? input = input.unitAt? cursor.offset := rfl
  rcases Input.boundary_cases h with he | ⟨c, hc⟩
  · have hn : cursor.peek? input = none := by
      cases hc : cursor.peek? input with
      | none => rfl
      | some c =>
        have := Input.unitAt?_lt hc
        have := InputUnit.width_pos c
        omega
    have ha : cursor.atEnd input = true := decide_eq_true (Nat.le_of_eq he.symm)
    have hs : cursor.advance input = cursor := by
      unfold advance
      rw [hn]
    exact ⟨by simp [hn, ha], by simp [hs, ha], by simp [hn]⟩
  · have hl := Input.unitAt?_lt hc
    have hw := c.utf8Size_pos
    have ha : cursor.atEnd input = false := by
      refine decide_eq_false (Nat.not_le_of_lt (Nat.lt_of_lt_of_le ?_ hl))
      exact Nat.lt_add_of_pos_right hw
    have hs : (cursor.advance input).offset = cursor.offset + c.utf8Size := by
      rw [advance_of_unitAt? input hc]
      rfl
    refine ⟨by simp [ha, hp, hc], by simp [ha, hs]; omega, ?_⟩
    intro d hd
    rw [hp, hc] at hd
    cases hd
    exact hs

/-! ## Matches of text -/

namespace Matching

section

variable {L T M : Type} [NodeTree T L M] [DecidableEq M]

/-- At all times in a match, and after it, the cursor is on a boundary between where it was in the
beginning and the end of input, and so is every position at which a mandatory rule failed. -/
structure OnBoundaries (setting : Setting Char L) (rule : Rule Char L) (cursor : Cursor T) :
    Prop where
  moments : ∀ moment, ComesBy setting (.rule rule, cursor) moment →
    setting.input.Reached cursor.offset moment.offset ∧ moment.ReadsOn setting.input
  results : ∀ result, Returns setting rule cursor result →
    setting.input.Reached cursor.offset result.cursor.offset ∧
      result.cursor.ReadsOn setting.input
  failures : ∀ task origin parts result position,
    ReflTransGen (Begins setting) (.rule rule, cursor) (task, origin) →
    Goes setting task origin parts result → result.outcome = .failed (.mandatory position) →
    setting.input.Reached cursor.offset position.offset

theorem ComesBy.reached {U : Type} [InputUnit U] [DecidableEq U] {setting : Setting U L}
    {rule : Rule U L} {cursor moment : Cursor T}
    (h : ComesBy (M := M) setting (.rule rule, cursor) moment)
    (hc : setting.input.isBoundary cursor.offset = true) :
    setting.input.Reached cursor.offset moment.offset :=
  h.holds (.ofOffset (P := setting.input.Reached cursor.offset) fun _ => Input.Reached.next)
    (Input.Reached.refl hc)

theorem Returns.comesBy {U : Type} [InputUnit U] [DecidableEq U] {setting : Setting U L}
    {rule : Rule U L} {cursor : Cursor T} {result : Result T L M}
    (h : Returns setting rule cursor result) :
    ComesBy (M := M) setting (.rule rule, cursor) result.cursor := by
  obtain ⟨parts, hg⟩ := returns_iff_goes.1 h
  exact .ended .refl hg

theorem onBoundaries {setting : Setting Char L} {rule : Rule Char L}
    {cursor : Cursor T} (hc : setting.input.isBoundary cursor.offset = true) :
    OnBoundaries setting rule cursor where
  moments moment h := ⟨h.reached hc, Cursor.readsOn (h.reached hc).isBoundary⟩
  results result h := by
    have hr := h.comesBy.reached hc
    exact ⟨hr, Cursor.readsOn hr.isBoundary⟩
  failures task origin parts result position hb hg ho := by
    rw [← goes_failsHere hg position ho]
    exact (ComesBy.ended hb hg).reached hc

end

end Matching

/-! ## Syntax errors -/

section

variable {L : Type}

/-- The error is between two characters, and it is located just past the text before it. -/
def SyntaxError.Located (input : Input Char) (error : SyntaxError L) : Prop :=
  ∃ before after, input.units = before ++ after ∧ extent before = error.offset ∧
    input.slice? 0 error.offset = some before ∧ error.location = some (.past before)

variable [DecidableEq L] [Describe L]

theorem located_of_parse {references : Nat → Reference Char L} {bound : Nat} {rule : Rule Char L}
    {input : Input Char} {report : ParseReport L} {error : SyntaxError L}
    (h : parse references bound rule input = some report)
    (he : report.answer = .ok (.error (.malformed error))) : error.Located input := by
  obtain ⟨result, hr, rfl⟩ := Option.map_eq_some_iff.1 h
  obtain ⟨position, ho, -, -⟩ := ParseReport.malformed_ofResult he
  rw [ParseReport.ofResult_mandatory ho] at he
  cases he
  obtain ⟨parts, hg⟩ := Matching.returns_iff_goes.1 ⟨bound, hr⟩
  have hon : Matching.OnBoundaries ⟨input, references, .text⟩ rule
      (.start (TrailTree.empty : TrailTree L)) := Matching.onBoundaries input.isBoundary_zero
  have hb : input.Reached 0 position.offset := hon.failures _ _ _ _ _ .refl hg ho
  obtain ⟨none, before, after, hu, hn, hx, hs⟩ :=
    Input.slice?_eq_some hb.start_le input.isBoundary_zero hb.isBoundary
  obtain rfl := eq_nil_of_extent hn
  refine ⟨before, after, hu, hx, hs, ?_⟩
  show some (Location.of input position.offset) = _
  rw [Location.of, hs]
  rfl

/-- Over every kind of tree, a match that starts on a boundary keeps to boundaries, and the syntax
error of a parse is located by the text before it. -/
theorem match_on_boundaries {T M : Type} [NodeTree T L M] [DecidableEq M] :
    (∀ (setting : Setting Char L) (rule : Rule Char L) (cursor : Cursor T),
      setting.input.isBoundary cursor.offset = true →
        Matching.OnBoundaries setting rule cursor) ∧
    ∀ (references : Nat → Reference Char L) bound rule input report error,
      parse references bound rule input = some report →
        report.answer = .ok (.error (.malformed error)) → error.Located input :=
  ⟨fun _ _ _ hc => Matching.onBoundaries hc, fun _ _ _ _ _ _ h he => located_of_parse h he⟩

/-- After the comma in `(é,` there is no item. The error is at offset 4, in the fourth column. -/
theorem match_on_boundaries_missing_item :
    let setting : Setting Char Sample.Label :=
      ⟨.ofList ['(', 'é', ','], Sample.workspace.registry.lookup, .text⟩
    let cursor : Cursor (TrailTree Sample.Label) := ⟨3, .empty⟩
    (setting.input.isBoundary cursor.offset = true ∧
      Matching.OnBoundaries setting Sample.listRule cursor) ∧
    ∃ report error,
      parse setting.references 30 Sample.listRule setting.input = some report ∧
      report.answer = .ok (.error (.malformed error)) ∧
      error.offset = 4 ∧ error.location = some ⟨1, 4⟩ ∧ error.Located setting.input := by
  intro setting cursor
  have hb : setting.input.isBoundary cursor.offset = true := by decide +kernel
  have h : (parse setting.references 30 Sample.listRule setting.input).bind (fun report =>
      match report.answer with
      | .ok (.error (.malformed error)) => some (error.offset, error.location)
      | _ => none) = some (4, some ⟨1, 4⟩) := by decide +kernel
  obtain ⟨hmatch, hparse⟩ :=
    match_on_boundaries (T := TrailTree Sample.Label) (L := Sample.Label)
  obtain ⟨report, hr, hs⟩ := Option.bind_eq_some_iff.1 h
  split at hs
  · rename_i error ha
    obtain ⟨ho, hl⟩ := Prod.mk.inj (Option.some.inj hs)
    exact ⟨⟨hb, hmatch setting Sample.listRule cursor hb⟩, report, error, hr, ha, ho, hl,
      hparse setting.references 30 Sample.listRule setting.input report error hr ha⟩
  · cases hs

end

end Peg
