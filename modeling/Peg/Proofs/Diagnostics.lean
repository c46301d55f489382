import Peg.Parse
import Peg.Proofs.Nesting
import Peg.Proofs.Transparency
import Peg.Sample.Grammar

/-
  Diagnostics: what a match says of a hard failure. The trail is what the log ends with, which is
  the nodes opened by the match that were open when the failure was raised; of failures that were
  caught before nothing is left in it (`diagnostics_exact`).
-/

namespace Peg

namespace Matching

open Event

variable {U L : Type} [DecidableEq L]

/-! ## The trail -/

/-- If the trail was empty, a hard failure leaves in it the labels that the log ends with. -/
def Trails (cursor : Cursor (TrailTree L)) (result : Result (TrailTree L) L Mark) : Prop :=
  cursor.tree.trail = [] → ∀ failure, result.outcome = .failed failure →
    result.cursor.tree.trail = lastLabels result.events

namespace Trails

variable {cursor inside : Cursor (TrailTree L)} {before after result : Result (TrailTree L) L Mark}

omit [DecidableEq L] in
theorem pass (h : Trails cursor before) (hp : Passes before after) : Trails cursor after := by
  intro ht failure ho
  obtain rfl := hp failure ho
  exact h ht failure ho

omit [DecidableEq L] in
/-- What goes on later starts with an empty trail again, and a log that ends with no label. -/
theorem later {next : Cursor (TrailTree L)} (h : Trails next result)
    (ht : cursor.tree.trail = [] → next.tree.trail = []) {events : List (Event L Mark)}
    (he : lastLabels events = []) : Trails cursor (result.after events) := by
  intro hc failure ho
  show result.cursor.tree.trail = lastLabels (events ++ result.events)
  rw [lastLabels_append he]
  exact h (ht hc) failure ho

theorem demand (hc : Clears cursor result) (h : Trails cursor result) :
    Trails cursor result.demand := by
  rcases demand_cases result with ⟨ho, hd⟩ | ⟨-, hd⟩
  · intro ht failure _
    rw [hd]
    show result.cursor.tree.trail = lastLabels (result.events ++ [_])
    rw [lastLabels_concat_of_ne _ nofun]
    exact hc ht (Or.inr ho)
  · rw [hd]
    exact h

theorem closeNode {label : L} {policy : Policy} (hk : policy.keepsTrail = true)
    (hi : cursor.openNode? label = some inside) (hg : Grows inside result)
    (h : Trails inside result) : Trails cursor (result.closeNode policy label) := by
  intro ht failure hf
  have ht : inside.tree.trail = [] := (openNode?_trail hi).trans ht
  rcases closeNode_cases policy hi hg with ⟨hne, ho, -⟩ | ⟨failure', abandoned, ho, ha, hc⟩
  · exact absurd (ho ▸ hf) (hne failure)
  · have habandoned : abandoned.tree.trail = lastLabels result.events :=
      (abandon_trail ha).trans (h ht failure' ho)
    rw [hc, hk]
    show abandoned.tree.trail ++ [label] = lastLabels (result.events ++ [.whileParsing label])
    rw [lastLabels_concat, habandoned]

end Trails

variable [InputUnit U] [DecidableEq U] {setting : Setting U L}

theorem goes_trails (hk : setting.policy.keepsTrail = true) {task : Task U L Mark}
    {cursor : Cursor (TrailTree L)} {parts : List (Course U L (TrailTree L) Mark)}
    {result : Result (TrailTree L) L Mark} (h : Goes setting task cursor parts result) :
    Trails cursor result := by
  induction h with
  | done h =>
    rcases done_cases h with ⟨offset, -, rfl⟩ | ⟨events, rfl⟩ | rfl | rfl
    · exact fun _ _ => nofun
    · exact fun _ _ => nofun
    · exact fun _ _ => nofun
    · exact fun ht _ _ => ht
  | seq _ ih | times _ ih => exact ih.pass (passes_backTo _ _)
  | or _ ih | star _ ih | plusStop _ _ ih | untilPast _ ih | ref _ _ ih | eachStop _ _ ih
  | firstStop _ _ ih | greedyStill _ _ _ _ ih | scanStop _ _ ih => exact ih
  | opt _ _ ih | greedyStop _ _ _ ih => exact ih.pass (passes_accept _)
  | ahead _ ih => exact ih.pass (passes_lookFrom _ _)
  | notAhead _ ih => exact ih.pass ((passes_lookFrom _ _).trans (passes_negate _))
  | mandatory h ih => exact ih.demand (goes_clears h)
  | recover _ ih => exact ih.pass (passes_recoverTo _ _)
  | store hi h ih => exact ih.closeNode hk hi (goes_balanced h).toGrows
  | counted _ ih => exact ih.later id rfl
  | eachNil | firstNil | greedyEnd | scanEnd => exact fun _ _ => nofun
  | plusOn h ho _ _ ihn | eachOn h ho _ _ ihn | greedyOn _ h ho _ _ _ ihn =>
    exact ihn.later (fun ht => goes_clears h ht (Or.inl ho)) (lastLabels_of_goes h (Or.inl ho))
  | firstOn h ho _ _ ihn =>
    exact ihn.later (fun ht => goes_clears h ht (Or.inr ho)) (lastLabels_of_goes h (Or.inr ho))
  | scanOn h ho _ _ _ ihn =>
    refine ihn.later (fun ht => ?_) (lastLabels_of_goes h (Or.inr ho))
    rw [Cursor.advance_tree]
    exact goes_clears h ht (Or.inr ho)

/-! ## What is said of a hard failure -/

/-- When the hard failure was raised, in the last attempt of the match, of the nodes opened by the
match those of these labels were open, innermost first; where parents came before children, the
other open nodes were those that were open before the match. -/
def RaisedUnder (setting : Setting U L) (rule : Rule U L) (cursor : Cursor (TrailTree L))
    (result : Result (TrailTree L) L Mark) (failure : HardFailure (Position Mark))
    (labels : List L) : Prop :=
  ∃ course origin : Course U L (TrailTree L) Mark, ∃ ids,
    Course.Traces setting rule cursor result course ∧
    origin.Fails failure ∧ origin.attempts <:+ course.attempts ∧
    cursor.tree.arena.OpenedSince origin.result.cursor.tree.arena ids labels ∧
    (cursor.tree.arena.Ordered → ∃ outer, cursor.tree.arena.openNodes? = some outer ∧
      origin.result.cursor.tree.arena.openNodes? = some (ids ++ outer))

/-- The log is orderly, the trail is empty if there is no hard failure, and else it is what the log
ends with and what was open where the failure was raised. -/
structure Diagnosed (setting : Setting U L) (rule : Rule U L) (cursor : Cursor (TrailTree L))
    (result : Result (TrailTree L) L Mark) : Prop where
  orderly : Orderly result.outcome result.events
  trail_nil : result.outcome = .matched ∨ result.outcome = .unmatched →
    result.cursor.tree.trail = []
  log_ends : ∀ failure, result.outcome = .failed failure →
    ∃ before, result.events = before ++ result.cursor.tree.trail.map .whileParsing ∧
      ∀ label, before.getLast? ≠ some (.whileParsing label)
  raised : ∀ failure, result.outcome = .failed failure →
    RaisedUnder setting rule cursor result failure result.cursor.tree.trail

theorem returns_raisedUnder {rule : Rule U L} {cursor : Cursor (TrailTree L)}
    {result : Result (TrailTree L) L Mark} (h : Returns setting rule cursor result)
    {failure : HardFailure (Position Mark)} (ho : result.outcome = .failed failure) :
    RaisedUnder setting rule cursor result failure (lastLabels result.events) := by
  obtain ⟨⟨rule, cursor, parts, result⟩, hc⟩ := h.traced
  obtain ⟨hh, rfl, rfl, rfl, -⟩ := id hc
  obtain ⟨origin, hf, hl, -, ids, hi⟩ := goes_raises hh failure ho
  exact ⟨_, origin, ids, hc, hf, hl, hi, fun hw => hi.openNodes?_eq hw⟩

theorem returns_diagnosed (hk : setting.policy.keepsTrail = true) {rule : Rule U L}
    {cursor : Cursor (TrailTree L)} {result : Result (TrailTree L) L Mark}
    (ht : cursor.tree.trail = []) (h : Returns setting rule cursor result) :
    Diagnosed setting rule cursor result := by
  obtain ⟨parts, hg⟩ := returns_iff_goes.1 h
  refine ⟨(goes_logs hg).orderly, goes_clears hg ht, ?_, ?_⟩
  · intro failure ho
    rw [goes_trails hk hg ht failure ho]
    exact eq_append_lastLabels result.events
  · intro failure ho
    rw [goes_trails hk hg ht failure ho]
    exact returns_raisedUnder h ho

end Matching

open Matching

section

variable {U L : Type} [DecidableEq L] [Describe L] [InputUnit U] [DecidableEq U]

/-- The trail of a syntax error is the nodes that were open where the mandatory rule failed. -/
def TrailTold (references : Nat → Reference U L) (rule : Rule U L) (input : Input U)
    (report : ParseReport L) : Prop :=
  ∀ error, report.answer = .ok (.error (.malformed error)) →
    ∃ result position, Returns ⟨input, references, .text⟩ rule (.start .empty) result ∧
      result.outcome = .failed (.mandatory position) ∧ position.offset = error.offset ∧
      RaisedUnder ⟨input, references, .text⟩ rule (.start .empty) result (.mandatory position)
        error.trail

omit [DecidableEq L] in
theorem ParseReport.ofResult_mandatory {locate : Nat → Option Location} {total : Nat}
    {result : Result (TrailTree L) L Mark} {position : Position Mark}
    (h : result.outcome = .failed (.mandatory position)) :
    (ParseReport.ofResult locate total result).answer = .ok (.error (.malformed
      ⟨position.offset, locate position.offset, result.cursor.tree.trail⟩)) := by
  unfold ofResult
  rw [h]

omit [DecidableEq L] in
theorem ParseReport.malformed_ofResult {locate : Nat → Option Location} {total : Nat}
    {result : Result (TrailTree L) L Mark} {error : SyntaxError L}
    (h : (ParseReport.ofResult locate total result).answer = .ok (.error (.malformed error))) :
    ∃ position, result.outcome = .failed (.mandatory position) ∧
      position.offset = error.offset ∧ result.cursor.tree.trail = error.trail := by
  unfold ofResult at h
  split at h
  · dsimp only at h
    cases hf : result.cursor.tree.finish with
    | error fault =>
      rw [hf] at h
      cases h
    | ok tree =>
      rw [hf] at h
      cases h
  · cases h
  · rename_i position ho
    cases h
    exact ⟨position, ho, rfl, rfl⟩
  · cases h
  · cases h

theorem trailTold_of_parse {locate : Nat → Option Location} {references : Nat → Reference U L}
    {bound : Nat} {rule : Rule U L} {input : Input U} {report : ParseReport L}
    (h : parseLocating locate references bound rule input = some report) :
    TrailTold references rule input report := by
  obtain ⟨result, hr, rfl⟩ := Option.map_eq_some_iff.1 h
  intro error he
  obtain ⟨position, ho, hp, ht⟩ := ParseReport.malformed_ofResult he
  have hd : Diagnosed ⟨input, references, .text⟩ rule (.start .empty) result :=
    returns_diagnosed rfl rfl ⟨bound, hr⟩
  rw [← ht]
  exact ⟨result, position, ⟨bound, hr⟩, ho, hp, hd.raised _ ho⟩

/-- Whatever was recovered from before, the log of a match is orderly, and the trail of the hard
failure that it ends in is that of the nodes open where the failure was raised; so it is in the
syntax error of a parse, of text and of other units. -/
theorem diagnostics_exact (input : Input U) (references : Nat → Reference U L) (rule : Rule U L) :
    (∀ (cursor : Cursor (TrailTree L)) (result : Result (TrailTree L) L Mark),
      cursor.tree.trail = [] → Returns ⟨input, references, .text⟩ rule cursor result →
        Diagnosed ⟨input, references, .text⟩ rule cursor result) ∧
    (∀ bound report, parseUnits references bound rule input = some report →
      TrailTold references rule input report) ∧
    (∀ (input : Input Char) (references : Nat → Reference Char L) (rule : Rule Char L) bound report,
      parse references bound rule input = some report → TrailTold references rule input report) :=
  ⟨fun _ _ ht h => returns_diagnosed rfl ht h, fun _ _ h => trailTold_of_parse h,
    fun _ _ _ _ _ h => trailTold_of_parse h⟩

end

/-- The value in `k=(` is a list that is not closed. Before the entry an item was tried, and its
failure was recovered from. -/
theorem diagnostics_exact_unclosed_value :
    let item : Rule Char Sample.Label := .recover (.storeMandatory .item (.is '!'))
    let list : Rule Char Sample.Label := .store .list (.seq [.is '(', .mandatory (.is ')')])
    let entry : Rule Char Sample.Label :=
      .store .entry (.seq [.store .key (.is 'k'), .storeIf .value (.is '=') list])
    let rule := .seq [.opt item, entry]
    let input : Input Char := .ofList ['k', '=', '(']
    let references : Nat → Reference Char Sample.Label := fun _ => .undefined
    let cursor : Cursor (TrailTree Sample.Label) := .start .empty
    (∃ result, Returns ⟨input, references, .text⟩ rule cursor result ∧
      result.cursor.tree.trail = [.list, .value, .entry] ∧
      result.events = [.mandatoryFailed ⟨0, ⟨1, some 0⟩⟩, .whileParsing .item,
        .recovered ⟨0, ⟨1, some 0⟩⟩, .mandatoryFailed ⟨3, ⟨4, some 3⟩⟩, .whileParsing .list,
        .whileParsing .value, .whileParsing .entry] ∧
      Diagnosed ⟨input, references, .text⟩ rule cursor result) ∧
    (∃ report, parseUnits references 20 rule input = some report ∧
      report.answer = .ok (.error (.malformed ⟨3, none, [.list, .value, .entry]⟩)) ∧
      TrailTold references rule input report) ∧
    ∃ report, parse references 20 rule input = some report ∧
      report.answer = .ok (.error (.malformed ⟨3, some ⟨1, 4⟩, [.list, .value, .entry]⟩)) ∧
      TrailTold references rule input report := by
  intro item list entry rule input references cursor
  have h : (run ⟨input, references, .text⟩ 20 rule cursor).map
      (fun result => (result.outcome, result.cursor.tree.trail, result.events)) =
      some (.failed (.mandatory ⟨3, ⟨4, some 3⟩⟩), [.list, .value, .entry],
        [.mandatoryFailed ⟨0, ⟨1, some 0⟩⟩, .whileParsing .item,
        .recovered ⟨0, ⟨1, some 0⟩⟩, .mandatoryFailed ⟨3, ⟨4, some 3⟩⟩, .whileParsing .list,
        .whileParsing .value, .whileParsing .entry]) := by decide +kernel
  obtain ⟨result, hr, hs⟩ := Option.map_eq_some_iff.1 h
  simp only [Prod.mk.injEq] at hs
  obtain ⟨ho, ht, he⟩ := hs
  have report (locate : Nat → Option Location) :
      ∃ report, parseLocating locate references 20 rule input = some report ∧
        report.answer = .ok (.error (.malformed ⟨3, locate 3, [.list, .value, .entry]⟩)) := by
    refine ⟨_, Option.map_eq_some_iff.2 ⟨result, hr, rfl⟩, ?_⟩
    rw [ParseReport.ofResult_mandatory ho, ht]
  have hl : Location.of input 3 = ⟨1, 4⟩ := by decide +kernel
  obtain ⟨hmatch, hunits, htext⟩ := diagnostics_exact input references rule
  refine ⟨⟨result, ⟨20, hr⟩, ht, he, hmatch cursor result rfl ⟨20, hr⟩⟩, ?_, ?_⟩
  · obtain ⟨report, hp, ha⟩ := report fun _ => none
    exact ⟨report, hp, ha, hunits 20 report hp⟩
  · obtain ⟨report, hp, ha⟩ := report fun offset => some (.of input offset)
    rw [hl] at ha
    exact ⟨report, hp, ha, htext input references rule 20 report hp⟩

end Peg
