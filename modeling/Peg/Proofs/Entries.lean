import Mathlib.Data.List.Forall2
import Peg.Proofs.Values
import Peg.Proofs.WellNested

/-
  Entries: the grammar of lines with entries and comments (`IsFile`), and that the sample rule for
  them matches exactly the inputs that are a file. A line is taken up to the newline or the end of
  input after it, so that what it leaves is the next line. The roots of the finished tree are the
  entries in order (`roots_of_records`).
-/

namespace Peg.Sample

open CharClass Matching

/-! ## The grammar -/

/-- The texts of an entry. -/
structure Entry where
  key : List Char
  value : List Char

/-- Spaces and tabs. -/
def Gap (text : List Char) : Prop := ∀ c ∈ text, c = ' ' ∨ c = '\t'

inductive IsKey : List Char → Prop
  | mk {first others} (hf : isLetter first = true) (ho : ∀ c ∈ others, isAlphaNum c = true) :
      IsKey (first :: others)

/-- What stands on a line between the gaps: nothing, a comment or an entry. The forest is what is
recorded of it, if the text starts at the offset. -/
inductive IsBody (start : Nat) : List Char → List Entry → Forest Label → Prop
  | nothing : IsBody start [] [] []
  | comment {note} (hn : '\n' ∉ note) : IsBody start ('#' :: note) [] []
  | entry {key gap gap' value forest} (hk : IsKey key) (hg : Gap gap) (hg' : Gap gap')
      (hv : Derives .value (start + extent (key ++ gap ++ '=' :: gap')) value forest) :
      IsBody start (key ++ gap ++ '=' :: gap' ++ value) [⟨key, value⟩]
        [.mk .entry start (start + extent (key ++ gap ++ '=' :: gap' ++ value))
          [.mk .key start (start + extent key) [],
            .mk .value (start + extent (key ++ gap ++ '=' :: gap'))
              (start + extent (key ++ gap ++ '=' :: gap' ++ value)) forest]]

inductive IsLine (start : Nat) : List Char → List Entry → Forest Label → Prop
  | mk {gap body gap' entries forest} (hg : Gap gap)
      (hb : IsBody (start + extent gap) body entries forest) (hg' : Gap gap') :
      IsLine start (gap ++ body ++ gap') entries forest

/-- Lines, each after a newline. -/
inductive IsLines : Nat → List Char → List Entry → Forest Label → Prop
  | nil {start} : IsLines start [] [] []
  | cons {start line lines entries entries' forest forest'}
      (hl : IsLine (start + extent ['\n']) line entries forest)
      (hn : IsLines (start + extent ('\n' :: line)) lines entries' forest') :
      IsLines start ('\n' :: line ++ lines) (entries ++ entries') (forest ++ forest')

inductive IsFile (start : Nat) : List Char → List Entry → Forest Label → Prop
  | mk {line lines entries entries' forest forest'} (hl : IsLine start line entries forest)
      (hn : IsLines (start + extent line) lines entries' forest') :
      IsFile start (line ++ lines) (entries ++ entries') (forest ++ forest')

/-! ## The parts of the rule -/

def gapRule : Rule Char Label := .star (.oneOf [' ', '\t'])

def keyRule : Rule Char Label := .store .key (.seq [.letter, .star .alphaNum])

def entryRule : Rule Char Label :=
  .store .entry (.seq [keyRule, gapRule,
    .mandatoryIf (.is '=') (.seq [gapRule, .store .value (ruleOf .value)])])

/-- The rest of a comment. -/
def noteRule : Rule Char Label := .or [.untilAt (.is '\n'), .star .any]

def bodyRule : Rule Char Label := .opt (.or [entryRule, .seq [.is '#', noteRule]])

def lineRule : Rule Char Label := .seq [gapRule, bodyRule, gapRule]

def linesRule : Rule Char Label := .star (.seq [.is '\n', lineRule])

example : entriesRule = .seq [lineRule, linesRule, .atEnd] := rfl

/-- Only a newline may come next. -/
def LineEnds (rest : List Char) : Prop := StopsAt (· ≠ '\n') rest

/-! ## First characters -/

theorem LineEnds.cases {rest : List Char} (h : LineEnds rest) :
    rest = [] ∨ ∃ more, rest = '\n' :: more := by
  cases rest with
  | nil => exact .inl rfl
  | cons c more =>
    have hc : c = '\n' := by simpa using h c rfl
    exact .inr ⟨more, by rw [hc]⟩

/-- A property that the newline lacks stops at the end of a line. -/
theorem LineEnds.stopsAt {p : Char → Bool} {rest : List Char} (h : LineEnds rest)
    (hp : p '\n' = false) : StopsAt p rest := by
  rcases h.cases with rfl | ⟨more, rfl⟩
  · exact .nil
  · exact .cons hp

theorem IsLines.lineEnds {start : Nat} {text : List Char} {entries : List Entry}
    {forest : Forest Label} (h : IsLines start text entries forest) : LineEnds text := by
  cases h with
  | nil => exact .nil
  | cons => exact .cons (by decide)

namespace Gap

variable {gap gap' rest : List Char}

theorem append (h : Gap gap) (h' : Gap gap') : Gap (gap ++ gap') := by
  intro c hc
  rcases List.mem_append.1 hc with hc | hc
  · exact h c hc
  · exact h' c hc

theorem no_newline (h : Gap gap) : '\n' ∉ gap := by
  intro hc
  rcases h _ hc with hc | hc <;> cases hc

theorem stopsAt_alphaNum (h : Gap gap) (hr : StopsAt isAlphaNum rest) :
    StopsAt isAlphaNum (gap ++ rest) := by
  refine .append (fun c hc => ?_) hr
  rcases h c hc with rfl | rfl <;> decide

end Gap

section

variable {input : Input Char} {references : Nat → Reference Char Label} {start : Nat}
  {text rest us : List Char} {entries : List Entry} {forest : Forest Label}

/-! ## Files are matched -/

theorem takes_gap {gap : List Char} (hg : Gap gap) (hr : StopsAt (· ∈ [' ', '\t']) rest) :
    Takes input references gapRule start gap rest [] := by
  refine .run (fun c hc => decide_eq_true ?_) hr
  simpa using hg c hc

theorem takes_key {key : List Char} (hk : IsKey key) (hr : StopsAt isAlphaNum rest) :
    Takes input references keyRule start key rest [.mk .key start (start + extent key) []] := by
  obtain ⟨hf, ho⟩ := hk
  exact .store (.seqOn (.unit hf) (.seqLast (.run ho hr)))

/-- A note goes on to the next newline, or to the end of input if there is none. -/
theorem takes_note {note : List Char} (hn : '\n' ∉ note) (hr : LineEnds rest) :
    Takes input references noteRule start note rest [] := by
  have hne : ∀ c ∈ note, decide (c = '\n') = false := by
    intro c hc
    refine decide_eq_false ?_
    rintro rfl
    exact hn hc
  rcases hr.cases with rfl | ⟨more, rfl⟩
  · refine .orOn (.untilAt ?_) (.orStop (.run (fun _ _ => rfl) .nil))
    rwa [List.append_nil]
  · exact .orStop (.untilAt hne rfl)

theorem misses_entry (h : StopsAt isLetter us) : Misses input references entryRule start us :=
  .store (.seqStop (.store (.seqStop (.unit h))))

/-- At the end of a line there is nothing to match. -/
theorem takes_nothing (h : LineEnds us) : Takes input references bodyRule start [] us [] := by
  have he : Misses input references entryRule start us := misses_entry (h.stopsAt (by decide))
  exact .optMissed (.orOn he (.orOn (.seqStop (.unit (h.stopsAt rfl))) .orNil))

theorem takes_comment {note : List Char} (hn : '\n' ∉ note) (hr : LineEnds rest) :
    Takes input references bodyRule start ('#' :: note) rest [] := by
  have he : Misses input references entryRule start ('#' :: note ++ rest) :=
    misses_entry (.cons (by decide))
  exact .opt (List.cons_ne_nil _ _)
    (.orOn he (.orStop (.seqOn (.unit rfl) (.seqLast (takes_note hn hr)))))

theorem stopsAt_gap_of_blank (h : StopsAt isBlank us) : StopsAt (· ∈ [' ', '\t']) us := by
  refine h.mono fun c hc => ?_
  have hc : c = ' ' ∨ c = '\t' := by simpa using hc
  rcases hc with rfl | rfl <;> decide

theorem takes_entry {key gap gap' value : List Char} (hr : references 0 = .defined listBody)
    (hk : IsKey key) (hg : Gap gap) (hg' : Gap gap')
    (hv : Derives .value (start + extent (key ++ gap ++ '=' :: gap')) value forest)
    (hf : StopsAt isAlphaNum rest) :
    Takes input references entryRule start (key ++ gap ++ '=' :: gap' ++ value) rest
      [.mk .entry start (start + extent (key ++ gap ++ '=' :: gap' ++ value))
        [.mk .key start (start + extent key) [],
          .mk .value (start + extent (key ++ gap ++ '=' :: gap'))
            (start + extent (key ++ gap ++ '=' :: gap' ++ value)) forest]] := by
  have hkey : Takes input references keyRule start key (gap ++ '=' :: (gap' ++ value) ++ rest)
      [.mk .key start (start + extent key) []] := by
    refine takes_key hk ?_
    rw [List.append_assoc]
    exact hg.stopsAt_alphaNum (.cons (by decide))
  have hgap : Takes input references gapRule (start + extent key) gap
      (['='] ++ (gap' ++ value) ++ rest) [] := takes_gap hg (.cons (by decide))
  have hsign : Takes input references (.is '=') (start + extent key + extent gap) ['=']
      (gap' ++ value ++ rest) [] := .unit rfl
  have hgap' : Takes input references gapRule (start + extent key + extent gap + extent ['=']) gap'
      (value ++ rest) [] := by
    obtain ⟨c, others, rfl, hc⟩ := hv.value_starts
    exact takes_gap hg' (stopsAt_gap_of_blank (.cons hc.not_blank))
  have he : start + extent (key ++ gap ++ '=' :: gap') =
      start + extent key + extent gap + extent ['='] + extent gap' := by
    simp only [add_extent, List.append_assoc]
    rfl
  have hvalue : Takes input references (.store .value (ruleOf .value)) _ value rest _ :=
    (hv.takes hr hf).store
  rw [he] at hvalue
  have hafter : Takes input references (.mandatoryIf (.is '=') (.seq [gapRule,
      .store .value (ruleOf .value)])) (start + extent key + extent gap) (['='] ++ (gap' ++ value))
      rest _ := hsign.seqOn (.seqLast (hgap'.seqOn (.seqLast hvalue)).mandatory)
  have hentry : Takes input references entryRule start _ rest _ :=
    .store (hkey.seqOn (hgap.seqOn (.seqLast hafter)))
  simp only [add_extent, List.append_assoc, List.cons_append, List.nil_append] at hentry ⊢
  exact hentry

theorem takes_line {gap body gap' : List Char} (hg : Gap gap) (hg' : Gap gap')
    (hb : Takes input references bodyRule (start + extent gap) body (gap' ++ rest) forest)
    (hstop : StopsAt (· ∈ [' ', '\t']) (body ++ gap' ++ rest)) (hf : LineEnds rest) :
    Takes input references lineRule start (gap ++ body ++ gap') rest forest := by
  have hgap : Takes input references gapRule start gap (body ++ gap' ++ rest) [] :=
    takes_gap hg hstop
  have hgap' : Takes input references gapRule (start + extent gap + extent body) gap' rest [] :=
    takes_gap hg' (hf.stopsAt (by decide))
  have hline : Takes input references lineRule start _ rest _ :=
    hgap.seqOn (hb.seqOn (.seqLast hgap'))
  rw [List.append_nil, ← List.append_assoc] at hline
  exact hline

/-- A line is taken up to where it ends. -/
theorem IsLine.takes (hr : references 0 = .defined listBody)
    (h : IsLine start text entries forest) (hf : LineEnds rest) :
    Takes input references lineRule start text rest forest := by
  cases h with
  | @mk gap body gap' _ _ hg hb hg' =>
  cases hb with
  | nothing =>
    -- The first gap takes the second one too.
    have hline : Takes input references lineRule start (gap ++ gap' ++ [] ++ []) rest [] :=
      takes_line (hg.append hg') nofun (takes_nothing hf) (hf.stopsAt (by decide)) hf
    simpa only [List.append_nil] using hline
  | @comment note hn =>
    -- The note takes the gap after it too.
    have hnote : '\n' ∉ note ++ gap' := fun hm => (List.mem_append.1 hm).elim hn hg'.no_newline
    have hline : Takes input references lineRule start (gap ++ '#' :: (note ++ gap') ++ []) rest
        [] := takes_line hg nofun (takes_comment hnote hf) (.cons (by decide)) hf
    simpa only [List.append_nil, List.append_assoc, List.cons_append] using hline
  | entry hk hgk hgv hv =>
    have hafter : StopsAt isAlphaNum (gap' ++ rest) :=
      hg'.stopsAt_alphaNum (hf.stopsAt (by decide))
    refine takes_line hg hg' ?_ ?_ hf
    · refine .opt (by simp) (.orStop (takes_entry hr hk hgk hgv hv hafter))
    · obtain ⟨hfirst, -⟩ := hk
      exact stopsAt_gap_of_blank (.cons (isBlank_of_isAlphaNum (isAlphaNum_of_isLetter hfirst)))

theorem IsLines.takes (hr : references 0 = .defined listBody)
    (h : IsLines start text entries forest) :
    Takes input references linesRule start text [] forest := by
  induction h with
  | nil => exact .starMissed (.seqStop (.unit .nil))
  | @cons start line lines _ _ _ _ hl hn ih =>
    have hends : LineEnds (lines ++ []) := by
      rw [List.append_nil]
      exact hn.lineEnds
    exact .starOn (List.cons_ne_nil _ _) (.seqOn (.unit rfl) (.seqLast (hl.takes hr hends))) ih

/-- An input that is a file is taken to its end. -/
theorem IsFile.takes (hr : references 0 = .defined listBody)
    (h : IsFile start text entries forest) :
    Takes input references entriesRule start text [] forest := by
  cases h with
  | @mk line lines _ _ forest forest' hl hn =>
    have hends : LineEnds (lines ++ [] ++ []) := by
      simp only [List.append_nil]
      exact hn.lineEnds
    have hline : Takes input references lineRule start line (lines ++ [] ++ []) forest :=
      hl.takes hr hends
    have hlines : Takes input references linesRule (start + extent line) lines ([] ++ []) forest' :=
      hn.takes hr
    have hall : Takes input references entriesRule start _ [] _ :=
      hline.seqOn (hlines.seqOn (.seqLast .atEnd))
    simpa only [List.append_nil] using hall

/-! ## Nothing else is matched -/

theorem gap_verdict {Missed : Prop} (hs : input.Stands start us) :
    Verdict input references gapRule start us Missed
      (fun text forest => Gap text ∧ forest = []) := by
  refine (Verdict.run hs).imp id ?_
  rintro text forest ⟨hg, rfl⟩
  refine ⟨fun c hc => ?_, rfl⟩
  simpa using hg c hc

theorem key_verdict (hs : input.Stands start us) :
    Verdict input references keyRule start us True
      (fun text forest => IsKey text ∧ forest = [.mk .key start (start + extent text) []]) := by
  refine .store (.seqOn hs (Verdict.unit hs).forget ?_)
  rintro text rest forest - ⟨⟨first, rfl, hf⟩, rfl⟩ hs
  refine .seqLast ((Verdict.run hs).imp id ?_)
  rintro others forest ⟨ho, rfl⟩
  exact ⟨.mk hf ho, rfl⟩

/-- What comes after the key of an entry and the gap after that. -/
def ValuePart (start : Nat) (text : List Char) (forest : Forest Label) : Prop :=
  ∃ gap value inside, text = '=' :: gap ++ value ∧ Gap gap ∧
    Derives .value (start + extent ('=' :: gap)) value inside ∧
    forest = [.mk .value (start + extent ('=' :: gap)) (start + extent text) inside]

theorem valuePart_verdict (hr : references 0 = .defined listBody) (hs : input.Stands start us) :
    Verdict input references
      (.mandatoryIf (.is '=') (.seq [gapRule, .store .value (ruleOf .value)])) start us True
      (ValuePart start) := by
  refine .seqOn hs (Verdict.unit hs).forget ?_
  rintro text rest forest - ⟨⟨c, rfl, hc⟩, rfl⟩ hs
  obtain rfl : c = '=' := of_decide_eq_true hc
  have hvalue : Verdict input references (.seq [gapRule, .store .value (ruleOf .value)])
      (start + extent ['=']) rest True fun text forest => ValuePart start ('=' :: text) forest := by
    refine .seqOn hs (gap_verdict hs) ?_
    rintro gap rest forest - ⟨hg, rfl⟩ hs
    have hv := (value_verdict (list_verdict hr hs) hs).forget
    refine .seqLast (.store (hv.imp id fun value inside hv => ?_))
    rw [add_extent] at hv ⊢
    rw [add_extent]
    exact ⟨gap, value, inside, rfl, hg, hv, rfl⟩
  exact .seqLast hvalue.mandatory

theorem entry_verdict (hr : references 0 = .defined listBody) (hs : input.Stands start us) :
    Verdict input references entryRule start us True
      (fun text forest => ∃ entries, IsBody start text entries forest) := by
  refine .store (.seqOn hs (key_verdict hs) ?_)
  rintro key rest forest - ⟨hk, rfl⟩ hs
  refine .seqOn hs (gap_verdict hs) ?_
  rintro gap rest forest - ⟨hg, rfl⟩ hs
  refine .seqLast ((valuePart_verdict hr hs).imp id ?_)
  rintro text forest ⟨gap', value, inside, rfl, hg', hv, rfl⟩
  rw [add_extent, add_extent, ← List.append_assoc] at hv
  refine ⟨[⟨key, value⟩], ?_⟩
  have hb := IsBody.entry hk hg hg' hv
  simp only [add_extent, List.append_assoc, List.cons_append, List.nil_append] at hb ⊢
  exact hb

theorem comment_verdict (hs : input.Stands start us) :
    Verdict input references (.seq [.is '#', noteRule]) start us True
      (fun text forest => ∃ entries, IsBody start text entries forest) := by
  refine .seqOn hs (Verdict.unit hs).forget ?_
  rintro text rest forest - ⟨⟨c, rfl, hc⟩, rfl⟩ hs
  obtain rfl : c = '#' := of_decide_eq_true hc
  obtain ⟨note, after, rfl, hn, ha⟩ := StopsAt.exists_run (· ≠ '\n') rest
  have hnote : '\n' ∉ note := fun hm => of_decide_eq_true (hn _ hm) rfl
  exact .seqLast (.found rfl ⟨[], .comment hnote⟩ (takes_note hnote ha hs))

theorem body_verdict (hr : references 0 = .defined listBody) (hs : input.Stands start us) :
    Verdict input references bodyRule start us True
      (fun text forest => ∃ entries, IsBody start text entries forest) := by
  have hor : Verdict input references (.or [entryRule, .seq [.is '#', noteRule]]) start us True
      (fun text forest => ∃ entries, IsBody start text entries forest) :=
    .orOn (entry_verdict hr hs) fun _ => .orOn (comment_verdict hs) .orNil
  exact .opt hs (fun _ => hor) ⟨[], .nothing⟩

theorem line_verdict (hr : references 0 = .defined listBody) (hs : input.Stands start us) :
    Verdict input references lineRule start us True
      (fun text forest => ∃ entries, IsLine start text entries forest) := by
  refine .seqOn hs (gap_verdict hs) ?_
  rintro gap rest forest - ⟨hg, rfl⟩ hs
  refine .seqOn hs (body_verdict hr hs) ?_
  rintro body rest forest - ⟨entries, hb⟩ hs
  refine .seqLast ((gap_verdict hs).imp id ?_)
  rintro gap' forest' ⟨hg', rfl⟩
  have hl := IsLine.mk hg hb hg'
  rw [List.append_assoc] at hl
  rw [List.append_nil]
  exact ⟨entries, hl⟩

/-- A newline and the line after it. -/
def NextLine (start : Nat) (text : List Char) (forest : Forest Label) : Prop :=
  ∃ line entries, text = '\n' :: line ∧ IsLine (start + extent ['\n']) line entries forest

/-- Lines with some entries, each after a newline. -/
def SomeLines (start : Nat) (text : List Char) (forest : Forest Label) : Prop :=
  ∃ entries, IsLines start text entries forest

theorem lines_verdict (hr : references 0 = .defined listBody) (hs : input.Stands start us) :
    Verdict input references linesRule start us True (SomeLines start) := by
  have hround : ∀ {start rest}, rest.length < us.length + 1 → input.Stands start rest →
      Verdict input references (.seq [.is '\n', lineRule]) start rest True (NextLine start) := by
    intro start rest _ hs
    refine .seqOn hs (Verdict.unit hs).forget ?_
    rintro text rest forest - ⟨⟨c, rfl, hc⟩, rfl⟩ hs
    obtain rfl : c = '\n' := of_decide_eq_true hc
    refine .seqLast ((line_verdict hr hs).imp id ?_)
    rintro line forest ⟨entries, hl⟩
    exact ⟨line, entries, rfl, hl⟩
  refine .star hround ?_ (fun _ => ⟨[], .nil⟩) ?_ hs (Nat.lt_succ_self _)
  · rintro start text forest ⟨line, entries, rfl, -⟩
    exact List.cons_ne_nil _ _
  · rintro start text forest more others ⟨line, entries, rfl, hl⟩ ⟨entries', hn⟩
    exact ⟨entries ++ entries', .cons hl hn⟩

/-- Where the rule matches, all the units left are a file. -/
theorem file_verdict (hr : references 0 = .defined listBody) (hs : input.Stands start us) :
    Verdict input references entriesRule start us True
      (fun text forest => text = us ∧ ∃ entries, IsFile start text entries forest) := by
  refine .seqOn hs (line_verdict hr hs) ?_
  rintro line rest forest rfl ⟨entries, hl⟩ hs
  refine .seqOn hs (lines_verdict hr hs) ?_
  rintro lines rest forest' rfl ⟨entries', hn⟩ hs
  refine .seqLast ((Verdict.atEnd hs).imp (fun _ => trivial) ?_)
  rintro text forest ⟨rfl, rfl, rfl⟩
  simp only [List.append_nil, true_and]
  exact ⟨entries ++ entries', .mk hl hn⟩

/-! ## The roots of the tree -/

/-- The span is that of the entry, with a span for each of its texts inside. -/
inductive RecordsEntry (input : Input Char) : Span Label → Entry → Prop
  | mk {start keyStop valueStart stop inside entry}
      (hk : input.slice? start keyStop = some entry.key)
      (hv : input.slice? valueStart stop = some entry.value) :
      RecordsEntry input (.mk .entry start stop
        [.mk .key start keyStop [], .mk .value valueStart stop inside]) entry

theorem IsBody.records (h : IsBody start text entries forest)
    (hs : input.Stands start (text ++ rest)) :
    List.Forall₂ (RecordsEntry input) forest entries := by
  cases h with
  | nothing | comment => exact .nil
  | @entry key gap gap' value inside =>
    refine .cons (.mk ?_ ?_) .nil
    · simp only [List.append_assoc] at hs
      exact hs.slice?
    · rw [List.append_assoc (key ++ gap ++ '=' :: gap')] at hs
      rw [← add_extent start (key ++ gap ++ '=' :: gap') value]
      exact hs.drop.slice?

theorem IsLine.records (h : IsLine start text entries forest)
    (hs : input.Stands start (text ++ rest)) :
    List.Forall₂ (RecordsEntry input) forest entries := by
  obtain ⟨hg, hb, hg'⟩ := h
  simp only [List.append_assoc] at hs
  exact hb.records hs.drop

theorem IsLines.records (h : IsLines start text entries forest) (hs : input.Stands start text) :
    List.Forall₂ (RecordsEntry input) forest entries := by
  induction h with
  | nil => exact .nil
  | cons hl hn ih =>
    have hline := hs.tail
    exact List.rel_append (hl.records hline) (ih hs.drop)

theorem IsFile.records (h : IsFile start text entries forest) (hs : input.Stands start text) :
    List.Forall₂ (RecordsEntry input) forest entries := by
  obtain ⟨hl, hn⟩ := h
  exact List.rel_append (hl.records hs) (hn.records hs.drop)

/-- The node is that of the entry, with two nodes inside, whose texts are the key and the value. -/
structure EntryNode (tree : ParseTree Label) (input : Input Char) (id : Nat) (entry : Entry) :
    Prop where
  label : (tree.get? id).map (·.label) = some .entry
  children : tree.children id =
    if id < ParseTree.maxIndex then .ok [id + 1, id + 2] else .error .indexOverflow
  key : (tree.get? (id + 1)).map (·.label) = some .key
  keyText : tree.text? (id + 1) input = some (String.ofList entry.key)
  value : (tree.get? (id + 2)).map (·.label) = some .value
  valueText : tree.text? (id + 2) input = some (String.ofList entry.value)

/-- Where the span of an entry is stored with nothing but roots after it, there is its node. -/
theorem RecordsEntry.node {tree : ParseTree Label} {ok : Nat → Prop} {lo hi first : Nat}
    {span : Span Label} {spans : Forest Label} {entry : Entry} (h : RecordsEntry input span entry)
    (hnest : Nested ok lo hi (span :: spans))
    (hn : forestNodes none first (span :: spans) <+: tree.nodes.toList.drop first)
    (hend : tree.nodes.size = first + (forestNodes none first (span :: spans)).length) :
    EntryNode tree input first entry := by
  obtain @⟨start, keyStop, valueStart, stop, inside, entry, hk, hv⟩ := h
  cases hnest with
  | cons hlo hs inner later =>
  rw [forestNodes_cons] at hn hend
  obtain ⟨hnode, hn⟩ := cons_prefix_drop hn
  obtain ⟨hinside, hrest⟩ := append_prefix_drop hn
  rw [List.length_cons, List.length_append] at hend
  have hchildren : tree.childrenFrom (first + 1) (some first) = [first + 1, first + 2] := by
    refine inner.childrenFrom_eq hinside (fun p hp => ?_) fun node hnode => ?_
    · cases hp
      exact Nat.lt_succ_self _
    · -- What comes after all that is inside an entry is a root.
      obtain ⟨hlt, -⟩ := Array.getElem?_eq_some_iff.1 hnode
      rw [(later.laid hrest).parent_first (by omega) hnode]
      rfl
  rw [forestNodes_cons, forestNodes, List.nil_append, forestNodes_cons] at hinside
  obtain ⟨hkey, hin⟩ := cons_prefix_drop hinside
  obtain ⟨hvalue, -⟩ := cons_prefix_drop hin
  rw [Array.getElem?_toList] at hnode hkey hvalue
  have hkey : tree.get? (first + 1) = _ := hkey
  have hvalue : tree.get? (first + 2) = _ := hvalue
  refine ⟨congrArg (Option.map Node.label) hnode, ?_, congrArg (Option.map Node.label) hkey, ?_,
    congrArg (Option.map Node.label) hvalue, ?_⟩
  · unfold ParseTree.children
    rw [hchildren]
  · unfold ParseTree.text? ParseTree.slice?
    rw [hkey, Option.bind_some, hk]
    rfl
  · unfold ParseTree.text? ParseTree.slice?
    rw [hvalue, Option.bind_some, hv]
    rfl

/-- Where the spans of entries are stored up to the end of the tree, the roots are the nodes of the
entries in order. -/
theorem roots_of_records {tree : ParseTree Label} {ok : Nat → Prop} {lo hi first : Nat}
    (h : List.Forall₂ (RecordsEntry input) forest entries) (hnest : Nested ok lo hi forest)
    (hn : forestNodes none first forest <+: tree.nodes.toList.drop first)
    (hend : tree.nodes.size = first + (forestNodes none first forest).length) :
    List.Forall₂ (EntryNode tree input) (forestRoots first forest) entries := by
  induction h generalizing first lo with
  | nil => exact .nil
  | @cons span entry spans entries hspan hrest ih =>
    have hnode := hspan.node hnest hn hend
    cases hnest with
    | cons hlo hs inner later =>
    rw [forestNodes_cons] at hn hend
    obtain ⟨-, hn⟩ := cons_prefix_drop hn
    obtain ⟨-, hn⟩ := append_prefix_drop hn
    rw [List.length_cons, List.length_append] at hend
    exact .cons hnode (ih later hn (by omega))

/-- Where a file is all that was recorded, the finished tree has its entries as roots. -/
theorem IsFile.finish {tree : TrailTree Label} {ok : Nat → Prop} {hi : Nat}
    (h : IsFile 0 us entries forest) (hs : input.Stands 0 us) (hnest : Nested ok 0 hi forest)
    (hn : tree.arena.slots.toList = forestNodes none 0 forest) (ho : tree.arena.innermost = none) :
    ∃ parsed, tree.finish = .ok parsed ∧
      List.Forall₂ (EntryNode parsed input) parsed.roots entries := by
  have hprefix : forestNodes none 0 forest <+: tree.arena.slots.toList.drop 0 := by
    rw [hn]
    exact List.prefix_refl _
  have hsize : tree.arena.slots.size = 0 + (forestNodes none 0 forest).length := by
    rw [← hn, Array.length_toList, Nat.zero_add]
  have hl := hnest.laid hprefix
  rw [← hsize] at hl
  refine ⟨⟨tree.arena.slots, hl.parentsFirst⟩, finish_of_laid ho hl, ?_⟩
  rw [hnest.roots_eq hn]
  exact roots_of_records (h.records hs) hnest hprefix hsize

end

/-! ## Matching entries -/

/-- Matching entries from the start of an input over an empty tree matches exactly the files, to
their end. The finished tree then has the entries as its roots, in order, each with its key and its
value as children. -/
theorem entries_match_exactly (text : String) : ∃ result : Result (TrailTree Label) Label Mark,
    Returns ⟨.ofString text, workspace.registry.lookup, .text⟩ entriesRule (.start .empty) result ∧
    (result.outcome = .matched ↔ ∃ entries forest, IsFile 0 text.toList entries forest) ∧
    ∀ entries forest, IsFile 0 text.toList entries forest →
      result.cursor.offset = (Input.ofString text).length ∧
      ∃ tree, result.cursor.tree.finish = .ok tree ∧
        List.Forall₂ (EntryNode tree (.ofString text)) tree.roots entries := by
  have hs : (Input.ofString text).Stands 0 text.toList := ⟨[], rfl, rfl⟩
  have hv : Verdict (.ofString text) workspace.registry.lookup entriesRule 0 text.toList True _ :=
    file_verdict lookup_zero hs
  obtain ⟨answer, hm⟩ := hv.means
  obtain ⟨result, hr, ha⟩ := returns_agrees (.start .empty) hm
  have hfile {entries : List Entry} {forest : Forest Label}
      (h : IsFile 0 text.toList entries forest) :
      answer = .yes (Input.ofString text).length forest := by
    have ht : Takes (.ofString text) workspace.registry.lookup entriesRule 0 text.toList []
        forest := h.takes lookup_zero
    have hyes := ht (by rwa [List.append_nil])
    rw [← hs.length_eq] at hyes
    exact hm.unique hyes
  refine ⟨result, hr, ⟨fun ho => ?_, fun ⟨entries, forest, h⟩ => ?_⟩, fun entries forest h => ?_⟩
  · cases hv with
    | @found text' rest forest hu hf hm' =>
      obtain ⟨rfl, entries, h⟩ := hf
      exact ⟨entries, forest, h⟩
    | missed _ hm' =>
      rw [hm.unique hm'] at ha
      cases ho.symm.trans ha.1
    | broken hm' =>
      rw [hm.unique hm'] at ha
      have hfailed := ha.2
      rw [ho] at hfailed
      cases hfailed
  · rw [hfile h] at ha
    exact ha.1
  · rw [hfile h] at ha hm
    obtain ⟨-, hoff, hn, hi⟩ := ha
    have hnest : Nested _ 0 _ forest := hm.nested (Input.isBoundary_zero _)
    have hslots : result.cursor.tree.arena.slots.toList = forestNodes none 0 forest := by
      rw [← Arena.toList_eq]
      exact hn
    exact ⟨hoff, h.finish hs hnest hslots hi⟩

end Peg.Sample
