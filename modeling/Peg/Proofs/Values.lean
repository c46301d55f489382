import Peg.CharClass
import Peg.Proofs.Adequacy
import Peg.Proofs.Scanning
import Peg.Sample.Grammar

/-
  Values: the grammar of numbers, words and lists as productions (`Derives`), and that the rules for
  them match exactly what it derives and record the derivation. No greedy choice loses a text, since
  what may follow the text of a symbol does not go on with it (`Derives.takes`); and the rules match
  nothing else, as each comes to a verdict on every input (`list_verdict`).
-/

namespace Peg.Sample

open CharClass Matching

/-! ## The grammar -/

/-- The symbols of the grammar: `items` is what a list holds, and `more` what comes after its first
item. -/
inductive Symbol
  | number
  | word
  | value
  | item
  | more
  | items
  | list

def Blanks (text : List Char) : Prop := ∀ c ∈ text, isBlank c = true

/-- The text is a minus sign or nothing. -/
inductive Sign (start : Nat) : List Char → Forest Label → Prop
  | none : Sign start [] []
  | minus : Sign start ['-'] [.mk .sign start (start + extent ['-']) []]

/-- The text is a comma, perhaps with blanks around it. -/
inductive Comma : List Char → Prop
  | mk {gap gap'} (hg : Blanks gap) (hg' : Blanks gap') : Comma (gap ++ ',' :: gap')

/-- The symbol derives the text. The forest is its derivation, if the text starts at the offset. -/
inductive Derives : Symbol → Nat → List Char → Forest Label → Prop
  | number {start sign digits inside} (hs : Sign start sign inside) (hne : digits ≠ [])
      (hd : ∀ c ∈ digits, isDigit c = true) :
      Derives .number start (sign ++ digits)
        [.mk .number start (start + extent (sign ++ digits)) inside]
  | word {start first others} (hf : isLetter first = true)
      (ho : ∀ c ∈ others, isAlphaNum c = true) :
      Derives .word start (first :: others)
        [.mk .word start (start + extent (first :: others)) []]
  | ofNumber {start text forest} (h : Derives .number start text forest) :
      Derives .value start text forest
  | ofWord {start text forest} (h : Derives .word start text forest) :
      Derives .value start text forest
  | ofList {start text forest} (h : Derives .list start text forest) :
      Derives .value start text forest
  | item {start text forest} (h : Derives .value start text forest) :
      Derives .item start text [.mk .item start (start + extent text) forest]
  | done {start} : Derives .more start [] []
  | more {start comma text others forest forest'} (hc : Comma comma)
      (hi : Derives .item (start + extent comma) text forest)
      (hm : Derives .more (start + extent (comma ++ text)) others forest') :
      Derives .more start (comma ++ text ++ others) (forest ++ forest')
  | noItems {start} : Derives .items start [] []
  | items {start text others gap forest forest'} (hi : Derives .item start text forest)
      (hm : Derives .more (start + extent text) others forest') (hg : Blanks gap) :
      Derives .items start (text ++ others ++ gap) (forest ++ forest')
  | list {start gap text forest} (hg : Blanks gap)
      (h : Derives .items (start + extent ('(' :: gap)) text forest) :
      Derives .list start ('(' :: gap ++ text ++ [')'])
        [.mk .list start (start + extent ('(' :: gap ++ text ++ [')'])) forest]

def moreRule : Rule Char Label :=
  .star (.mandatoryIf (.seq [blanks, .is ',', blanks]) itemRule)

/-- The rule for what a symbol derives. -/
def ruleOf : Symbol → Rule Char Label
  | .number => numberRule
  | .word => wordRule
  | .value => .or [numberRule, wordRule, listRule]
  | .item => itemRule
  | .more => moreRule
  | .items => .opt (.seq [.seq [itemRule, moreRule], blanks])
  | .list => listRule

example : listBody = .store .list (.mandatoryIf (.is '(')
    (.seq [blanks, ruleOf .items, .is ')'])) := rfl

/-- What follows a text of the symbol does not go on with it. -/
def Follows : Symbol → List Char → Prop
  | .number, rest => StopsAt isDigit rest
  | .word, rest | .value, rest | .item, rest => StopsAt isAlphaNum rest
  | .more, rest => ∃ gap after, rest = gap ++ ')' :: after ∧ Blanks gap
  | .items, rest => ∃ after, rest = ')' :: after
  | .list, _ => True

/-! ## First characters -/

theorem Blanks.stopsAt {gap rest : List Char} (h : Blanks gap) (hr : StopsAt isAlphaNum rest) :
    StopsAt isAlphaNum (gap ++ rest) :=
  .append (fun c hc => isAlphaNum_of_isBlank (h c hc)) hr

theorem stopsAt_digit {rest : List Char} (h : StopsAt isAlphaNum rest) : StopsAt isDigit rest :=
  h.mono fun _ => isAlphaNum_of_isDigit

/-- The first character of a number, a word or a list. -/
def Starts (c : Char) : Prop := isDigit c = true ∨ c = '-' ∨ isLetter c = true ∨ c = '('

theorem Starts.not_blank {c : Char} (h : Starts c) : isBlank c = false := by
  rcases h with h | rfl | h | rfl
  · exact isBlank_of_isAlphaNum (isAlphaNum_of_isDigit h)
  · decide
  · exact isBlank_of_isAlphaNum (isAlphaNum_of_isLetter h)
  · decide

namespace Derives

variable {start : Nat} {text rest : List Char} {forest : Forest Label}

theorem value_starts (h : Derives .value start text forest) :
    ∃ c others, text = c :: others ∧ Starts c := by
  cases h with
  | ofNumber h =>
    cases h with
    | @number _ _ digits _ hs hne hd =>
      cases hs with
      | none =>
        obtain ⟨c, others, rfl⟩ := List.exists_cons_of_ne_nil hne
        exact ⟨c, others, rfl, .inl (hd c List.mem_cons_self)⟩
      | minus => exact ⟨'-', digits, rfl, .inr (.inl rfl)⟩
  | ofWord h =>
    cases h with
    | word hf => exact ⟨_, _, rfl, .inr (.inr (.inl hf))⟩
  | ofList h =>
    cases h with
    | list => exact ⟨_, _, rfl, .inr (.inr (.inr rfl))⟩

theorem item_starts (h : Derives .item start text forest) :
    ∃ c others, text = c :: others ∧ Starts c := by
  cases h with
  | item h => exact h.value_starts

theorem stopsAt_blank (h : Derives .item start text forest) : StopsAt isBlank (text ++ rest) := by
  obtain ⟨c, others, rfl, hc⟩ := h.item_starts
  exact .cons hc.not_blank

theorem items_stopsAt_blank (h : Derives .items start text forest) :
    StopsAt isBlank (text ++ ')' :: rest) := by
  cases h with
  | noItems => exact .cons (by decide)
  | items hi =>
    simp only [List.append_assoc]
    exact hi.stopsAt_blank

/-- After an item come blanks, and then a comma or the closing parenthesis. -/
theorem follows_item (h : Derives .more start text forest) (hf : Follows .more rest) :
    StopsAt isAlphaNum (text ++ rest) := by
  cases h with
  | done =>
    obtain ⟨gap, after, rfl, hg⟩ := hf
    exact hg.stopsAt (.cons (by decide))
  | more hc =>
    obtain ⟨hg, -⟩ := hc
    simp only [List.append_assoc, List.cons_append]
    exact hg.stopsAt (.cons (by decide))

end Derives

/-! ## What derives is matched -/

section

variable {input : Input Char} {references : Nat → Reference Char Label} {start : Nat}
  {text rest us : List Char} {forest : Forest Label}

/-- Where there is no sign, none is taken. -/
theorem takes_no_sign (h : StopsAt (· = '-') us) :
    Takes input references (.opt (.store .sign (.is '-'))) start [] us [] :=
  .optMissed (.store (.unit h))

theorem misses_number (hd : StopsAt isDigit us) (hm : StopsAt (· = '-') us) :
    Misses input references numberRule start us :=
  .store (.seqOn (takes_no_sign hm) (.seqStop (.plus (.unit hd))))

theorem misses_word (h : StopsAt isLetter us) : Misses input references wordRule start us :=
  .store (.seqStop (.unit h))

theorem misses_list (hr : references 0 = .defined listBody) (h : StopsAt (· = '(') us) :
    Misses input references listRule start us :=
  .ref hr (.store (.seqStop (.unit h)))

theorem takes_number {sign digits : List Char} (hs : Sign start sign forest) (hne : digits ≠ [])
    (hd : ∀ c ∈ digits, isDigit c = true) (hr : StopsAt isDigit rest) :
    Takes input references numberRule start (sign ++ digits) rest
      [.mk .number start (start + extent (sign ++ digits)) forest] := by
  have hm : StopsAt (· = '-') (digits ++ rest) := by
    obtain ⟨c, others, rfl⟩ := List.exists_cons_of_ne_nil hne
    refine .cons (decide_eq_false ?_)
    rintro rfl
    cases hd '-' List.mem_cons_self
  have hsign : Takes input references (.opt (.store .sign (.is '-'))) start sign (digits ++ rest)
      forest := by
    cases hs with
    | none => exact takes_no_sign hm
    | minus => exact .opt (List.cons_ne_nil _ _) (.store (.unit rfl))
  have hall := hsign.seqOn (.seqLast (.runOn hne hd hr))
  rw [List.append_nil] at hall
  exact .store hall

theorem takes_comma {comma : List Char} (hc : Comma comma) (hr : StopsAt isBlank rest) :
    Takes input references (.seq [blanks, .is ',', blanks]) start comma rest [] := by
  obtain ⟨hg, hg'⟩ := hc
  exact .seqOn (.run hg (.cons (by decide))) (.seqOn (.unit rfl) (.seqLast (.run hg' hr)))

/-- Before a closing parenthesis, perhaps after blanks, there is no item. -/
theorem misses_item (hr : references 0 = .defined listBody) :
    Misses input references itemRule start (')' :: us) := by
  have hn : Misses input references numberRule start (')' :: us) :=
    misses_number (.cons rfl) (.cons rfl)
  have hw : Misses input references wordRule start (')' :: us) := misses_word (.cons (by decide))
  have hl : Misses input references listRule start (')' :: us) := misses_list hr (.cons rfl)
  exact .store (.orOn hn (.orOn hw (.orOn hl .orNil)))

/-- A text that a symbol derives is taken whole, and its derivation recorded. -/
theorem Derives.takes {symbol : Symbol} (hr : references 0 = .defined listBody)
    (h : Derives symbol start text forest) (hf : Follows symbol rest) :
    Takes input references (ruleOf symbol) start text rest forest := by
  induction h generalizing rest with
  | number hs hne hd => exact takes_number hs hne hd hf
  | word hl ho => exact .store (.seqOn (.unit hl) (.seqLast (.run ho hf)))
  | ofNumber _ ih => exact .orStop (ih (stopsAt_digit hf))
  | ofWord h ih =>
    -- A letter is neither a digit nor the minus sign.
    refine .orOn ?_ (.orStop (ih hf))
    cases h with
    | word hl ho =>
      refine misses_number (.cons ?_) (.cons (decide_eq_false ?_))
      · rw [← Bool.not_eq_true]
        intro hd
        rw [isLetter_of_isDigit hd] at hl
        cases hl
      · rintro rfl
        cases hl
  | ofList h ih =>
    cases h with
    | list =>
      exact .orOn (misses_number (.cons rfl) (.cons rfl))
        (.orOn (misses_word (.cons (by decide))) (.orStop (ih trivial)))
  | item _ ih => exact .store (ih hf)
  | @done start =>
    obtain ⟨gap, after, rfl, hg⟩ := hf
    have hgap : Takes input references blanks start gap (')' :: after) [] :=
      .run hg (.cons (by decide))
    exact .starMissed (.seqStop (.seqOn hgap (.seqStop (.unit (.cons rfl)))))
  | @more start comma text others forest forest' hc hi hm ihi ihm =>
    have hcomma : Takes input references (.seq [blanks, .is ',', blanks]) start comma
        (text ++ (others ++ rest)) [] := takes_comma hc hi.stopsAt_blank
    have hitem := ihi (hm.follows_item hf)
    have hne : comma ++ text ≠ [] := by
      obtain ⟨c, more, rfl, -⟩ := hi.item_starts
      exact List.append_ne_nil_of_right_ne_nil _ (List.cons_ne_nil _ _)
    exact .starOn hne (hcomma.seqOn (.seqLast hitem.mandatory)) (ihm hf)
  | @noItems start =>
    obtain ⟨after, rfl⟩ := hf
    exact .optMissed (.seqStop (.seqStop (misses_item hr)))
  | @items start text others gap forest forest' hi hm hg ihi ihm =>
    obtain ⟨after, rfl⟩ := hf
    have hafter : Follows .more (gap ++ ')' :: after) := ⟨gap, after, rfl, hg⟩
    have hitems := (ihi (hm.follows_item hafter)).seqOn (.seqLast (ihm hafter))
    have hgap : Takes input references blanks (start + extent (text ++ others)) gap
        (')' :: after) [] := .run hg (.cons (by decide))
    have hne : text ++ others ++ gap ≠ [] := by
      obtain ⟨c, more, rfl, -⟩ := hi.item_starts
      exact List.cons_ne_nil _ _
    have h := (hitems.seqOn (.seqLast hgap)).opt hne
    rwa [List.append_nil] at h
  | @list start gap text forest hg h ih =>
    have hgap : Takes input references blanks (start + extent ['(']) gap
        (text ++ [')'] ++ rest) [] := by
      refine .run hg ?_
      simp only [List.append_assoc]
      exact h.items_stopsAt_blank
    have hitems := ih ⟨rest, rfl⟩
    have he : start + extent ('(' :: gap) = start + extent ['('] + extent gap :=
      (add_extent start ['('] gap).symm
    rw [he] at hitems
    have hclose : Takes input references (.seq [.is ')'])
        (start + extent ['('] + extent gap + extent text) [')'] rest [] := .seqLast (.unit rfl)
    have hin := hgap.seqOn (hitems.seqOn hclose)
    simp only [List.append_nil, List.nil_append, ← List.append_assoc] at hin
    exact .ref hr (.store (.seqOn (.unit rfl) (.seqLast hin.mandatory)))

/-! ## Nothing else is matched -/

theorem number_verdict (hs : input.Stands start us) :
    Verdict input references numberRule start us True (Derives .number start) := by
  have hminus : Verdict input references (.store .sign (.is '-')) start us True (Sign start) := by
    refine .store ((Verdict.unit hs).imp (fun _ => trivial) ?_)
    rintro text forest ⟨⟨c, rfl, hc⟩, rfl⟩
    obtain rfl : c = '-' := of_decide_eq_true hc
    exact .minus
  refine .store (.seqOn hs (.opt hs (fun _ => hminus) .none) fun _ hsign hs => .seqLast ?_)
  refine (Verdict.runOn hs).imp (fun _ => trivial) ?_
  rintro digits forest ⟨hne, hd, rfl⟩
  rw [List.append_nil]
  exact .number hsign hne hd

theorem word_verdict (hs : input.Stands start us) :
    Verdict input references wordRule start us True (Derives .word start) := by
  refine .store (.seqOn hs (Verdict.unit hs).forget ?_)
  rintro text rest forest - ⟨⟨first, rfl, hf⟩, rfl⟩ hs
  refine .seqLast ((Verdict.run hs).imp id ?_)
  rintro others forest ⟨ho, rfl⟩
  exact .word hf ho

theorem value_verdict {Missed : Prop}
    (h : Verdict input references listRule start us Missed (Derives .list start))
    (hs : input.Stands start us) :
    Verdict input references (ruleOf .value) start us Missed (Derives .value start) := by
  refine .orOn ((number_verdict hs).imp id fun _ _ => .ofNumber) fun _ => ?_
  refine .orOn ((word_verdict hs).imp id fun _ _ => .ofWord) fun _ => ?_
  exact .orOn (h.imp id fun _ _ => .ofList) .orNil

theorem comma_verdict (hs : input.Stands start us) :
    Verdict input references (.seq [blanks, .is ',', blanks]) start us True
      (fun text forest => Comma text ∧ forest = []) := by
  refine .seqOn hs (.run hs) ?_
  rintro gap rest forest - ⟨hg, rfl⟩ hs
  refine .seqOn hs (Verdict.unit hs).forget ?_
  rintro text rest forest - ⟨⟨c, rfl, hc⟩, rfl⟩ hs
  obtain rfl : c = ',' := of_decide_eq_true hc
  refine .seqLast ((Verdict.run hs).imp id ?_)
  rintro gap' forest ⟨hg', rfl⟩
  exact ⟨.mk hg hg', rfl⟩

/-- A comma and the item after it. -/
def NextItem (start : Nat) (text : List Char) (forest : Forest Label) : Prop :=
  ∃ comma item, text = comma ++ item ∧ Comma comma ∧
    Derives .item (start + extent comma) item forest

/-- Where fewer characters than the bound are left, the rule for items comes to a verdict. -/
def ItemVerdicts (input : Input Char) (references : Nat → Reference Char Label) (bound : Nat) :
    Prop :=
  ∀ {start us}, us.length < bound → input.Stands start us →
    Verdict input references itemRule start us True (Derives .item start)

theorem more_verdict {bound : Nat} (hi : ItemVerdicts input references bound)
    (hs : input.Stands start us) (hl : us.length < bound) :
    Verdict input references moreRule start us True (Derives .more start) := by
  have hround : ∀ {start us}, us.length < bound → input.Stands start us →
      Verdict input references (.mandatoryIf (.seq [blanks, .is ',', blanks]) itemRule) start us
        True (NextItem start) := by
    intro start us hl hs
    refine .seqOn hs (comma_verdict hs) ?_
    rintro comma rest forest rfl ⟨hc, rfl⟩ hs
    have hl : rest.length < bound := by
      rw [List.length_append] at hl
      omega
    refine .seqLast ((hi hl hs).mandatory.imp id fun item forest hi => ?_)
    exact ⟨comma, item, rfl, hc, hi⟩
  refine .star hround ?_ (fun _ => .done) ?_ hs hl
  · rintro start text forest ⟨comma, item, rfl, -, hi⟩
    obtain ⟨c, others, rfl, -⟩ := hi.item_starts
    exact List.append_ne_nil_of_right_ne_nil _ (List.cons_ne_nil _ _)
  · rintro start text forest more others ⟨comma, item, rfl, hc, hi⟩ hm
    exact .more hc hi hm

/-- An item and those after it. -/
def ItemsInRow (start : Nat) (text : List Char) (forest : Forest Label) : Prop :=
  ∃ item others forest₁ forest₂, text = item ++ others ∧ forest = forest₁ ++ forest₂ ∧
    Derives .item start item forest₁ ∧ Derives .more (start + extent item) others forest₂

theorem items_verdict {bound : Nat} (hi : ItemVerdicts input references bound)
    (hs : input.Stands start us) (hl : us.length < bound) :
    Verdict input references (ruleOf .items) start us True (Derives .items start) := by
  have hrow : Verdict input references (.seq [itemRule, moreRule]) start us True
      (ItemsInRow start) := by
    refine .seqOn hs (hi hl hs) ?_
    rintro item rest forest rfl hi' hs
    have hl : rest.length < bound := by
      rw [List.length_append] at hl
      omega
    refine .seqLast ((more_verdict hi hs hl).imp id fun others forest' hm => ?_)
    exact ⟨item, others, forest, forest', rfl, rfl, hi', hm⟩
  refine .opt hs (fun _ => .seqOn hs hrow ?_) .noItems
  rintro text rest forest - ⟨item, others, forest₁, forest₂, rfl, rfl, hi, hm⟩ hs
  refine .seqLast ((Verdict.run hs).imp id ?_)
  rintro gap forest ⟨hg, rfl⟩
  rw [List.append_nil]
  exact .items hi hm hg

/-- What comes after the opening parenthesis of a list. -/
def ListInside (start : Nat) (text : List Char) (forest : Forest Label) : Prop :=
  ∃ gap items, text = gap ++ items ++ [')'] ∧ Blanks gap ∧
    Derives .items (start + extent gap) items forest

theorem inside_verdict {bound : Nat} (hi : ItemVerdicts input references bound)
    (hs : input.Stands start us) (hl : us.length < bound) :
    Verdict input references (.seq [blanks, ruleOf .items, .is ')']) start us True
      (ListInside start) := by
  refine .seqOn hs (.run hs) ?_
  rintro gap rest forest rfl ⟨hg, rfl⟩ hs
  have hl : rest.length < bound := by
    rw [List.length_append] at hl
    omega
  refine .seqOn hs (items_verdict hi hs hl) ?_
  rintro items rest forest - hi hs
  refine .seqLast ((Verdict.unit hs).imp (fun _ => trivial) ?_)
  rintro text forest' ⟨⟨c, rfl, hc⟩, rfl⟩
  obtain rfl : c = ')' := of_decide_eq_true hc
  refine ⟨gap, items, (List.append_assoc _ _ _).symm, hg, ?_⟩
  rwa [List.append_nil]

/-- Where no list starts the rule does not match. Where one starts it matches a text that is a list,
or a mandatory rule fails. -/
theorem list_verdict (hr : references 0 = .defined listBody) (hs : input.Stands start us) :
    Verdict input references listRule start us (us.head? ≠ some '(') (Derives .list start) := by
  induction hn : us.length using Nat.strongRecOn generalizing start us with
  | _ bound ih =>
    subst hn
    have hitem : ItemVerdicts input references us.length := by
      intro start us hl hs
      have hv := value_verdict (ih _ hl hs rfl) hs
      exact .store (hv.forget.imp id fun text forest => .item)
    refine .ref hr (.store (.seqOn hs ((Verdict.unit hs).imp ?_ fun _ _ h => h) ?_))
    · intro hstop hhead
      have := hstop '(' hhead
      cases this
    rintro text rest forest rfl ⟨⟨c, rfl, hc⟩, rfl⟩ hs
    obtain rfl : c = '(' := of_decide_eq_true hc
    have hl : rest.length < (['('] ++ rest).length := Nat.lt_succ_self _
    refine .seqLast ((inside_verdict hitem hs hl).mandatory.imp id ?_)
    rintro text forest ⟨gap, items, rfl, hg, hi⟩
    rw [add_extent] at hi
    have hlist := Derives.list hg hi
    simp only [List.append_assoc, List.cons_append] at hlist ⊢
    exact hlist

end

/-! ## Lists of some shapes -/

/-- Digits are an item. -/
theorem derives_digits {digits : List Char} (hne : digits ≠ [])
    (hd : ∀ c ∈ digits, isDigit c = true) (start : Nat) :
    ∃ forest, Derives .item start digits forest :=
  ⟨_, .item (.ofNumber (.number .none hne hd))⟩

theorem derives_repr (n start : Nat) :
    ∃ forest, Derives .item start (Nat.repr n).toList forest := by
  rw [Nat.toList_repr]
  refine derives_digits Nat.toDigits_ne_nil (fun c hc => ?_) start
  have h := Nat.isDigit_of_mem_toDigits (by decide) (by decide) hc
  exact h

theorem blanks_nil : Blanks [] := nofun

theorem blanks_space : Blanks [' '] := by
  intro c hc
  obtain rfl := List.mem_singleton.1 hc
  decide

/-- Items with commas and spaces between them. -/
theorem derives_intercalate {first : List Char} {items : List (List Char)}
    (h : ∀ item ∈ items, ∀ start, ∃ forest, Derives .item start item forest) (start : Nat) :
    ∃ others forest, [',', ' '].intercalate (first :: items) = first ++ others ∧
      Derives .more start others forest := by
  induction items generalizing first start with
  | nil => exact ⟨[], [], by rw [List.intercalate_singleton, List.append_nil], .done⟩
  | cons item items ih =>
    have hc : Comma [',', ' '] := .mk blanks_nil blanks_space
    obtain ⟨forest, hi⟩ := h item List.mem_cons_self (start + extent [',', ' '])
    obtain ⟨others, forest', ho, hm⟩ := ih (fun item hm => h item (List.mem_cons_of_mem _ hm))
      (start + extent ([',', ' '] ++ item))
    refine ⟨[',', ' '] ++ item ++ others, forest ++ forest', ?_, .more hc hi hm⟩
    rw [List.intercalate_cons_cons, ho]
    simp only [List.append_assoc]

theorem toList_flat (length : Nat) : (flat length).toList = '(' :: [] ++ [',', ' '].intercalate
    ((List.range length).map fun i => (Nat.repr (i + 1)).toList) ++ [')'] := by
  unfold flat
  rw [String.toList_append, String.toList_append, String.toList_intercalate, List.map_map]
  rfl

theorem derives_flat (length start : Nat) :
    ∃ forest, Derives .list start (flat length).toList forest := by
  rw [toList_flat]
  cases length with
  | zero => exact ⟨_, .list blanks_nil .noItems⟩
  | succ length =>
    rw [List.range_succ_eq_map, List.map_cons]
    have hrepr : ∀ item ∈ (List.map Nat.succ (List.range length)).map
        (fun i => (Nat.repr (i + 1)).toList),
        ∀ start, ∃ forest, Derives .item start item forest := by
      intro item hitem
      obtain ⟨i, -, rfl⟩ := List.mem_map.1 hitem
      exact derives_repr (i + 1)
    obtain ⟨forest, hi⟩ := derives_repr (0 + 1) (start + extent ['('])
    obtain ⟨others, forest', ho, hm⟩ := derives_intercalate hrepr
      (start + extent ['('] + extent (Nat.repr (0 + 1)).toList)
    rw [ho]
    have hitems := Derives.items hi hm blanks_nil
    rw [List.append_nil] at hitems
    exact ⟨_, .list blanks_nil hitems⟩

theorem toList_nest (depth : Nat) :
    (nest (depth + 1)).toList = '(' :: [] ++ (nest depth).toList ++ [')'] := by
  unfold nest
  rw [String.toList_ofList, String.toList_ofList, List.replicate_succ, List.replicate_succ']
  simp only [List.cons_append, List.nil_append, List.append_assoc]

/-- A number inside so many lists is a list if there is one around it. -/
theorem derives_nest (depth start : Nat) : ∃ forest,
    Derives .value start (nest depth).toList forest ∧
    (0 < depth → Derives .list start (nest depth).toList forest) ∧
    ∀ parent index, (forestNodes parent index forest).length = 2 * depth + 1 := by
  induction depth generalizing start with
  | zero =>
    have hd : ∀ c ∈ ['1'], isDigit c = true := by
      intro c hc
      obtain rfl := List.mem_singleton.1 hc
      decide
    have hone : Derives .number start ['1'] _ := .number .none (List.cons_ne_nil _ _) hd
    exact ⟨_, .ofNumber hone, fun h => absurd h (Nat.lt_irrefl 0), fun _ _ => rfl⟩
  | succ depth ih =>
    obtain ⟨forest, hv, -, hn⟩ := ih (start + extent ['('])
    have hitems := Derives.items (.item hv) .done blanks_nil
    simp only [List.append_nil] at hitems
    have hl := Derives.list blanks_nil hitems
    rw [← toList_nest] at hl
    refine ⟨_, .ofList hl, fun _ => hl, fun parent index => ?_⟩
    rw [forestNodes_singleton, forestNodes_singleton, List.length_cons, List.length_cons, hn]
    omega

/-! ## Matching a list -/

/-- What comes of matching a list after some characters, with the others left: no match where no
list starts; the one first part that is a list, with its derivation recorded; or the failure of a
mandatory rule if there is none. -/
structure MatchesList (before us : List Char) (tree : TrailTree Label)
    (result : Result (TrailTree Label) Label Mark) : Prop where
  not_list : us.head? ≠ some '(' → Agrees ⟨extent before, tree⟩ result .no
  list : ∀ text rest forest, us = text ++ rest → Derives .list (extent before) text forest →
    (∀ text' rest' forest', us = text' ++ rest' → Derives .list (extent before) text' forest' →
      text' = text ∧ forest' = forest) ∧
    Agrees ⟨extent before, tree⟩ result (.yes (extent (before ++ text)) forest)
  no_list : us.head? = some '(' →
    (∀ text rest forest, us = text ++ rest → ¬ Derives .list (extent before) text forest) →
    ∃ stop, Agrees ⟨extent before, tree⟩ result (.failed (.mandatory ()) stop)

theorem lookup_zero : workspace.registry.lookup 0 = .defined listBody := rfl

/-- A first part that is a list is what is matched. -/
theorem Derives.list_means {before text rest : List Char} {forest : Forest Label}
    (h : Derives .list (extent before) text forest) :
    Means (.ofList (before ++ (text ++ rest))) workspace.registry.lookup listRule (extent before)
      (.yes (extent (before ++ text)) forest) := by
  rw [extent_append]
  exact h.takes lookup_zero trivial (Input.stands_ofList before (text ++ rest))

/-- Of the first parts of the characters left at most one is a list, and with one derivation. -/
theorem Derives.list_unique {before text rest text' rest' : List Char}
    {forest forest' : Forest Label} (hu : text ++ rest = text' ++ rest')
    (h : Derives .list (extent before) text forest)
    (h' : Derives .list (extent before) text' forest') : text' = text ∧ forest' = forest := by
  have hm : Means (.ofList (before ++ (text ++ rest))) _ _ _ _ := h.list_means
  have hm' : Means (.ofList (before ++ (text' ++ rest'))) _ _ _ _ := h'.list_means
  rw [hu] at hm
  have he := hm'.unique hm
  rw [Answer.yes.injEq, extent_append, extent_append] at he
  obtain ⟨he, hf⟩ := he
  exact ⟨(eq_of_extent_eq hu (by omega)).symm, hf⟩

/-- At every place in every input, over every tree. -/
theorem list_matches (before us : List Char) (tree : TrailTree Label) : ∃ result,
    Returns ⟨.ofList (before ++ us), workspace.registry.lookup, .text⟩ listRule
      ⟨extent before, tree⟩ result ∧ MatchesList before us tree result := by
  have hs := Input.stands_ofList before us
  have hv : Verdict (.ofList (before ++ us)) workspace.registry.lookup listRule (extent before) us
      _ _ := list_verdict lookup_zero hs
  obtain ⟨answer, hm⟩ := hv.means
  obtain ⟨result, hr, ha⟩ := returns_agrees ⟨extent before, tree⟩ hm
  refine ⟨result, hr, ?_, ?_, ?_⟩
  · intro hhead
    have hstop : StopsAt (· = '(') us := by
      intro c hc
      refine decide_eq_false ?_
      rintro rfl
      exact hhead hc
    have hno := misses_list lookup_zero hstop hs
    rwa [hm.unique hno] at ha
  · rintro text rest forest rfl h
    refine ⟨fun text' rest' forest' hu h' => h.list_unique hu h', ?_⟩
    rwa [hm.unique h.list_means] at ha
  · intro hhead hnone
    cases hv with
    | found hu hf => exact absurd hf (hnone _ _ _ hu)
    | missed hn => exact absurd hhead hn
    | @broken stop hb =>
      rw [hm.unique hb] at ha
      exact ⟨stop, ha⟩

/-- A text that is a list is matched to its end from its start on. -/
theorem Derives.list_matched {text : String} {forest : Forest Label} (tree : TrailTree Label)
    (h : Derives .list 0 text.toList forest) : ∃ result,
      Returns ⟨.ofString text, workspace.registry.lookup, .text⟩ listRule (.start tree) result ∧
      result.outcome = .matched ∧
      result.cursor.offset = (Input.ofString text).length ∧
      result.cursor.tree.arena.size = tree.arena.size +
        (forestNodes tree.arena.innermost tree.arena.size forest).length := by
  have hs : (Input.ofString text).Stands 0 (text.toList ++ []) :=
    ⟨[], (List.append_nil text.toList).symm, rfl⟩
  have ht : Takes (.ofString text) workspace.registry.lookup listRule 0 text.toList [] forest :=
    h.takes lookup_zero trivial
  obtain ⟨result, hr, ho, hoff, hn, -⟩ := returns_agrees (.start tree) (ht hs)
  refine ⟨result, hr, ho, ?_, ?_⟩
  · rw [hoff, hs.length_eq, List.append_nil]
  · rw [← Arena.length_toList, hn, List.length_append, Arena.length_toList]
    rfl

/-- Matching a list matches exactly the lists and records their derivation: at every place in every
input, over every tree. So flat lists of every length and nested ones of every depth are matched to
their end. -/
theorem list_matches_exactly :
    (∀ (before us : List Char) (tree : TrailTree Label), ∃ result,
      Returns ⟨.ofList (before ++ us), workspace.registry.lookup, .text⟩ listRule
        ⟨extent before, tree⟩ result ∧ MatchesList before us tree result) ∧
    (∀ (length : Nat) (tree : TrailTree Label), ∃ result,
      Returns ⟨.ofString (flat length), workspace.registry.lookup, .text⟩ listRule
        (.start tree) result ∧
      result.outcome = .matched ∧
      result.cursor.offset = (Input.ofString (flat length)).length) ∧
    ∀ (depth : Nat) (tree : TrailTree Label), ∃ result,
      Returns ⟨.ofString (nest (depth + 1)), workspace.registry.lookup, .text⟩ listRule
        (.start tree) result ∧
      result.outcome = .matched ∧
      result.cursor.offset = (Input.ofString (nest (depth + 1))).length ∧
      result.cursor.tree.arena.size = tree.arena.size + (2 * (depth + 1) + 1) := by
  refine ⟨list_matches, fun length tree => ?_, fun depth tree => ?_⟩
  · obtain ⟨forest, h⟩ := derives_flat length 0
    obtain ⟨result, hr, ho, hoff, -⟩ := h.list_matched tree
    exact ⟨result, hr, ho, hoff⟩
  · obtain ⟨forest, -, h, hn⟩ := derives_nest (depth + 1) 0
    obtain ⟨result, hr, ho, hoff, hs⟩ := (h (Nat.succ_pos depth)).list_matched tree
    rw [hn] at hs
    exact ⟨result, hr, ho, hoff, hs⟩

end Peg.Sample
