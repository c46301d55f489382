import Peg.Proofs.Trace
import Peg.Proofs.WellNested

/-
  Spelling: given units match exactly where the units left start with them, and a literal exactly
  where the bytes left start with its bytes. That is the same since the encoding of one text is
  never cut short by that of another. Whatever was gone past before a difference is gone back over,
  so a row of single units comes to the same (`given_units_match_prefixes`).
-/

namespace Peg

/-! ## The units left -/

namespace Input

variable {U : Type} [InputUnit U] {input : Input U} {offset : Nat} {us rest : List U}

/-- The units from a boundary up to the end of input; none from elsewhere. -/
def left (input : Input U) (offset : Nat) : List U := (input.slice? offset input.length).getD []

theorem Stands.left_eq (h : input.Stands offset us) : input.left offset = us := by
  have hs : input.Stands offset (us ++ []) := by rwa [List.append_nil]
  rw [left, h.length_eq, hs.slice?, Option.getD_some]

theorem left_of_not_boundary (h : input.isBoundary offset = false) : input.left offset = [] := by
  have hn : input.slice? offset input.length = none := by
    rw [slice?, h, Bool.and_false, Bool.false_and]
    rfl
  rw [left, hn, Option.getD_none]

theorem stands_left (h : input.isBoundary offset = true) :
    input.Stands offset (input.left offset) := by
  obtain ⟨before, after, hu, hx⟩ := (input.isBoundary_iff offset).1 h
  have hs : input.Stands offset after := ⟨before, hu, hx⟩
  rwa [hs.left_eq]

theorem Stands.spells_iff (h : input.Stands offset rest) :
    input.Spells us offset ↔ us <+: rest := by
  induction us generalizing offset rest with
  | nil => exact iff_of_true trivial (List.nil_prefix)
  | cons u us ih =>
    unfold Spells
    cases rest with
    | nil => simp [h.unitAt?_nil]
    | cons v rest =>
      rw [h.unitAt?_cons, List.cons_prefix_cons, Option.some.injEq, eq_comm]
      refine and_congr_right ?_
      rintro rfl
      exact ih h.tail

/-- Units are spelled out from an offset exactly if the units left start with them. -/
theorem spells_iff : input.Spells us offset ↔ us <+: input.left offset := by
  cases hb : input.isBoundary offset with
  | true => exact (stands_left hb).spells_iff
  | false =>
    rw [left_of_not_boundary hb, List.prefix_nil]
    cases us with
    | nil => exact iff_of_true trivial rfl
    | cons u us =>
      have hn : input.unitAt? offset ≠ some u := by
        intro hu
        rw [isBoundary, hu, Option.isSome_some, Bool.or_true] at hb
        cases hb
      exact iff_of_false (fun h => hn h.1) (List.cons_ne_nil u us)

end Input

/-! ## Bytes of text -/

/-- The UTF-8 encoding. -/
def bytesOf (s : String) : List UInt8 := s.toByteArray.data.toList

/-- The bytes that offsets in a text are counted in. -/
def Input.bytes (input : Input Char) : List UInt8 := bytesOf (.ofList input.units)

theorem bytesOf_ofList (us : List Char) :
    bytesOf (.ofList us) = us.flatMap String.utf8EncodeChar := by
  unfold bytesOf
  rw [String.toByteArray_ofList]
  exact List.toList_data_toByteArray

theorem length_bytesOf (us : List Char) : (bytesOf (.ofList us)).length = extent us := by
  rw [bytesOf_ofList]
  induction us with
  | nil => rfl
  | cons u us ih =>
    rw [List.flatMap_cons, List.length_append, String.length_utf8EncodeChar, ih]
    rfl

/-- Characters can be told from the bytes as they come. -/
theorem bytesOf_prefix_iff {us vs : List Char} :
    bytesOf (.ofList us) <+: bytesOf (.ofList vs) ↔ us <+: vs := by
  rw [bytesOf_ofList, bytesOf_ofList]
  constructor
  · rintro ⟨tail, h⟩
    refine List.isPrefix_of_utf8Encode_append_eq_utf8Encode tail.toByteArray ?_
    unfold List.utf8Encode
    rw [← List.toByteArray_append, h]
  · rintro ⟨tail, rfl⟩
    rw [List.flatMap_append]
    exact List.prefix_append _ _

theorem Input.Stands.drop_bytes {input : Input Char} {offset : Nat} {rest : List Char}
    (h : input.Stands offset rest) : input.bytes.drop offset = bytesOf (.ofList rest) := by
  obtain ⟨before, hu, rfl⟩ := h
  rw [Input.bytes, hu, ← length_bytesOf, bytesOf_ofList, bytesOf_ofList, bytesOf_ofList,
    List.flatMap_append, List.drop_left]

theorem bytes_prefix_iff {input : Input Char} {offset : Nat}
    (hb : input.isBoundary offset = true) (s : String) :
    bytesOf s <+: input.bytes.drop offset ↔ s.toList <+: input.left offset := by
  rw [(Input.stands_left hb).drop_bytes, ← bytesOf_prefix_iff, String.ofList_toList]

theorem extent_toList (s : String) : extent s.toList = s.utf8ByteSize := by
  rw [← length_bytesOf, String.ofList_toList]
  exact String.size_toByteArray

/-! ## Matching given units -/

namespace Matching

section

variable {U L T M : Type} [InputUnit U] [DecidableEq U] [NodeTree T L M] [DecidableEq M]

/-- The rule matches at the cursor exactly if the condition holds, and then goes past so many
offsets; else it goes back to where it started. It records nothing and always returns. -/
structure MatchesIff (setting : Setting U L) (rule : Rule U L) (cursor : Cursor T)
    (condition : Prop) (width : Nat) : Prop where
  matched : condition → ∀ result, Returns setting rule cursor result ↔
    result = ⟨.matched, ⟨cursor.offset + width, cursor.tree⟩, []⟩
  unmatched : ¬ condition → ∀ result, Returns setting rule cursor result ↔
    result = ⟨.unmatched, cursor.moveTo cursor.position, []⟩

variable {setting : Setting U L} {rule rule' : Rule U L} {cursor : Cursor T} {p q : Prop}
  {width : Nat} {us : List U}

theorem MatchesIff.congr (h : MatchesIff setting rule cursor p width) (hpq : q ↔ p) :
    MatchesIff setting rule cursor q width :=
  ⟨fun hq => h.matched (hpq.1 hq), fun hq => h.unmatched (mt hpq.2 hq)⟩

theorem MatchesIff.returns_iff (h : MatchesIff setting rule cursor p width)
    (h' : MatchesIff setting rule' cursor p width) (result : Result T L M) :
    Returns setting rule cursor result ↔ Returns setting rule' cursor result := by
  by_cases hp : p
  · rw [h.matched hp, h'.matched hp]
  · rw [h.unmatched hp, h'.unmatched hp]

theorem matchesIff_units (setting : Setting U L) (us : List U) (cursor : Cursor T) :
    MatchesIff setting (.units us) cursor (setting.input.Spells us cursor.offset) (extent us) where
  matched hs result := by
    have ht := (Cursor.takeAll?_eq_some_iff setting.input).2 ⟨hs, rfl⟩
    refine returns_iff_of_atOnce? ?_
    simp only [atOnce?, step, ht]
  unmatched hs result := by
    have ht : cursor.takeAll? setting.input us = none := by
      refine Option.eq_none_iff_forall_not_mem.2 fun next hn => hs ?_
      exact ((Cursor.takeAll?_eq_some_iff setting.input).1 hn).1
    refine returns_iff_of_atOnce? ?_
    simp only [atOnce?, step, ht]

/-- How single units are matched in a row: up to the first that differs, if there is one. -/
theorem each_goes (setting : Setting U L) (us : List U) (cursor : Cursor T) :
    ∃ parts result, Goes setting (.each (us.map .is)) cursor parts result ∧ result.events = [] ∧
      result.cursor.tree = cursor.tree ∧
      (setting.input.Spells us cursor.offset ∧ result.outcome = .matched ∧
          result.cursor.offset = cursor.offset + extent us ∨
        ¬ setting.input.Spells us cursor.offset ∧ result.outcome = .unmatched) := by
  induction us generalizing cursor with
  | nil => exact ⟨_, _, .eachNil, rfl, rfl, .inl ⟨trivial, rfl, rfl⟩⟩
  | cons u us ih =>
    cases ht : cursor.take? setting.input (· = u) with
    | none =>
      have hg : Goes setting (.rule (.is u)) cursor [] (⟨.unmatched, cursor, []⟩ : Result T L M) :=
        .done (by simp only [Rule.is, atOnce?, step, ht])
      have ho : (⟨.unmatched, cursor, []⟩ : Result T L M).outcome ≠ .matched := by simp
      refine ⟨_, _, .eachStop hg ho, rfl, rfl, .inr ⟨fun hs => ?_, rfl⟩⟩
      have hn := (Cursor.take?_eq_some_iff (p := (· = u)) setting.input).2 ⟨u, hs.1, by simp, rfl⟩
      rw [ht] at hn
      cases hn
    | some next =>
      have hg : Goes setting (.rule (.is u)) cursor [] (⟨.matched, next, []⟩ : Result T L M) :=
        .done (by simp only [Rule.is, atOnce?, step, ht])
      obtain ⟨v, hv, hvu, rfl⟩ := (Cursor.take?_eq_some_iff setting.input).1 ht
      obtain rfl : v = u := of_decide_eq_true hvu
      obtain ⟨parts, result, hn, he, htree, hend⟩ :=
        ih ⟨cursor.offset + InputUnit.width v, cursor.tree⟩
      refine ⟨_, _, .eachOn hg rfl hn, he, htree, ?_⟩
      rcases hend with ⟨hs, ho, hoff⟩ | ⟨hs, ho⟩
      · exact .inl ⟨⟨hv, hs⟩, ho, hoff.trans (Nat.add_assoc _ _ _)⟩
      · exact .inr ⟨fun h => hs h.2, ho⟩

/-- Single units in a row are matched as they are when they are given all at once. -/
theorem matchesIff_seq (setting : Setting U L) (us : List U) (cursor : Cursor T) :
    MatchesIff setting (.seq (us.map .is)) cursor (setting.input.Spells us cursor.offset)
      (extent us) := by
  obtain ⟨parts, ⟨outcome, ⟨offset, tree⟩, events⟩, hg, rfl, rfl, hend⟩ :=
    each_goes setting us cursor
  refine ⟨fun hs result => ?_, fun hs result => ?_⟩
  · obtain ⟨-, rfl, rfl⟩ := hend.resolve_right fun h => h.1 hs
    exact returns_iff_of_goes (.seq hg)
  · obtain ⟨-, rfl⟩ := hend.resolve_left fun h => hs h.1
    exact returns_iff_of_goes (.seq hg)

end

/-! ## Going back to where one is -/

section

variable {L : Type} [DecidableEq L]

theorem moveTo_here {S : Type} [Slots S L] {cursor : Cursor (Arena S)}
    (h : Slots.truncate cursor.tree.slots (Slots.size cursor.tree.slots) = cursor.tree.slots) :
    cursor.moveTo cursor.position = cursor := by
  obtain ⟨offset, slots, innermost⟩ := cursor
  exact congrArg (fun slots => (⟨offset, slots, innermost⟩ : Cursor (Arena S))) h

omit [DecidableEq L] in
theorem shrink_size (nodes : Array (Node L)) : nodes.shrink nodes.size = nodes := by
  refine Array.toList_inj.1 ?_
  rw [Array.toList_shrink, ← Array.length_toList, List.take_length]

theorem moveTo_here_array (cursor : Cursor (ArrayTree L)) :
    cursor.moveTo cursor.position = cursor :=
  moveTo_here (shrink_size cursor.tree.slots)

theorem moveTo_here_row (cursor : Cursor (RowTree L)) : cursor.moveTo cursor.position = cursor :=
  moveTo_here (if_neg (Nat.lt_irrefl cursor.tree.slots.used))

theorem moveTo_here_trail (cursor : Cursor (TrailTree L)) :
    cursor.moveTo cursor.position = ⟨cursor.offset, cursor.tree.arena, []⟩ := by
  have ha : cursor.tree.arena.rewind cursor.tree.arena.mark = cursor.tree.arena :=
    congrArg Cursor.tree (moveTo_here_array ⟨cursor.offset, cursor.tree.arena⟩)
  exact congrArg (fun arena => (⟨cursor.offset, ⟨arena, []⟩⟩ : Cursor (TrailTree L))) ha

end

/-- A literal matches between characters exactly if its bytes come next, and given units anywhere
exactly if the units left start with them; a row of single units comes to the same. What did not
match whole is gone back over, and then all is as it was, except that a trail is cleared. -/
theorem given_units_match_prefixes {U L : Type} [InputUnit U] [DecidableEq U] [DecidableEq L] :
    (∀ (T M : Type) [NodeTree T L M] [DecidableEq M] (setting : Setting Char L) (s : String)
      (cursor : Cursor T), setting.input.isBoundary cursor.offset = true →
        MatchesIff setting (.literal s) cursor
          (bytesOf s <+: setting.input.bytes.drop cursor.offset) s.utf8ByteSize) ∧
    (∀ (T M : Type) [NodeTree T L M] [DecidableEq M] (setting : Setting U L) (us : List U)
      (cursor : Cursor T),
        MatchesIff setting (.units us) cursor (us <+: setting.input.left cursor.offset)
          (extent us) ∧
        ∀ result, Returns setting (.seq (us.map .is)) cursor result ↔
          Returns setting (.units us) cursor result) ∧
    (∀ (T M : Type) [NodeTree T L M] [DecidableEq M] (setting : Setting Char L) (s : String)
      (cursor : Cursor T) (result : Result T L M),
        (Returns setting (.literal s) cursor result ↔
          Returns setting (.units s.toList) cursor result) ∧
        (Returns setting (.literal s) cursor result ↔
          Returns setting (.seq (s.toList.map .is)) cursor result)) ∧
    (∀ cursor : Cursor (ArrayTree L), cursor.moveTo cursor.position = cursor) ∧
    (∀ cursor : Cursor (RowTree L), cursor.moveTo cursor.position = cursor) ∧
    (∀ cursor : Cursor (DepthTree L), cursor.moveTo cursor.position = cursor) ∧
    ∀ cursor : Cursor (TrailTree L),
      cursor.moveTo cursor.position = ⟨cursor.offset, cursor.tree.arena, []⟩ := by
  refine ⟨?_, ?_, ?_, moveTo_here_array, moveTo_here_row, fun _ => rfl, moveTo_here_trail⟩
  · intro T M _ _ setting s cursor hb
    rw [← extent_toList]
    exact (matchesIff_units setting s.toList cursor).congr
      ((bytes_prefix_iff hb s).trans Input.spells_iff.symm)
  · intro T M _ _ setting us cursor
    have hu := matchesIff_units setting us cursor
    exact ⟨hu.congr Input.spells_iff.symm, (matchesIff_seq setting us cursor).returns_iff hu⟩
  · intro T M _ _ setting s cursor result
    have hu := matchesIff_units setting s.toList cursor
    exact ⟨Iff.rfl, hu.returns_iff (matchesIff_seq setting s.toList cursor) result⟩

/-- Where two characters of three bytes match, the third of another literal does not, and all three
bytes are gone back over. -/
theorem given_units_match_prefixes_partial :
    let setting : Setting Char Sample.Label := ⟨.ofString "aé1", fun _ => .undefined, .text⟩
    let cursor : Cursor (TrailTree Sample.Label) := ⟨0, .empty⟩
    setting.input.isBoundary cursor.offset = true ∧
    bytesOf "aé" <+: setting.input.bytes.drop cursor.offset ∧
    Returns setting (.literal "aé") cursor ⟨.matched, ⟨3, .empty⟩, []⟩ ∧
    ¬ bytesOf "aéx" <+: setting.input.bytes.drop cursor.offset ∧
    Returns setting (.literal "aéx") cursor ⟨.unmatched, cursor, []⟩ ∧
    Returns setting (.seq ("aéx".toList.map .is)) cursor ⟨.unmatched, cursor, []⟩ := by
  intro setting cursor
  have hb : setting.input.isBoundary cursor.offset = true := by decide +kernel
  have hp : bytesOf "aé" <+: setting.input.bytes.drop cursor.offset := by decide +kernel
  have hn : ¬ bytesOf "aéx" <+: setting.input.bytes.drop cursor.offset := by decide +kernel
  obtain ⟨hliteral, -, hsame, -, -, -, hhere⟩ :=
    given_units_match_prefixes (U := Char) (L := Sample.Label)
  have hx := ((hliteral _ _ setting "aéx" cursor hb).unmatched hn _).2 rfl
  rw [hhere cursor] at hx
  exact ⟨hb, hp, ((hliteral _ _ setting "aé" cursor hb).matched hp _).2 rfl, hn, hx,
    (hsame _ _ setting "aéx" cursor _).2.1 hx⟩

end Matching

end Peg
