import Peg.CharClass.Alphabetic
import Peg.CharClass.Numeric

/-
  The character classes that text rules test: ASCII digits, and Unicode letters, letters or
  numbers, and white space. A class is a list of ranges of code points in ascending order, so a
  search may end at the first range that starts past the character (`within_iff`).
-/

namespace Peg.CharClass

/-- Whether a code point lies in one of the ascending ranges. -/
def within (n : Nat) : List (Nat × Nat) → Bool
  | [] => false
  | (lo, hi) :: rest => if n < lo then false else n ≤ hi || within n rest

/-- Whether every range starts no later than the next. -/
def ascending : List (Nat × Nat) → Bool
  | r :: s :: rest => r.1 ≤ s.1 && ascending (s :: rest)
  | _ => true

theorem le_of_ascending {r : Nat × Nat} {rest : List (Nat × Nat)}
    (h : ascending (r :: rest) = true) : ∀ s ∈ rest, r.1 ≤ s.1 := by
  induction rest generalizing r with
  | nil => simp
  | cons s rest ih =>
    intro t ht
    simp only [ascending, Bool.and_eq_true, decide_eq_true_eq] at h
    rcases List.mem_cons.1 ht with rfl | ht
    · exact h.1
    · exact Nat.le_trans h.1 (ih h.2 t ht)

theorem ascending_of_cons {r : Nat × Nat} {rest : List (Nat × Nat)}
    (h : ascending (r :: rest) = true) : ascending rest = true := by
  cases rest with
  | nil => rfl
  | cons s rest => simp only [ascending, Bool.and_eq_true] at h; exact h.2

/-- The search is right on ascending ranges. -/
theorem within_iff {ranges : List (Nat × Nat)} (h : ascending ranges = true) (n : Nat) :
    within n ranges = true ↔ ∃ r ∈ ranges, r.1 ≤ n ∧ n ≤ r.2 := by
  induction ranges with
  | nil => simp [within]
  | cons r rest ih =>
    have ih := ih (ascending_of_cons h)
    unfold within
    split
    · rename_i hlt
      simp only [Bool.false_eq_true, false_iff]
      rintro ⟨s, hs, h1, -⟩
      rcases List.mem_cons.1 hs with rfl | hs
      · omega
      · have := le_of_ascending h s hs; omega
    · rename_i hlt
      rw [Bool.or_eq_true, ih, decide_eq_true_eq]
      constructor
      · rintro (hi | ⟨s, hs, hn⟩)
        · exact ⟨r, List.mem_cons_self, Nat.not_lt.1 hlt, hi⟩
        · exact ⟨s, List.mem_cons_of_mem _ hs, hn⟩
      · rintro ⟨s, hs, hn⟩
        rcases List.mem_cons.1 hs with rfl | hs
        · exact Or.inl hn.2
        · exact Or.inr ⟨s, hs, hn⟩

/-- The characters with the Unicode property White_Space. -/
def blankRanges : List (Nat × Nat) :=
  [(0x9, 0xD), (0x20, 0x20), (0x85, 0x85), (0xA0, 0xA0), (0x1680, 0x1680), (0x2000, 0x200A),
   (0x2028, 0x2029), (0x202F, 0x202F), (0x205F, 0x205F), (0x3000, 0x3000)]

theorem ascending_alphabeticRanges : ascending alphabeticRanges = true := by decide +kernel

theorem ascending_numericRanges : ascending numericRanges = true := by decide +kernel

theorem ascending_blankRanges : ascending blankRanges = true := by decide

def isDigit (c : Char) : Bool := '0' ≤ c && c ≤ '9'

def isUpper (c : Char) : Bool := 'A' ≤ c && c ≤ 'Z'

def isAscii (c : Char) : Bool := c.toNat < 128

def isLetter (c : Char) : Bool := within c.toNat alphabeticRanges

def isAlphaNum (c : Char) : Bool := isLetter c || within c.toNat numericRanges

def isBlank (c : Char) : Bool := within c.toNat blankRanges

/-! ## How the classes lie to each other -/

/-- No range of the one list meets a range of the other. -/
def apart (ranges others : List (Nat × Nat)) : Bool :=
  ranges.all fun r => others.all fun s => r.2 < s.1 || s.2 < r.1

theorem not_within_of_apart {ranges others : List (Nat × Nat)} (hr : ascending ranges = true)
    (ho : ascending others = true) (h : apart ranges others = true) {n : Nat}
    (hn : within n ranges = true) : within n others = false := by
  rw [← Bool.not_eq_true, within_iff ho]
  rintro ⟨s, hs, hs1, hs2⟩
  obtain ⟨r, hm, hr1, hr2⟩ := (within_iff hr n).1 hn
  have hrs := List.all_eq_true.1 (List.all_eq_true.1 h r hm) s hs
  simp only [Bool.or_eq_true, decide_eq_true_eq] at hrs
  omega

theorem isAlphaNum_of_isLetter {c : Char} (h : isLetter c = true) : isAlphaNum c = true := by
  unfold isAlphaNum
  rw [h, Bool.true_or]

theorem isDigit_iff {c : Char} : isDigit c = true ↔ 0x30 ≤ c.toNat ∧ c.toNat ≤ 0x39 := by
  rw [isDigit, Bool.and_eq_true, decide_eq_true_eq, decide_eq_true_eq]
  exact Iff.rfl

theorem isAlphaNum_of_isDigit {c : Char} (h : isDigit c = true) : isAlphaNum c = true := by
  obtain ⟨hlo, hhi⟩ := isDigit_iff.1 h
  rw [isAlphaNum, (within_iff ascending_numericRanges _).2 ⟨_, List.mem_cons_self, hlo, hhi⟩,
    Bool.or_true]

/-- All ASCII digits come before the letters. -/
theorem isLetter_of_isDigit {c : Char} (h : isDigit c = true) : isLetter c = false := by
  obtain ⟨-, hhi⟩ := isDigit_iff.1 h
  rw [isLetter, alphabeticRanges, within, if_pos (by omega)]

theorem isAlphaNum_of_isBlank {c : Char} (h : isBlank c = true) : isAlphaNum c = false := by
  have hl : apart blankRanges alphabeticRanges = true := by decide +kernel
  have hn : apart blankRanges numericRanges = true := by decide +kernel
  rw [isAlphaNum, Bool.or_eq_false_iff]
  exact ⟨not_within_of_apart ascending_blankRanges ascending_alphabeticRanges hl h,
    not_within_of_apart ascending_blankRanges ascending_numericRanges hn h⟩

theorem isBlank_of_isAlphaNum {c : Char} (h : isAlphaNum c = true) : isBlank c = false := by
  rw [← Bool.not_eq_true]
  intro hb
  rw [isAlphaNum_of_isBlank hb] at h
  cases h

end Peg.CharClass
