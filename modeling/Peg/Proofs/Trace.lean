import Peg.Proofs.Course

/-
  Traces: a match goes one course (`goes_unique`), and all matches it is made of went theirs. A
  result that was returned has one course that traces it (`Returns.traced`), over which can be said
  what was tried, where, in which order, and with what result.
-/

namespace Peg.Matching

variable {U L T M : Type} [InputUnit U] [DecidableEq U] [NodeTree T L M] [DecidableEq M]

/-! ## There is one course -/

/-- A task at a cursor goes one course to one result. -/
theorem goes_unique {setting : Setting U L} {task : Task U L M} {cursor : Cursor T}
    {parts parts' : List (Course U L T M)} {result result' : Result T L M}
    (h : Goes setting task cursor parts result) (h' : Goes setting task cursor parts' result') :
    parts = parts' ∧ result = result' := by
  induction h generalizing parts' result' with
  | done h =>
    cases h' with
    | done h' =>
      rw [h] at h'
      cases h'
      exact ⟨rfl, rfl⟩
    | opt he =>
      simp only [atOnce?, step, he, Bool.false_eq_true, if_false] at h
      cases h
    | store hi | ref hi =>
      simp only [atOnce?, step, hi] at h
      cases h
    | _ => cases h
  | seq _ ih | or _ ih | star _ ih | times _ ih | untilPast _ ih | ahead _ ih | notAhead _ ih
  | mandatory _ ih | recover _ ih | counted _ ih =>
    cases h'
    case done h' => cases h'
    case _ h' =>
      obtain ⟨rfl, rfl⟩ := ih h'
      exact ⟨rfl, rfl⟩
  | plusStop _ ho ih =>
    cases h' with
    | done h' => cases h'
    | plusStop h' =>
      obtain ⟨rfl, rfl⟩ := ih h'
      exact ⟨rfl, rfl⟩
    | plusOn h' ho' =>
      obtain ⟨rfl, rfl⟩ := ih h'
      contradiction
  | plusOn _ ho _ ih ihn =>
    cases h' with
    | done h' => cases h'
    | plusStop h' ho' =>
      obtain ⟨rfl, rfl⟩ := ih h'
      contradiction
    | plusOn h' _ hn' =>
      obtain ⟨rfl, rfl⟩ := ih h'
      obtain ⟨rfl, rfl⟩ := ihn hn'
      exact ⟨rfl, rfl⟩
  | opt he _ ih =>
    cases h' with
    | done h' =>
      simp only [atOnce?, step, he, Bool.false_eq_true, if_false] at h'
      cases h'
    | opt _ h' =>
      obtain ⟨rfl, rfl⟩ := ih h'
      exact ⟨rfl, rfl⟩
  | store hi _ ih =>
    cases h' with
    | done h' =>
      simp only [atOnce?, step, hi] at h'
      cases h'
    | store hi' h' =>
      rw [hi] at hi'
      cases hi'
      obtain ⟨rfl, rfl⟩ := ih h'
      exact ⟨rfl, rfl⟩
  | ref hi _ ih =>
    cases h' with
    | done h' =>
      simp only [atOnce?, step, hi] at h'
      cases h'
    | ref hi' h' =>
      rw [hi] at hi'
      cases hi'
      obtain ⟨rfl, rfl⟩ := ih h'
      exact ⟨rfl, rfl⟩
  | eachNil | firstNil =>
    cases h'
    exact ⟨rfl, rfl⟩
  | eachStop _ ho ih | firstStop _ ho ih =>
    cases h'
    case _ h' =>
      obtain ⟨rfl, rfl⟩ := ih h'
      exact ⟨rfl, rfl⟩
    case _ ho' hn' h' =>
      obtain ⟨rfl, rfl⟩ := ih h'
      contradiction
  | eachOn _ ho _ ih ihn | firstOn _ ho _ ih ihn =>
    cases h'
    case _ ho' h' =>
      obtain ⟨rfl, rfl⟩ := ih h'
      contradiction
    case _ ho' hn' h' =>
      obtain ⟨rfl, rfl⟩ := ih h'
      obtain ⟨rfl, rfl⟩ := ihn hn'
      exact ⟨rfl, rfl⟩
  | greedyEnd he =>
    cases h' with
    | greedyEnd => exact ⟨rfl, rfl⟩
    | greedyStop he' | greedyStill he' | greedyOn he' => simp [he] at he'
  | greedyStop he _ ho ih =>
    cases h' with
    | greedyEnd he' => simp [he] at he'
    | greedyStop _ h' =>
      obtain ⟨rfl, rfl⟩ := ih h'
      exact ⟨rfl, rfl⟩
    | greedyStill _ h' ho' | greedyOn _ h' ho' =>
      obtain ⟨rfl, rfl⟩ := ih h'
      contradiction
  | greedyStill he _ ho hp ih =>
    cases h' with
    | greedyEnd he' => simp [he] at he'
    | greedyStop _ h' ho' =>
      obtain ⟨rfl, rfl⟩ := ih h'
      contradiction
    | greedyStill _ h' =>
      obtain ⟨rfl, rfl⟩ := ih h'
      exact ⟨rfl, rfl⟩
    | greedyOn _ h' _ hp' =>
      obtain ⟨rfl, rfl⟩ := ih h'
      simp [hp] at hp'
  | greedyOn he _ ho hp _ ih ihn =>
    cases h' with
    | greedyEnd he' => simp [he] at he'
    | greedyStop _ h' ho' =>
      obtain ⟨rfl, rfl⟩ := ih h'
      contradiction
    | greedyStill _ h' _ hp' =>
      obtain ⟨rfl, rfl⟩ := ih h'
      simp [hp] at hp'
    | greedyOn _ h' _ _ hn' =>
      obtain ⟨rfl, rfl⟩ := ih h'
      obtain ⟨rfl, rfl⟩ := ihn hn'
      exact ⟨rfl, rfl⟩
  | scanStop _ ho ih =>
    cases h' with
    | scanStop h' =>
      obtain ⟨rfl, rfl⟩ := ih h'
      exact ⟨rfl, rfl⟩
    | scanEnd h' ho' | scanOn h' ho' =>
      obtain ⟨rfl, rfl⟩ := ih h'
      contradiction
  | scanEnd _ ho he ih =>
    cases h' with
    | scanStop h' ho' =>
      obtain ⟨rfl, rfl⟩ := ih h'
      contradiction
    | scanEnd h' =>
      obtain ⟨rfl, rfl⟩ := ih h'
      exact ⟨rfl, rfl⟩
    | scanOn h' _ he' =>
      obtain ⟨rfl, rfl⟩ := ih h'
      simp [he] at he'
  | scanOn _ ho he _ ih ihn =>
    cases h' with
    | scanStop h' ho' =>
      obtain ⟨rfl, rfl⟩ := ih h'
      contradiction
    | scanEnd h' _ he' =>
      obtain ⟨rfl, rfl⟩ := ih h'
      simp [he] at he'
    | scanOn h' _ _ hn' =>
      obtain ⟨rfl, rfl⟩ := ih h'
      obtain ⟨rfl, rfl⟩ := ihn hn'
      exact ⟨rfl, rfl⟩

theorem returns_iff_of_goes {setting : Setting U L} {rule : Rule U L} {cursor : Cursor T}
    {parts : List (Course U L T M)} {result last : Result T L M}
    (h : Goes setting (.rule rule) cursor parts last) :
    Returns setting rule cursor result ↔ result = last := by
  rw [returns_iff_goes]
  constructor
  · rintro ⟨parts, hg⟩
    exact (goes_unique hg h).2
  · rintro rfl
    exact ⟨parts, h⟩

/-- What comes of a rule without trying any part is all that it returns. -/
theorem returns_iff_of_atOnce? {setting : Setting U L} {rule : Rule U L} {cursor : Cursor T}
    {result last : Result T L M} (h : atOnce? setting rule cursor = some last) :
    Returns setting rule cursor result ↔ result = last :=
  returns_iff_of_goes (.done h)

/-! ## The matches a match is made of -/

/-- The match went this way. -/
def Course.Happens (setting : Setting U L) (course : Course U L T M) : Prop :=
  Goes setting (.rule course.rule) course.cursor course.parts course.result

omit [InputUnit U] [DecidableEq U] [NodeTree T L M] [DecidableEq M] in
theorem mem_attemptsIn_cons {course attempt : Course U L T M} {courses : List (Course U L T M)} :
    attempt ∈ attemptsIn (course :: courses) ↔
      attempt = course ∨ attempt ∈ attemptsIn course.parts ∨ attempt ∈ attemptsIn courses := by
  rw [attemptsIn, attempts_eq, List.mem_append, List.mem_cons, or_assoc]

/-- One more part brings the part itself and all it is made of. -/
theorem happens_cons {setting : Setting U L} {course : Course U L T M}
    {courses : List (Course U L T M)} (h : course.Happens setting)
    (hp : ∀ attempt ∈ attemptsIn course.parts, attempt.Happens setting)
    (hs : ∀ attempt ∈ attemptsIn courses, attempt.Happens setting) :
    ∀ attempt ∈ attemptsIn (course :: courses), attempt.Happens setting := by
  intro attempt ha
  rcases mem_attemptsIn_cons.1 ha with rfl | ha | ha
  · exact h
  · exact hp attempt ha
  · exact hs attempt ha

theorem goes_attempts_happen {setting : Setting U L} {task : Task U L M} {cursor : Cursor T}
    {parts : List (Course U L T M)} {result : Result T L M}
    (h : Goes setting task cursor parts result) :
    ∀ attempt ∈ attemptsIn parts, attempt.Happens setting := by
  have none : ∀ attempt ∈ attemptsIn ([] : List (Course U L T M)), attempt.Happens setting := by
    intro attempt ha
    rw [attemptsIn] at ha
    cases ha
  induction h with
  | done | eachNil | firstNil | greedyEnd => exact none
  | seq _ ih | or _ ih | star _ ih | times _ ih | untilPast _ ih => exact ih
  | plusStop h _ ih | opt _ h ih | ahead h ih | notAhead h ih | mandatory h ih | recover h ih
  | store _ h ih | ref _ h ih | counted h ih | eachStop h _ ih | firstStop h _ ih
  | greedyStop _ h _ ih | greedyStill _ h _ _ ih | scanStop h _ ih | scanEnd h _ _ ih =>
    exact happens_cons h ih none
  | plusOn h _ _ ih ihn | eachOn h _ _ ih ihn | firstOn h _ _ ih ihn | greedyOn _ h _ _ _ ih ihn
  | scanOn h _ _ _ ih ihn => exact happens_cons h ih ihn

theorem Course.Happens.attempts {setting : Setting U L} {course : Course U L T M}
    (h : course.Happens setting) : ∀ attempt ∈ course.attempts, attempt.Happens setting := by
  intro attempt ha
  rw [attempts_eq] at ha
  rcases List.mem_cons.1 ha with rfl | ha
  · exact h
  · exact goes_attempts_happen h attempt ha

/-- The course is the one that the match of the rule at the cursor went to the result. -/
structure Course.Traces (setting : Setting U L) (rule : Rule U L) (cursor : Cursor T)
    (result : Result T L M) (course : Course U L T M) : Prop where
  happens : course.Happens setting
  rule_eq : course.rule = rule
  cursor_eq : course.cursor = cursor
  result_eq : course.result = result
  unique : ∀ other : Course U L T M, other.Happens setting → other.rule = rule →
    other.cursor = cursor → other = course

theorem Goes.traces {setting : Setting U L} {rule : Rule U L} {cursor : Cursor T}
    {parts : List (Course U L T M)} {result : Result T L M}
    (h : Goes setting (.rule rule) cursor parts result) :
    Course.Traces setting rule cursor result ⟨rule, cursor, parts, result⟩ := by
  refine ⟨h, rfl, rfl, rfl, ?_⟩
  rintro ⟨_, _, parts', result'⟩ h' rfl rfl
  obtain ⟨rfl, rfl⟩ := goes_unique h h'
  rfl

theorem Returns.traced {setting : Setting U L} {rule : Rule U L} {cursor : Cursor T}
    {result : Result T L M} (h : Returns setting rule cursor result) :
    ∃ course, Course.Traces setting rule cursor result course := by
  obtain ⟨parts, h⟩ := returns_iff_goes.1 h
  exact ⟨_, h.traces⟩

end Peg.Matching
