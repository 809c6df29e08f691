import HkuUtils.IniParser.Model

set_option relaxedAutoImplicit false
set_option autoImplicit false

/-!
# Reading a file, as a function of its lines

What `read` notes and stores, and whether it escapes by an exception of `at`, are functions of what
is on the lines alone: the map that is written to has no part in it. Each function stops at the line
behind which no line is read.

## Main definitions

* `IniParser.errors`, `writesOf`, `escapes` — what is noted and stored, and how the loop ends.
* `IniParser.Reaches` — a line is read with a section in force.
* `IniParser.InError` — a line is in error, or `at` throws on it.

## Main results

* `IniParser.read_eq` — `read` in terms of these functions.
* `IniParser.faultless_iff` — no exception is thrown when no line that is read is in error.
-/

open Search (text)

namespace IniParser

/-- A write to the map of sections. -/
abbrev Write := NestedMap.Write (List UInt8) (List UInt8) (List UInt8)

/-- The errors that are noted, the lines being numbered from `n + 1`. -/
def errors : ℕ → List UInt8 → List Item → ParsingError
  | _, _, [] => []
  | n, sec, i :: is =>
    ((noted sec i).map fun line => (n + 1, line)).toList ++
      match next sec i with
      | none => []
      | some sec => errors (n + 1) sec is

/-- The writes that are done. -/
def writesOf : List UInt8 → List Item → List Write
  | _, [] => []
  | sec, i :: is =>
    stored sec i ++
      match next sec i with
      | none => []
      | some sec => writesOf sec is

/-- `at` throws on a line. -/
def escapes : List UInt8 → List Item → Bool
  | _, [] => false
  | sec, i :: is =>
    i = .hollow ||
      match next sec i with
      | none => false
      | some sec => escapes sec is

/-- What is on the lines of a file. -/
def items (bytes : List UInt8) : List Item := (lines bytes).map classify

variable {sec sec' : List UInt8} {i : Item} {is js : List Item} {n : ℕ}

/-- **The loop, as a function of what is on the lines.**

**Proof sketch.** By induction on the lines. A line with an empty content ends the loop with an
exception, and one after which there is no next section ends it with its errors; otherwise the
errors and the writes of the others follow those of the line. -/
theorem loop_eq (ls : List (List UInt8)) (r : Reader) :
    ∃ r' : Reader,
      loop ls r = (if escapes r.section_ (ls.map classify) then .error r' else .ok r') ∧
      r'.errors = r.errors ++ errors r.lineNo r.section_ (ls.map classify) ∧
      r'.sections = NestedMap.writes (writesOf r.section_ (ls.map classify)) r.sections := by
  induction ls generalizing r with
  | nil => exact ⟨r, by simp [loop, errors, writesOf, escapes]⟩
  | cons line ls ih =>
    rw [loop, iteration_eq, List.map_cons]
    by_cases hhollow : classify line = .hollow
    · rw [if_pos hhollow, hhollow]
      exact ⟨r.after .hollow, by
        simp [errors, writesOf, escapes, noted, stored, next, Reader.after]⟩
    · rw [if_neg hhollow]
      cases hnext : next r.section_ (classify line) with
      | none =>
        exact ⟨r.after (classify line), by
          simp [errors, writesOf, escapes, hhollow, hnext, Reader.after]⟩
      | some sec =>
        obtain ⟨r', hloop, herrors, hsections⟩ := ih (r.after (classify line))
        have hsec : (r.after (classify line)).section_ = sec := by simp [Reader.after, hnext]
        refine ⟨r', ?_, ?_, ?_⟩
        · simp only [Option.isSome_some, if_true, hloop, hsec]
          simp [escapes, hhollow, hnext]
        · rw [herrors, hsec]
          simp [errors, hnext, Reader.after]
        · rw [hsections, hsec]
          simp [writesOf, hnext, Reader.after, NestedMap.writes_append]

/-- **Reading a file that can be opened.**

**Proof sketch.** The loop is `loop_eq`; it raises, or it ends with the errors, and these are
thrown if there are any. -/
theorem read_eq (filename bytes : List UInt8) (m : Sections) :
    read filename (some bytes) m =
      (if escapes [] (items bytes) then .error .outOfRange
        else if errors 0 [] (items bytes) = [] then .ok ()
        else .error (.logicError (errors 0 [] (items bytes))),
      NestedMap.writes (writesOf [] (items bytes)) m) := by
  obtain ⟨r', hloop, herrors, hsections⟩ := loop_eq (lines bytes) ⟨0, [], [], m⟩
  have hitems : (lines bytes).map classify = items bytes := rfl
  simp only [List.nil_append, hitems] at hloop herrors hsections
  by_cases hesc : escapes [] (items bytes) = true
  · rw [if_pos hesc] at hloop
    simp only [read, hloop, hsections, if_pos hesc]
  · rw [if_neg hesc] at hloop
    by_cases h : errors 0 [] (items bytes) = []
    · have hclean : r'.errors = [] := herrors.trans h
      simp only [read, hloop, hsections, if_neg hesc, if_pos h, ParsingError.haveError, hclean]
      rfl
    · have hnoted : (errors 0 [] (items bytes)).haveError = true := by
        simpa [ParsingError.haveError] using h
      simp only [read, hloop, hsections, if_neg hesc, if_neg h, herrors, hnoted, if_true]

/-! ## The lines that are read -/

/-- From the section `sec` on the lines `pre` are read, and behind them a line with the section
`sec'` in force. -/
def Reaches (sec : List UInt8) (pre : List Item) (sec' : List UInt8) : Prop :=
  pre.foldlM next sec = some sec'

/-- Without lines the section stays. -/
lemma reaches_nil : Reaches sec [] sec' ↔ sec = sec' := Option.some_inj

/-- The section behind a first line and the others. -/
lemma reaches_cons {pre : List Item} :
    Reaches sec (i :: pre) sec' ↔ ∃ s, next sec i = some s ∧ Reaches s pre sec' := by
  rw [Reaches, List.foldlM_cons]
  exact Option.bind_eq_some_iff

/-- A line is in error when the section `sec` is in force, or `at` throws on it. -/
def InError (sec : List UInt8) (i : Item) : Prop := i = .hollow ∨ (noted sec i).isSome

instance (sec : List UInt8) (i : Item) : Decidable (InError sec i) :=
  inferInstanceAs (Decidable (i = .hollow ∨ (noted sec i).isSome))

/-- No line that is read from the section `sec` on is in error. -/
def Faultless (sec : List UInt8) (is : List Item) : Prop :=
  errors 0 sec is = [] ∧ escapes sec is = false

/-- Whether lines are in error does not depend on their numbers. -/
lemma errors_eq_nil_iff (n m : ℕ) : errors n sec is = [] ↔ errors m sec is = [] := by
  induction is generalizing n m sec with
  | nil => simp [errors]
  | cons i is ih =>
    simp only [errors, List.append_eq_nil_iff, Option.toList_eq_nil_iff, Option.map_eq_none_iff]
    cases next sec i with
    | none => simp
    | some sec => exact and_congr_right fun _ => ih (n + 1) (m + 1)

/-- A line that is not in error is not the last one read. -/
lemma next_of_not_inError (h : ¬ InError sec i) : (next sec i).isSome := by
  cases i with
  | malformed line | option key value =>
    by_cases hsec : sec = []
    · simp [InError, noted, hsec] at h
    · simp [next, hsec]
  | hollow => simp [InError] at h
  | _ => rfl

/-- A first line and the others without errors. -/
lemma faultless_cons :
    Faultless sec (i :: is) ↔
      ¬ InError sec i ∧ ∀ sec', next sec i = some sec' → Faultless sec' is := by
  unfold Faultless InError
  rw [errors, escapes]
  cases hnext : next sec i with
  | none =>
    simp only [List.append_nil, Option.toList_eq_nil_iff, Option.map_eq_none_iff]
    cases noted sec i <;> simp
  | some sec' =>
    simp only [List.append_eq_nil_iff, Option.toList_eq_nil_iff, Option.map_eq_none_iff,
      errors_eq_nil_iff (0 + 1) 0, Option.some.injEq, forall_eq']
    cases noted sec i <;> simp
    tauto

/-- A reading without errors goes on to the end. -/
lemma Faultless.exists_reaches (h : Faultless sec is) : ∃ sec', Reaches sec is sec' := by
  induction is generalizing sec with
  | nil => exact ⟨sec, rfl⟩
  | cons i is ih =>
    obtain ⟨hi, hrest⟩ := faultless_cons.mp h
    obtain ⟨s, hs⟩ := Option.isSome_iff_exists.mp (next_of_not_inError hi)
    obtain ⟨sec', hsec'⟩ := ih (hrest s hs)
    exact ⟨sec', reaches_cons.mpr ⟨s, hs, hsec'⟩⟩

/-- **No exception is thrown exactly when no line that is read is in error.**

**Proof sketch.** By induction on the lines, with the section in force before each of them. -/
theorem faultless_iff :
    Faultless sec is ↔ ∀ pre i post sec', is = pre ++ i :: post → Reaches sec pre sec' →
      ¬ InError sec' i := by
  induction is generalizing sec with
  | nil => simp [Faultless, errors, escapes]
  | cons i is ih =>
    rw [faultless_cons]
    constructor
    · rintro ⟨hi, hrest⟩ pre j post sec' hpre hsec'
      cases pre with
      | nil =>
        obtain ⟨rfl, rfl⟩ := List.cons.inj hpre
        obtain rfl := reaches_nil.mp hsec'
        exact hi
      | cons k pre =>
        obtain ⟨rfl, rfl⟩ := List.cons.inj hpre
        obtain ⟨sec'', hnext, hrest'⟩ := reaches_cons.mp hsec'
        exact ih.mp (hrest sec'' hnext) pre j post sec' rfl hrest'
    · intro h
      refine ⟨h [] i is sec rfl rfl, fun sec' hnext => ih.mpr ?_⟩
      rintro pre j post sec'' rfl hsec''
      exact h (i :: pre) j post sec'' rfl (reaches_cons.mpr ⟨sec', hnext, hsec''⟩)

/-- `at` throws exactly when a line is read that the comment leaves empty.

**Proof sketch.** By induction on the lines, with the section in force before each of them. -/
theorem escapes_iff :
    escapes sec is = true ↔ ∃ pre post sec', is = pre ++ .hollow :: post ∧
      Reaches sec pre sec' := by
  induction is generalizing sec with
  | nil => simp [escapes]
  | cons i is ih =>
    rw [escapes, Bool.or_eq_true, decide_eq_true_iff]
    constructor
    · rintro (rfl | h)
      · exact ⟨[], is, sec, rfl, rfl⟩
      · cases hnext : next sec i with
        | none => simp [hnext] at h
        | some sec' =>
          rw [hnext] at h
          obtain ⟨pre, post, sec'', rfl, hsec''⟩ := ih.mp h
          exact ⟨i :: pre, post, sec'', rfl, reaches_cons.mpr ⟨sec', hnext, hsec''⟩⟩
    · rintro ⟨pre, post, sec', hpre, hsec'⟩
      cases pre with
      | nil => exact .inl (List.cons.inj hpre).1
      | cons k pre =>
        obtain ⟨rfl, rfl⟩ := List.cons.inj hpre
        obtain ⟨sec'', hnext, hrest⟩ := reaches_cons.mp hsec'
        rw [hnext]
        exact .inr (ih.mpr ⟨pre, post, sec', rfl, hrest⟩)

/-- `read` returns exactly from the files without a line in error. -/
theorem read_ok_iff (filename bytes : List UInt8) (m : Sections) :
    (read filename (some bytes) m).1 = .ok () ↔ Faultless [] (items bytes) := by
  rw [read_eq]
  unfold Faultless
  split_ifs with h1 h2 <;> simp_all

end IniParser
