import HkuUtils.Json.Numbers

set_option relaxedAutoImplicit false
set_option autoImplicit false

/-!
# Objects that are written

The text of an object whose members are written one after the other, with a comma and a blank
between them. A member is read if its name has nothing to be escaped and its value is read; a value
that is read only in part, or not at all, spoils the object.

## Main definitions

* `Json.quoted`, `memberText`, `membersText`, `objectText` — the texts.
* `Json.Reads`, `Stuck` — a value is read where a member ends, and is not.
* `Json.ReadsMember` — a member that is read.

## Main results

* `Json.reads_quoted`, `reads_decimalInt`, `reads_general`, `reads_bool` — values that are read.
* `Json.stuck_decimalInt`, `stuck_of_none` — values that are not.
* `Json.isUtf8_membersText_iff` — the members are UTF-8 if their names and values are.
* `Json.document_members` — an object is read as it is written.
* `Json.document_inv` — an object with a value that is stuck, or with a comma behind its last
  member, is not read.
-/

namespace Json

open Search (text)

/-! ## Texts -/

/-- A string between quotes. -/
def quoted (s : List UInt8) : List UInt8 := 34 :: (s ++ [34])

/-- A name and the text of a value. -/
def memberText (w : List UInt8 × List UInt8) : List UInt8 := quoted w.1 ++ 58 :: 32 :: w.2

/-- Members with commas between them. -/
def membersText : List (List UInt8 × List UInt8) → List UInt8
  | [] => []
  | [w] => memberText w
  | w :: w' :: ws => memberText w ++ 44 :: 32 :: membersText (w' :: ws)

/-- A member ends before this text. -/
def Closes (r : List UInt8) : Prop := ∃ t, r = 44 :: t ∨ r = 125 :: t

/-- The text of a value is read. -/
def Reads (v : List UInt8) (x : Value) : Prop :=
  ∀ n r, Closes r → value (n + 1) (32 :: (v ++ r)) = some (x, r)

/-- The text of a value is not read up to its end. -/
def Stuck (v : List UInt8) : Prop :=
  ∀ n r y, Closes r → value n (32 :: (v ++ r)) = some y →
    expect 44 y.2 = none ∧ expect 125 y.2 = none

/-- A member that is read. -/
structure ReadsMember (w : List UInt8 × List UInt8) (m : Member) : Prop where
  clean : Clean w.1
  name : m.1 = w.1
  value : Reads w.2 m.2

/-! ## Blanks and marks -/

/-- A blank is skipped. -/
@[simp]
lemma skip_cons_of_isBlank {c : UInt8} (hc : isBlank c = true) (s : List UInt8) :
    skip (c :: s) = skip s := List.dropWhile_cons_of_pos hc

/-- What is no blank is not skipped. -/
@[simp]
lemma skip_cons_of_not_isBlank {c : UInt8} (hc : isBlank c = false) (s : List UInt8) :
    skip (c :: s) = c :: s := List.dropWhile_cons_of_neg (by simp [hc])

/-- A blank in front of a character that is expected is skipped. -/
lemma expect_blank (c : UInt8) (s : List UInt8) : expect c (32 :: s) = expect c s := by
  rw [expect, skip_cons_of_isBlank rfl, expect]

/-- The character that is expected is there. -/
lemma expect_cons {c : UInt8} (hc : isBlank c = false) (s : List UInt8) :
    expect c (c :: s) = some s := by
  rw [expect, skip_cons_of_not_isBlank hc]
  exact if_pos rfl

/-- Another character is there. -/
lemma expect_cons_of_ne {c d : UInt8} (hd : isBlank d = false) (h : d ≠ c) (s : List UInt8) :
    expect c (d :: s) = none := by
  rw [expect, skip_cons_of_not_isBlank hd]
  exact if_neg h

/-- A blank in front of a value is skipped. -/
lemma value_blank (n : ℕ) (s : List UInt8) : value n (32 :: s) = value n s := by
  cases n with
  | zero => rfl
  | succ n => rw [value, skip_cons_of_isBlank rfl, value]

/-- A value begins with its first character that is no blank. -/
lemma value_cons (n : ℕ) {c : UInt8} (hc : isBlank c = false) (s : List UInt8) :
    value (n + 1) (c :: s) = valueAt (value n) n c s := by
  rw [value, skip_cons_of_not_isBlank hc]

/-- A blank in front of the members is skipped. -/
lemma members_blank (sub : Parser) (n : ℕ) (s : List UInt8) :
    members sub n (32 :: s) = members sub n s := by
  cases n with
  | zero => rfl
  | succ n => rw [members, member, expect_blank, members, member]

/-- No number goes on where a member ends. -/
lemma Closes.endsNumber {r : List UInt8} (h : Closes r) : EndsNumber r := by
  obtain ⟨t, rfl | rfl⟩ := h
  · intro c hc
    obtain rfl := Option.some.inj hc
    decide
  · intro c hc
    obtain rfl := Option.some.inj hc
    decide

/-! ## Values -/

/-- **A clean text is read as it is.** -/
theorem chars_clean {s : List UInt8} (h : Clean s) {n : ℕ} (hn : s.length < n) (r : List UInt8) :
    chars n (s ++ 34 :: r) = some (s, r) := by
  induction s generalizing n with
  | nil =>
    obtain ⟨n, rfl⟩ := Nat.exists_eq_succ_of_ne_zero (Nat.ne_of_gt hn)
    rfl
  | cons c s ih =>
    obtain ⟨n, rfl⟩ := Nat.exists_eq_succ_of_ne_zero (Nat.ne_of_gt (Nat.zero_lt_of_lt hn))
    obtain ⟨hc, hs⟩ := List.forall_mem_cons.mp h
    simp only [isSpecial, Bool.or_eq_false_iff, beq_eq_false_iff_ne, decide_eq_false_iff_not] at hc
    rw [List.cons_append, chars, if_neg hc.1.1, if_neg hc.2, if_neg hc.1.2,
      ih hs (Nat.lt_of_succ_lt_succ hn), Option.map_some]

/-- A text without special characters is read up to the quote behind it. -/
lemma string_clean {s : List UInt8} (h : Clean s) (r : List UInt8) :
    string (s ++ 34 :: r) = some (s, r) := by
  refine chars_clean h ?_ r
  rw [List.length_append]
  omega

/-- A string between quotes. -/
lemma reads_quoted {s : List UInt8} (h : Clean s) : Reads (quoted s) (.string s) := by
  intro n r _
  rw [value_blank, quoted, List.cons_append, value_cons n rfl, valueAt, if_pos rfl,
    List.append_assoc, List.singleton_append, string_clean h, Option.map_some]

/-- What begins with a character of a number is read as a number. -/
lemma value_numeric (n : ℕ) {c : UInt8} (hc : Decimal.isNumeric c = true) (s : List UInt8) :
    value (n + 1) (c :: s) = number (c :: s) := by
  have hother : ∀ c, Decimal.isNumeric c = true → isBlank c = false ∧ c ≠ 34 ∧ c ≠ 123 ∧ c ≠ 91 ∧
      c ≠ 116 ∧ c ≠ 102 ∧ c ≠ 110 := CString.forall_byte (by decide +kernel)
  obtain ⟨hblank, h34, h123, h91, h116, h102, h110⟩ := hother c hc
  rw [value_cons n hblank, valueAt, if_neg h34, if_neg h123, if_neg h91, if_neg h116, if_neg h102,
    if_neg h110]

/-- The same of texts. -/
lemma value_append (n : ℕ) {s : List UInt8} (hne : s ≠ [])
    (hs : ∀ c ∈ s, Decimal.isNumeric c = true) (r : List UInt8) :
    value (n + 1) (32 :: (s ++ r)) = number (s ++ r) := by
  cases s with
  | nil => exact absurd rfl hne
  | cons c s => rw [value_blank, List.cons_append, value_numeric n (hs c List.mem_cons_self)]

/-- Every integer is written with some character. -/
lemma decimalInt_ne_nil (x : ℤ) : decimalInt x ≠ [] := by
  rw [decimalInt]
  split
  · exact List.cons_ne_nil _ _
  · exact Http.decimal_ne_nil _

/-- Integers are written with characters of numbers. -/
lemma isNumeric_decimalInt (x : ℤ) : ∀ c ∈ decimalInt x, Decimal.isNumeric c = true := by
  have hdigit : ∀ n, ∀ c ∈ Http.decimal n, Decimal.isNumeric c = true :=
    fun n c hc => Decimal.isNumeric_of_isDigit (Http.isDigit_of_mem_decimal hc)
  intro c hc
  rw [decimalInt] at hc
  split at hc
  · rcases List.mem_cons.mp hc with rfl | hc
    · rfl
    · exact hdigit _ c hc
  · exact hdigit _ c hc

/-- An integer. -/
lemma reads_decimalInt (x : ℤ) : Reads (decimalInt x) (.number x 0) := by
  intro n r hr
  rw [value_append n (decimalInt_ne_nil x) (isNumeric_decimalInt x),
    number_decimalInt x hr.endsNumber]

/-- A number with six digits. -/
lemma reads_general (q : ℚ) : ∃ m e, Reads (Decimal.general q) (.number m e) := by
  obtain ⟨m, e, hread⟩ := number_general q
  refine ⟨m, e, fun n r hr => ?_⟩
  rw [value_append n (Decimal.general_ne_nil q) (Decimal.isNumeric_general q),
    hread r hr.endsNumber]

/-- A truth value. -/
lemma reads_bool (b : Bool) : Reads (text (if b then "true" else "false")) (.bool b) := by
  intro n r _
  cases b with
  | true => rfl
  | false => rfl

/-- An integer with something behind it. -/
lemma stuck_decimalInt (x : ℤ) {u : List UInt8} (hends : ∀ r, EndsNumber (u ++ r))
    (hu : ∀ r, expect 44 (u ++ r) = none ∧ expect 125 (u ++ r) = none) :
    Stuck (decimalInt x ++ u) := by
  intro n r y _ hy
  cases n with
  | zero => cases hy
  | succ n =>
    rw [List.append_assoc, value_append n (decimalInt_ne_nil x) (isNumeric_decimalInt x),
      number_decimalInt x (hends r)] at hy
    obtain rfl := Option.some.inj hy
    exact hu r

/-- What is not read at all. -/
lemma stuck_of_none {v : List UInt8} (h : ∀ n r, value (n + 1) (v ++ r) = none) : Stuck v := by
  intro n r y _ hy
  rw [value_blank] at hy
  cases n with
  | zero => cases hy
  | succ n =>
    rw [h] at hy
    cases hy

/-! ## Members -/

/-- A member with a clean name is read up to its value. -/
lemma member_text {w : List UInt8 × List UInt8} (hname : Clean w.1) (sub : Parser)
    (r : List UInt8) : member sub (memberText w ++ r) =
      (sub (32 :: (w.2 ++ r))).map fun v => ((w.1, v.1), v.2) := by
  have htext : memberText w ++ r = 34 :: (w.1 ++ 34 :: 58 :: 32 :: (w.2 ++ r)) := by
    simp [memberText, quoted]
  rw [htext, member, expect_cons rfl, Option.bind_some, string_clean hname, Option.bind_some,
    expect_cons rfl, Option.bind_some]

/-- **Members are read as they are written.**

**Proof sketch.** By induction on the members. Behind a value comes a comma, and the next member is
read, or the brace, and the object is closed. -/
theorem members_text {ws : List (List UInt8 × List UInt8)} {ms : List Member}
    (h : List.Forall₂ ReadsMember ws ms) (hne : ws ≠ []) {k : ℕ} (hk : ws.length ≤ k) (n : ℕ)
    (r : List UInt8) :
    members (value (n + 1)) k (membersText ws ++ 125 :: r) = some (ms, r) := by
  induction h generalizing k with
  | nil => exact absurd rfl hne
  | @cons w m ws ms hw hws ih =>
    obtain ⟨k, rfl⟩ := Nat.exists_eq_succ_of_ne_zero (Nat.ne_of_gt (Nat.zero_lt_of_lt hk))
    cases hws with
    | nil =>
      have hvalue := hw.value n (125 :: r) ⟨r, Or.inr rfl⟩
      rw [membersText, members, member_text hw.clean, hvalue, Option.map_some, Option.bind_some]
      simp only [expect_cons_of_ne (c := 44) (d := 125) rfl (by decide), expect_cons (c := 125) rfl]
      rw [Option.map_some, ← hw.name]
    | @cons w' m' ws ms hw' hws =>
      have hvalue := hw.value n (44 :: 32 :: (membersText (w' :: ws) ++ 125 :: r)) ⟨_, Or.inl rfl⟩
      have hrest := ih (List.cons_ne_nil _ _) (Nat.le_of_succ_le_succ hk)
      rw [membersText, members, List.append_assoc, List.cons_append, List.cons_append,
        member_text hw.clean, hvalue, Option.map_some, Option.bind_some]
      simp only [expect_cons (c := 44) rfl]
      rw [members_blank, hrest, Option.map_some, ← hw.name]

/-- A member with a comma or a brace behind it has been read up to its end.

**Proof sketch.** A value on which the reader is stuck leaves something in front of the comma or
the brace; the others are read up to their end. -/
lemma member_inv {w : List UInt8 × List UInt8} (hname : Clean w.1)
    (hvalue : Stuck w.2 ∨ ∃ x, Reads w.2 x) {n : ℕ} {r : List UInt8} (hr : Closes r)
    {m : Member × List UInt8} (h : member (value n) (memberText w ++ r) = some m)
    (hends : expect 44 m.2 ≠ none ∨ expect 125 m.2 ≠ none) : ¬ Stuck w.2 ∧ m.2 = r := by
  rw [member_text hname] at h
  obtain ⟨v, hv, rfl⟩ := Option.map_eq_some_iff.mp h
  have hstuck : ¬ Stuck w.2 := by
    intro hstuck
    obtain ⟨hcomma, hbrace⟩ := hstuck n r v hr hv
    rcases hends with hends | hends
    · exact hends hcomma
    · exact hends hbrace
  refine ⟨hstuck, ?_⟩
  obtain ⟨x, hread⟩ := hvalue.resolve_left hstuck
  cases n with
  | zero => cases hv
  | succ n =>
    rw [hread n r hr] at hv
    obtain rfl := Option.some.inj hv
    rfl

/-- **What spoils an object**: a value that is not read up to its end. And behind a comma there are
more members.

**Proof sketch.** By induction on the members: each of them has been read up to its end, since there
is a comma or a brace behind it. -/
theorem members_inv {ws : List (List UInt8 × List UInt8)}
    (hws : ∀ w ∈ ws, Clean w.1 ∧ (Stuck w.2 ∨ ∃ x, Reads w.2 x)) (hne : ws ≠ []) {n k : ℕ}
    {r : List UInt8} (hr : Closes r) {y : List Member × List UInt8}
    (h : members (value n) k (membersText ws ++ r) = some y) :
    (∀ w ∈ ws, ¬ Stuck w.2) ∧ ∀ t, r = 44 :: t → ∃ k z, members (value n) k t = some z := by
  induction ws generalizing k y with
  | nil => exact absurd rfl hne
  | cons w ws ih =>
    obtain ⟨⟨hname, hvalue⟩, hws⟩ := List.forall_mem_cons.mp hws
    cases k with
    | zero => cases h
    | succ k =>
      obtain ⟨m, hm, hafter⟩ := Option.bind_eq_some_iff.mp h
      have hends : expect 44 m.2 ≠ none ∨ expect 125 m.2 ≠ none := by
        split at hafter
        next t ht => exact Or.inl (by simp [ht])
        next =>
          obtain ⟨t, ht, -⟩ := Option.map_eq_some_iff.mp hafter
          exact Or.inr (by simp [ht])
      cases ws with
      | nil =>
        obtain ⟨hstuck, hrest⟩ := member_inv hname hvalue hr hm hends
        refine ⟨by simpa using hstuck, ?_⟩
        rintro t rfl
        simp only [hrest, expect_cons (c := 44) rfl] at hafter
        obtain ⟨z, hz, -⟩ := Option.map_eq_some_iff.mp hafter
        exact ⟨k, z, hz⟩
      | cons w' ws =>
        rw [membersText, List.append_assoc] at hm
        obtain ⟨hstuck, hrest⟩ := member_inv hname hvalue ⟨_, Or.inl rfl⟩ hm hends
        have hcomma : expect 44 m.2 = some (32 :: (membersText (w' :: ws) ++ r)) := by
          rw [hrest]
          exact expect_cons rfl _
        simp only [hcomma] at hafter
        obtain ⟨z, hz, -⟩ := Option.map_eq_some_iff.mp hafter
        rw [members_blank] at hz
        obtain ⟨hstucks, hmore⟩ := ih hws (List.cons_ne_nil _ _) hz
        exact ⟨List.forall_mem_cons.mpr ⟨hstuck, hstucks⟩, hmore⟩

/-! ## The encoding -/

/-- A string between quotes. -/
lemma isUtf8_quoted_iff (s : List UInt8) : IsUtf8 (quoted s) ↔ IsUtf8 s := by
  rw [quoted, isUtf8_cons_iff (by decide), isUtf8_append_cons_iff (by decide)]
  exact and_iff_left ⟨[], rfl⟩

/-- A member. -/
lemma isUtf8_memberText_iff (w : List UInt8 × List UInt8) :
    IsUtf8 (memberText w) ↔ IsUtf8 w.1 ∧ IsUtf8 w.2 := by
  rw [memberText, isUtf8_append_cons_iff (by decide), isUtf8_quoted_iff,
    isUtf8_cons_iff (by decide)]

/-- **The members are UTF-8** exactly if all names and values are: the marks between them are bytes
below 128. -/
theorem isUtf8_membersText_iff (ws : List (List UInt8 × List UInt8)) :
    IsUtf8 (membersText ws) ↔ ∀ w ∈ ws, IsUtf8 w.1 ∧ IsUtf8 w.2 := by
  induction ws with
  | nil => exact iff_of_true ⟨[], rfl⟩ (List.forall_mem_nil _)
  | cons w ws ih =>
    rw [List.forall_mem_cons]
    cases ws with
    | nil =>
      rw [membersText, isUtf8_memberText_iff]
      exact (and_iff_left (List.forall_mem_nil _)).symm
    | cons w' ws =>
      rw [membersText, isUtf8_append_cons_iff (by decide), isUtf8_memberText_iff,
        isUtf8_cons_iff (by decide), ih]

/-! ## Objects -/

/-- The text of an object. -/
def objectText (ws : List (List UInt8 × List UInt8)) : List UInt8 :=
  123 :: (membersText ws ++ [125])

/-- An object is UTF-8 if its members are. -/
lemma isUtf8_objectText_iff (ws : List (List UInt8 × List UInt8)) :
    IsUtf8 (objectText ws) ↔ ∀ w ∈ ws, IsUtf8 w.1 ∧ IsUtf8 w.2 := by
  rw [objectText, isUtf8_cons_iff (by decide), isUtf8_append_cons_iff (by decide),
    isUtf8_membersText_iff]
  exact and_iff_left ⟨[], rfl⟩

/-- The members of an object are behind its brace. -/
lemma document_brace (s : List UInt8) : document (123 :: s) =
    (object (value (s.length + 1)) (s.length + 1) s).bind fun r =>
      if skip r.2 = [] then some (.object r.1) else none := by
  rw [document, List.length_cons, value_cons _ rfl, valueAt, if_neg (by decide), if_pos rfl,
    Option.bind_map]
  rfl

/-- A member begins with a quote. -/
lemma object_members (sub : Parser) (n : ℕ) {ws : List (List UInt8 × List UInt8)} (hne : ws ≠ [])
    (r : List UInt8) :
    object sub n (membersText ws ++ r) = members sub n (membersText ws ++ r) := by
  have hquote : ∃ t, membersText ws = 34 :: t := by
    match ws, hne with
    | [w], _ => exact ⟨_, rfl⟩
    | w :: w' :: ws, _ => exact ⟨_, rfl⟩
  obtain ⟨t, ht⟩ := hquote
  simp only [object, ht, List.cons_append,
    expect_cons_of_ne (c := 125) (d := 34) rfl (by decide)]

/-- There are not more members than characters. -/
lemma length_le_membersText (ws : List (List UInt8 × List UInt8)) :
    ws.length ≤ (membersText ws).length := by
  match ws with
  | [] => exact Nat.le_refl 0
  | [w] => simp [membersText, memberText, quoted]
  | w :: w' :: ws =>
    have ih := length_le_membersText (w' :: ws)
    simp only [membersText, List.length_append, List.length_cons] at ih ⊢
    omega

/-- **An object is read as it is written.** -/
theorem document_members {ws : List (List UInt8 × List UInt8)} {ms : List Member}
    (h : List.Forall₂ ReadsMember ws ms) : document (objectText ws) = some (.object ms) := by
  rw [objectText, document_brace]
  cases h with
  | nil => rfl
  | @cons w m ws ms hw hws =>
    have hlength := length_le_membersText (w :: ws)
    rw [object_members _ _ (List.cons_ne_nil w ws),
      members_text (.cons hw hws) (List.cons_ne_nil w ws) (by simp at hlength ⊢; omega),
      Option.bind_some, if_pos (by rfl)]

/-- **What spoils the text of an object.** -/
theorem document_inv {ws : List (List UInt8 × List UInt8)}
    (hws : ∀ w ∈ ws, Clean w.1 ∧ (Stuck w.2 ∨ ∃ x, Reads w.2 x)) (hne : ws ≠ []) {r : List UInt8}
    (hr : Closes r) {y : Value} (h : document (123 :: (membersText ws ++ r)) = some y) :
    (∀ w ∈ ws, ¬ Stuck w.2) ∧ r ≠ text ", \x7d" := by
  rw [document_brace, object_members _ _ hne] at h
  obtain ⟨z, hz, -⟩ := Option.bind_eq_some_iff.mp h
  obtain ⟨hstuck, hmore⟩ := members_inv hws hne hr hz
  refine ⟨hstuck, ?_⟩
  rintro rfl
  obtain ⟨k, z, hz⟩ := hmore [32, 125] rfl
  cases k with
  | zero => cases hz
  | succ k => cases hz

/-- The members of an object weigh what their names and values weigh. -/
lemma weight_membersText (ws : List (List UInt8 × List UInt8)) :
    weight (membersText ws) = (ws.map fun w => weight w.1 + weight w.2).sum := by
  have hmember : ∀ w, weight (memberText w) = weight w.1 + weight w.2 := by
    intro w
    simp [memberText, quoted, heavy, weight]
  induction ws with
  | nil => rfl
  | cons w ws ih =>
    cases ws with
    | nil => simp [membersText, hmember]
    | cons w' ws =>
      rw [membersText, weight_append, hmember, weight_cons, weight_cons, ih]
      simp [heavy]

end Json
