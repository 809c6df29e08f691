import HkuUtils.Datetime.Encodings
import HkuUtils.Datetime.TimeDelta

set_option relaxedAutoImplicit false
set_option autoImplicit false

/-!
# Time differences from their components

The constructor of `TimeDelta` from six components, which are checked one by one so that their sum
cannot overflow, and the components that the accessors return.

## Main definitions

* `HkuUtils.TimeDelta.Fault` — the exceptions, and the overflow of an `int64_t`.
* `HkuUtils.TimeDelta.new` — the constructor.
* `HkuUtils.TimeDelta.Documented` — the components that it accepts.

## Main results

* `HkuUtils.TimeDelta.new_eq` — what the constructor does.
* `HkuUtils.TimeDelta.normal_form` — it never overflows, and the accessors give the sum back.
-/

namespace HkuUtils.TimeDelta

open Datetime (ticksPerDay timeDuration IsDelta)

/-- How a constructor fails. -/
inductive Fault where
  /-- A check of a range fails. -/
  | outOfRange (what : String)
  /-- The behaviour of the program is undefined. -/
  | overflow
  deriving DecidableEq, Repr

/-- The result of an operation on `int64_t`. -/
def int64 (x : ℤ) : Except Fault ℤ := if -2 ^ 63 ≤ x ∧ x < 2 ^ 63 then .ok x else .error .overflow

/-- `HKU_CHECK`. -/
def check (c : Bool) (what : String) : Except Fault Unit :=
  if c then .ok () else .error (.outOfRange what)

/-- The constructor from days, hours, minutes, seconds, milliseconds and microseconds.

Every component is checked by itself, and then the sum is built up in `int64_t`, whose overflow
would be undefined. -/
def new (days hours minutes seconds milliseconds microseconds : ℤ) : Except Fault TimeDelta := do
  check (days ≤ 99999999 ∧ -99999999 ≤ days) "Out of range! Input days: \x7b\x7d"
  check (-100000 ≤ hours ∧ hours ≤ 100000) "Out of range! Input hours: \x7b\x7d"
  check (-100000 ≤ minutes ∧ minutes ≤ 100000) "Out of range! Input minutes: \x7b\x7d"
  check (-8639900 ≤ seconds ∧ seconds ≤ 8639900) "Out of range! Input seconds: \x7b\x7d"
  check (-86399000000 ≤ milliseconds ∧ milliseconds ≤ 86399000000)
    "Out of range! Input milliseconds: \x7b\x7d"
  check (-86399000000 ≤ microseconds ∧ microseconds ≤ 86399000000)
    "Out of range! Input microseconds: \x7b\x7d"
  let total ← int64 (days * 24)
  let total ← int64 (total + hours)
  let total ← int64 (total * 60)
  let total ← int64 (total + minutes)
  let total ← int64 (total * 60)
  let total ← int64 (total + seconds)
  let total ← int64 (total * 1000)
  let total ← int64 (total + milliseconds)
  let total ← int64 (total * 1000)
  let total ← int64 (total + microseconds)
  check (-99999999 * ticksPerDay ≤ total ∧ total ≤ 100000000 * ticksPerDay - 1)
    "Out of total range!"
  return timeDuration 0 0 0 total

/-- Each component is in its documented range. -/
structure Documented (days hours minutes seconds milliseconds microseconds : ℤ) : Prop where
  days : -99999999 ≤ days ∧ days ≤ 99999999
  hours : -100000 ≤ hours ∧ hours ≤ 100000
  minutes : -100000 ≤ minutes ∧ minutes ≤ 100000
  seconds : -8639900 ≤ seconds ∧ seconds ≤ 8639900
  milliseconds : -86399000000 ≤ milliseconds ∧ milliseconds ≤ 86399000000
  microseconds : -86399000000 ≤ microseconds ∧ microseconds ≤ 86399000000

/-- The sum of six components, in microseconds. -/
def total (days hours minutes seconds milliseconds microseconds : ℤ) : ℤ :=
  ((((days * 24 + hours) * 60 + minutes) * 60 + seconds) * 1000 + milliseconds) * 1000 +
    microseconds

instance (x : ℤ) : Decidable (IsDelta x) := inferInstanceAs (Decidable (_ ∧ _))

/-! ## The constructor -/

section Constructor

variable {days hours minutes seconds milliseconds microseconds : ℤ}

/-- An operation that does not overflow. -/
lemma int64_bind {α : Type} {x : ℤ} (h : -2 ^ 63 ≤ x ∧ x < 2 ^ 63) (next : ℤ → Except Fault α) :
    (int64 x >>= next) = next x := by
  rw [int64, if_pos h]
  rfl

/-- A check that holds. -/
lemma check_bind {α : Type} {c : Bool} (h : c = true) (what : String)
    (next : Unit → Except Fault α) : (check c what >>= next) = next () := by
  rw [check, if_pos h]
  rfl

/-- A check that fails. -/
lemma check_bind_error {α : Type} {c : Bool} (h : ¬ c = true) (what : String)
    (next : Unit → Except Fault α) : (check c what >>= next) = .error (.outOfRange what) := by
  rw [check, if_neg h]
  rfl

/-- A check fails, or has no effect. -/
lemma check_cases {α : Type} (c : Bool) (what : String) (next : Unit → Except Fault α) :
    (∃ w, (check c what >>= next) = .error (.outOfRange w)) ∨
      c = true ∧ (check c what >>= next) = next () := by
  by_cases h : c = true
  · exact Or.inr ⟨h, check_bind h what next⟩
  · exact Or.inl ⟨what, check_bind_error h what next⟩

/-- A duration of microseconds alone. -/
lemma timeDuration_fraction (x : ℤ) : timeDuration 0 0 0 x = x := by
  rcases lt_or_ge x 0 with h | h
  · simp [timeDuration, h, abs_of_neg h]
  · simp [timeDuration, h.not_gt, abs_of_nonneg h]

/-- **What the constructor does** with components in their ranges: no operation overflows, and the
sum is checked. -/
lemma new_eq (h : Documented days hours minutes seconds milliseconds microseconds) :
    new days hours minutes seconds milliseconds microseconds =
      if IsDelta (total days hours minutes seconds milliseconds microseconds) then
        .ok (total days hours minutes seconds milliseconds microseconds)
      else .error (.outOfRange "Out of total range!") := by
  obtain ⟨hd, hh, hm, hs, hms, hus⟩ := h
  rw [new, check_bind (by simpa using hd.symm), check_bind (by simpa using hh),
    check_bind (by simpa using hm), check_bind (by simpa using hs), check_bind (by simpa using hms),
    check_bind (by simpa using hus)]
  rw [int64_bind (by omega), int64_bind (by omega), int64_bind (by omega), int64_bind (by omega),
    int64_bind (by omega), int64_bind (by omega), int64_bind (by omega), int64_bind (by omega),
    int64_bind (by omega), int64_bind (by omega)]
  by_cases htotal : IsDelta (total days hours minutes seconds milliseconds microseconds)
  · rw [if_pos htotal, check_bind (by simpa [IsDelta, total] using htotal), timeDuration_fraction]
    rfl
  · rw [if_neg htotal, check_bind_error (by simpa [IsDelta, total] using htotal)]

/-- A component out of its range is refused.

**Proof sketch.** The checks are made one after another, so the first one that fails is the one
reported; if none fails, all components are in range. -/
lemma new_error (h : ¬ Documented days hours minutes seconds milliseconds microseconds) :
    ∃ what, new days hours minutes seconds milliseconds microseconds =
      .error (.outOfRange what) := by
  rw [new]
  obtain herror | ⟨hd, hnext⟩ := check_cases (decide (days ≤ 99999999 ∧ -99999999 ≤ days)) _ _
  · exact herror
  rw [hnext]
  obtain herror | ⟨hh, hnext⟩ := check_cases (decide (-100000 ≤ hours ∧ hours ≤ 100000)) _ _
  · exact herror
  rw [hnext]
  obtain herror | ⟨hm, hnext⟩ := check_cases (decide (-100000 ≤ minutes ∧ minutes ≤ 100000)) _ _
  · exact herror
  rw [hnext]
  obtain herror | ⟨hs, hnext⟩ := check_cases (decide (-8639900 ≤ seconds ∧ seconds ≤ 8639900)) _ _
  · exact herror
  rw [hnext]
  obtain herror | ⟨hms, hnext⟩ :=
    check_cases (decide (-86399000000 ≤ milliseconds ∧ milliseconds ≤ 86399000000)) _ _
  · exact herror
  rw [hnext]
  refine ⟨_, check_bind_error (fun hus => h ?_) _ _⟩
  simp only [decide_eq_true_eq] at hd hh hm hs hms hus
  exact ⟨hd.symm, hh, hm, hs, hms, hus⟩

end Constructor

/-! ## The components -/

/-- **What the accessors return**: components in their ranges that sum up to the difference. -/
lemma components (t : ℤ) :
    t = total (days t) (hours t) (minutes t) (seconds t) (milliseconds t) (microseconds t) ∧
      days t = t / ticksPerDay ∧ (0 ≤ hours t ∧ hours t < 24) ∧ (0 ≤ minutes t ∧ minutes t < 60) ∧
      (0 ≤ seconds t ∧ seconds t < 60) ∧ (0 ≤ milliseconds t ∧ milliseconds t < 1000) ∧
      0 ≤ microseconds t ∧ microseconds t < 1000 := by
  obtain ⟨hd, hh, hm, hs, hms, hus⟩ := parts t
  rw [total, hd, hh, hm, hs, hms, hus]
  unfold ticksPerDay
  omega

/-- **The normal form.** The constructor never overflows; it throws exactly when a component is out
of its documented range or the sum is out of the range of all differences, and returns the sum
otherwise. The accessors of every difference give it back as a sum, with components in their ranges
and the days rounded down.

**Proof sketch.** The two halves are `new_eq` and `new_error` for the constructor, and `components`
for the accessors. Documented components cannot overflow, as their sums are far from the limits of
64 bits. -/
theorem normal_form :
    (∀ days hours minutes seconds milliseconds microseconds : ℤ,
      new days hours minutes seconds milliseconds microseconds ≠ .error .overflow ∧
      ((∃ what, new days hours minutes seconds milliseconds microseconds =
          .error (.outOfRange what)) ↔
        ¬ (Documented days hours minutes seconds milliseconds microseconds ∧
          IsDelta (total days hours minutes seconds milliseconds microseconds))) ∧
      ∀ t, new days hours minutes seconds milliseconds microseconds = .ok t ↔
        (Documented days hours minutes seconds milliseconds microseconds ∧
          IsDelta (total days hours minutes seconds milliseconds microseconds)) ∧
        t = total days hours minutes seconds milliseconds microseconds) ∧
    ∀ t : TimeDelta,
      t = total (days t) (hours t) (minutes t) (seconds t) (milliseconds t) (microseconds t) ∧
      days t = t / ticksPerDay ∧ (0 ≤ hours t ∧ hours t < 24) ∧ (0 ≤ minutes t ∧ minutes t < 60) ∧
      (0 ≤ seconds t ∧ seconds t < 60) ∧ (0 ≤ milliseconds t ∧ milliseconds t < 1000) ∧
      0 ≤ microseconds t ∧ microseconds t < 1000 := by
  constructor
  · intro days hours minutes seconds milliseconds microseconds
    by_cases h : Documented days hours minutes seconds milliseconds microseconds
    · rw [new_eq h]
      by_cases htotal : IsDelta (total days hours minutes seconds milliseconds microseconds)
      · simp [h, htotal, eq_comm]
      · simp [htotal]
    · obtain ⟨what, hwhat⟩ := new_error h
      simp [hwhat, h]
  · exact components

/-- Differences of one day and of the last microsecond before midnight. -/
example : new 1 (-1) 0 0 0 0 = .ok 82800000000 ∧ days (-1) = -1 ∧ microseconds (-1) = 999 := by
  decide

end HkuUtils.TimeDelta
