import HkuUtils.Datetime.Text

set_option relaxedAutoImplicit false
set_option autoImplicit false

/-!
# Time differences

The class `TimeDelta`: its parts and its text. The accessors tell negative differences from others,
since division in the source rounds towards zero.

## Main definitions

* `HkuUtils.TimeDelta` — the differences.
* `HkuUtils.TimeDelta.days`, `hours`, `minutes`, `seconds`, `milliseconds`, `microseconds` — the
  parts.
* `HkuUtils.TimeDelta.str` — the text.

## Main results

* `HkuUtils.TimeDelta.parts` — the parts are those of a division with a remainder that is not
  negative.
-/

namespace HkuUtils

/-- A `TimeDelta`: a number of microseconds. -/
abbrev TimeDelta : Type := ℤ

namespace TimeDelta

open Datetime (ticksPerDay formatInt twoDigits formatMillionths)

/-! ## A duration of Boost -/

/-- `hours()` of a duration. -/
def durationHours (t : ℤ) : ℤ := t.tdiv 3600000000

/-- `minutes()` of a duration. -/
def durationMinutes (t : ℤ) : ℤ := (t.tdiv 60000000).tmod 60

/-- `seconds()` of a duration. -/
def durationSeconds (t : ℤ) : ℤ := (t.tdiv 1000000).tmod 60

/-! ## Parts -/

/-- What is left of a negative difference above its days: `pos_ticks`. -/
def posTicks (t : TimeDelta) : ℤ := |(t.tdiv ticksPerDay - 1) * ticksPerDay| + t

/-- What the accessors have in common: a negative difference without a remainder has no parts but
its days. -/
def part (t : TimeDelta) (negative other : ℤ) : ℤ :=
  if t < 0 then if t.tmod ticksPerDay = 0 then 0 else negative else other

/-- `days`. -/
def days (t : TimeDelta) : ℤ :=
  if t < 0 then
    if t.tmod ticksPerDay = 0 then t.tdiv ticksPerDay else t.tdiv ticksPerDay - 1
  else |(durationHours t).tdiv 24|

/-- `hours`. -/
def hours (t : TimeDelta) : ℤ := part t (durationHours (posTicks t)) (|durationHours t|.tmod 24)

/-- `minutes`. -/
def minutes (t : TimeDelta) : ℤ := part t (durationMinutes (posTicks t)) |durationMinutes t|

/-- `seconds`. -/
def seconds (t : TimeDelta) : ℤ := part t (durationSeconds (posTicks t)) |durationSeconds t|

/-- `microseconds`. -/
def microseconds (t : TimeDelta) : ℤ :=
  part t (if t.tmod 1000 = 0 then t.tmod 1000 else 1000 + t.tmod 1000) |t.tmod 1000|

/-- `milliseconds`. -/
def milliseconds (t : TimeDelta) : ℤ :=
  part t
    (if (posTicks t).tmod 1000000 = 0 then 0
      else ((posTicks t).tmod 1000000 - microseconds t).tdiv 1000)
    ((|t|.tmod 1000000 - microseconds t).tdiv 1000)

/-- `str`. -/
def str (t : TimeDelta) : List UInt8 :=
  formatInt (days t) ++ (" days, ".toUTF8.data.toList ++ (twoDigits (hours t) ++ 58 ::
    (twoDigits (minutes t) ++ 58 ::
      formatMillionths (seconds t * 1000000 + (milliseconds t * 1000 + microseconds t)))))

/-! ## What the parts are -/

/-- Rounding towards zero, below zero. -/
lemma tdiv_of_neg {t : ℤ} (h : t < 0) (k : ℤ) : t.tdiv k = -(-t / k) := by
  rw [← Int.tdiv_eq_ediv_of_nonneg (by omega), Int.neg_tdiv, neg_neg]

/-- The remainder of that. -/
lemma tmod_of_neg {t : ℤ} (h : t < 0) (k : ℤ) : t.tmod k = -(-t % k) := by
  rw [← Int.tmod_eq_emod_of_nonneg (by omega), Int.neg_tmod, neg_neg]

/-- The hours of a duration that is not negative. -/
lemma durationHours_eq {t : ℤ} (h : 0 ≤ t) : durationHours t = t / 3600000000 :=
  Int.tdiv_eq_ediv_of_nonneg h

/-- The minutes of a duration that is not negative. -/
lemma durationMinutes_eq {t : ℤ} (h : 0 ≤ t) : durationMinutes t = t / 60000000 % 60 := by
  rw [durationMinutes, Int.tdiv_eq_ediv_of_nonneg h, Int.tmod_eq_emod_of_nonneg (by omega)]

/-- The seconds of a duration that is not negative. -/
lemma durationSeconds_eq {t : ℤ} (h : 0 ≤ t) : durationSeconds t = t / 1000000 % 60 := by
  rw [durationSeconds, Int.tdiv_eq_ediv_of_nonneg h, Int.tmod_eq_emod_of_nonneg (by omega)]

/-- What is left of a negative difference is its remainder. -/
lemma posTicks_eq {t : ℤ} (h : t < 0) (hne : t.tmod ticksPerDay ≠ 0) :
    posTicks t = t % ticksPerDay := by
  rw [tmod_of_neg h] at hne
  have habs : |(t.tdiv ticksPerDay - 1) * ticksPerDay| = (-t / ticksPerDay + 1) * ticksPerDay := by
    rw [tdiv_of_neg h, abs_of_nonpos]
    · ring
    · unfold ticksPerDay
      omega
  rw [posTicks, habs]
  unfold ticksPerDay at *
  omega

/-- The parts of a time of day. -/
structure Parts (t : TimeDelta) : Prop where
  days : days t = t / ticksPerDay
  hours : hours t = t % ticksPerDay / 3600000000
  minutes : minutes t = t % ticksPerDay / 60000000 % 60
  seconds : seconds t = t % ticksPerDay / 1000000 % 60
  milliseconds : milliseconds t = t % 1000000 / 1000
  microseconds : microseconds t = t % 1000

/-- A negative difference.

**Proof sketch.** If whole days are left, then all other parts are zero. Otherwise the parts are
those of the rest up to the next day, which is not negative and less than a day. -/
lemma parts_of_neg {t : ℤ} (h : t < 0) : Parts t := by
  have htdiv := tdiv_of_neg h ticksPerDay
  have htmod := tmod_of_neg h ticksPerDay
  have htmod' := tmod_of_neg h 1000
  by_cases hzero : t.tmod ticksPerDay = 0
  · have hpart : ∀ a b, part t a b = 0 := fun a b => by rw [part, if_pos h, if_pos hzero]
    have hmod : t % ticksPerDay = 0 := by
      unfold ticksPerDay at *
      omega
    have hmod' : t % 1000000 = 0 := by
      unfold ticksPerDay at *
      omega
    constructor
    · rw [days, if_pos h, if_pos hzero, htdiv]
      unfold ticksPerDay at *
      omega
    · rw [hours, hpart, hmod]
      rfl
    · rw [minutes, hpart, hmod]
      rfl
    · rw [seconds, hpart, hmod]
      rfl
    · rw [milliseconds, hpart, hmod']
      rfl
    · rw [microseconds, hpart]
      omega
  · have hpart : ∀ a b, part t a b = a := fun a b => by rw [part, if_pos h, if_neg hzero]
    have hpos := posTicks_eq h hzero
    have hnonneg : 0 ≤ t % ticksPerDay := Int.emod_nonneg t (by decide)
    have hmicro : microseconds t = t % 1000 := by
      rw [microseconds, hpart]
      split_ifs <;> omega
    constructor
    · rw [days, if_pos h, if_neg hzero, htdiv]
      unfold ticksPerDay at *
      omega
    · rw [hours, hpart, hpos, durationHours_eq hnonneg]
    · rw [minutes, hpart, hpos, durationMinutes_eq hnonneg]
    · rw [seconds, hpart, hpos, durationSeconds_eq hnonneg]
    · have hmod : (posTicks t).tmod 1000000 = t % 1000000 := by
        rw [hpos, Int.tmod_eq_emod_of_nonneg hnonneg]
        unfold ticksPerDay
        omega
      rw [milliseconds, hpart, hmod, hmicro, Int.tdiv_eq_ediv_of_nonneg (by omega)]
      split_ifs <;> omega
    · exact hmicro

/-- A difference that is not negative.

**Proof sketch.** One case for each part. For a difference that is not negative, the division that
rounds to zero is the one that rounds down. -/
lemma parts_of_nonneg {t : ℤ} (h : 0 ≤ t) : Parts t := by
  have hnot : ¬ t < 0 := not_lt.mpr h
  have hpart : ∀ a b, part t a b = b := fun a b => by rw [part, if_neg hnot]
  have hmicro : microseconds t = t % 1000 := by
    rw [microseconds, hpart, Int.tmod_eq_emod_of_nonneg h, abs_of_nonneg (by omega)]
  constructor
  · rw [days, if_neg hnot, durationHours_eq h, Int.tdiv_eq_ediv_of_nonneg (by omega),
      abs_of_nonneg (by omega)]
    unfold ticksPerDay
    omega
  · rw [hours, hpart, durationHours_eq h, abs_of_nonneg (by omega),
      Int.tmod_eq_emod_of_nonneg (by omega)]
    unfold ticksPerDay
    omega
  · rw [minutes, hpart, durationMinutes_eq h, abs_of_nonneg (by omega)]
    unfold ticksPerDay
    omega
  · rw [seconds, hpart, durationSeconds_eq h, abs_of_nonneg (by omega)]
    unfold ticksPerDay
    omega
  · rw [milliseconds, hpart, hmicro, abs_of_nonneg h, Int.tmod_eq_emod_of_nonneg h,
      Int.tdiv_eq_ediv_of_nonneg (by omega)]
    omega
  · exact hmicro

/-- **The parts are those of a division with remainder.** -/
theorem parts (t : TimeDelta) : Parts t := (lt_or_ge t 0).elim parts_of_neg parts_of_nonneg

end TimeDelta

end HkuUtils
