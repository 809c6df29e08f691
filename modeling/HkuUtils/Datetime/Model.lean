import Mathlib.Algebra.Order.Monoid.Unbundled.WithTop
import HkuUtils.Calendar

set_option relaxedAutoImplicit false
set_option autoImplicit false

/-!
# Dates with times

The class `Datetime`: how its values are made, and what can be read of them. A value has a date of
Boost, whose constructor and accessors throw where the year is not one of `1400` to `9999`.

## Main definitions

* `HkuUtils.Datetime` — the values.
* `HkuUtils.Datetime.Fault` — the exceptions.
* `HkuUtils.Datetime.newDate`, `ymd` — the constructor and the accessors of a date.
* `HkuUtils.Datetime.date` — the date of a value, which is made anew and so can fail.
* `HkuUtils.Datetime.new`, `year`, `month`, `day`, `hour`, `minute`, `second` — those of a value.
* `HkuUtils.Datetime.Dated` — the values with a date from 1400-01-01 to 9999-12-31.
* `HkuUtils.Datetime.Parts` — what the accessors return for such a value.

## Main results

* `HkuUtils.Datetime.date_eq`, `date_error` — which values have a date.
* `HkuUtils.Datetime.fields_eq` — what the accessors return for a value that has a date.
* `HkuUtils.Datetime.new_eq` — which value the constructor makes.

## Design

A value is the number of microseconds since the day `0` of the calendar; the null value, which is
the special value `pos_infin` of Boost, is greater than all others. Dates are day numbers likewise.
Sums with a time difference are not checked, so that there are values before and after the years
that have a date. The other special values of Boost are left out.
-/

namespace HkuUtils

/-- A `Datetime`. -/
abbrev Datetime := WithTop ℤ

namespace Datetime

/-- The exceptions. -/
inductive Fault where
  /-- "This is Null Datetime!". -/
  | nullDatetime
  /-- Boost has no such date. -/
  | badDate
  /-- An argument is out of range. -/
  | outOfRange (what : String)
  deriving DecidableEq, Repr

/-- A `bd::date`: a day number, or `pos_infin`. -/
abbrev Date := WithTop ℤ

/-- The microseconds of a day. -/
def ticksPerDay : ℤ := 86400000000

/-- `bd::min_date_time`. -/
def minDay : ℤ := Calendar.dayNumber 1400 1 1

/-- `bd::max_date_time`. -/
def maxDay : ℤ := Calendar.dayNumber 9999 12 31

/-! ## Dates -/

/-- `year_month_day()`: the accessors of a date. -/
def ymdOf : Date → Except Fault (ℤ × ℤ × ℤ)
  | ⊤ => .error .badDate
  | (n : ℤ) =>
    if 1400 ≤ Calendar.year n ∧ Calendar.year n ≤ 9999 then
      .ok (Calendar.year n, Calendar.month n, Calendar.day n)
    else .error .badDate

/-- The cast to `unsigned short`. -/
def ushort (x : ℤ) : ℤ := x % 65536

/-- The constructor of a date from year, month and day. -/
def newDate (year month day : ℤ) : Except Fault Date :=
  if (1400 ≤ ushort year ∧ ushort year ≤ 9999) ∧ (1 ≤ ushort month ∧ ushort month ≤ 12) ∧
      1 ≤ ushort day ∧ ushort day ≤ Calendar.daysInMonth (ushort year) (ushort month) then
    .ok (Calendar.dayNumber (ushort year) (ushort month) (ushort day) : ℤ)
  else .error .badDate

/-- `end_of_month()`. -/
def endOfMonthDate (d : Date) : Except Fault Date := do
  let (year, month, _) ← ymdOf d
  return (Calendar.dayNumber year month (Calendar.daysInMonth year month) : ℤ)

/-- `day_of_week()`. -/
def dayOfWeekOf : Date → Except Fault ℤ
  | ⊤ => .error .badDate
  | (n : ℤ) => do
    let _ ← ymdOf n
    return Calendar.weekday n

/-! ## Values -/

/-- `isNull`. -/
def isNull (d : Datetime) : Bool := d == ⊤

/-- The constructor from a date. -/
def ofDate (d : Date) : Datetime := d.map (· * ticksPerDay)

/-- `date`. Boost finds year, month and day of the day number and makes the date anew from them, so
that the call throws for the days that have no date; the null value gives `pos_infin`. -/
def date : Datetime → Except Fault Date
  | ⊤ => .ok ⊤
  | (t : ℤ) => do
    let _ ← ymdOf (t / ticksPerDay : ℤ)
    return (t / ticksPerDay : ℤ)

/-- `Datetime::min()`. -/
protected def min : Datetime := ofDate minDay

/-- `Datetime::max()`. -/
protected def max : Datetime := ofDate maxDay

/-- `bt::time_duration`: a negative argument makes the whole duration negative. -/
def timeDuration (hours minutes seconds fraction : ℤ) : ℤ :=
  let total := ((|hours| * 60 + |minutes|) * 60 + |seconds|) * 1000000 + |fraction|
  if hours < 0 ∨ minutes < 0 ∨ seconds < 0 ∨ fraction < 0 then -total else total

/-- The value of a date with a time of day. -/
def ptimeOf (d : Date) (time : ℤ) : Datetime := d.map (· * ticksPerDay + time)

/-- The constructor from year, month, day and the time of day. -/
def new (year month day : ℤ) (hh mm sec millisec microsec : ℤ := 0) : Except Fault Datetime := do
  if millisec < 0 ∨ 999 < millisec then throw (.outOfRange "millisec")
  if microsec < 0 ∨ 999 < microsec then throw (.outOfRange "microsec")
  let d ← newDate year month day
  return ptimeOf d (timeDuration hh mm sec (millisec * 1000 + microsec))

/-- `operator<`: the null value comes after all others. -/
protected def lt (a b : Datetime) : Bool :=
  match a, b with
  | (a : ℤ), (b : ℤ) => a < b
  | (_ : ℤ), ⊤ => true
  | ⊤, _ => false

/-- An accessor of a value that is not null. -/
def field {α : Type} (d : Datetime) (read : ℤ → Except Fault α) : Except Fault α :=
  match d with
  | ⊤ => .error .nullDatetime
  | (t : ℤ) => read t

/-- `year`. -/
def year (d : Datetime) : Except Fault ℤ :=
  d.field fun t => do return (← ymdOf (← date t)).1

/-- `month`. -/
def month (d : Datetime) : Except Fault ℤ :=
  d.field fun t => do return (← ymdOf (← date t)).2.1

/-- `day`. -/
def day (d : Datetime) : Except Fault ℤ :=
  d.field fun t => do return (← ymdOf (← date t)).2.2

/-- `time_of_day`. -/
def timeOfDay (t : ℤ) : ℤ := t % ticksPerDay

/-- `hour`. -/
def hour (d : Datetime) : Except Fault ℤ := d.field fun t => .ok (timeOfDay t / 3600000000)

/-- `minute`. -/
def minute (d : Datetime) : Except Fault ℤ := d.field fun t => .ok (timeOfDay t / 60000000 % 60)

/-- `second`. -/
def second (d : Datetime) : Except Fault ℤ := d.field fun t => .ok (timeOfDay t / 1000000 % 60)

/-- `millisecond`. -/
def millisecond (d : Datetime) : Except Fault ℤ :=
  d.field fun t => .ok (timeOfDay t % 1000000 / 1000)

/-- `microsecond`. -/
def microsecond (d : Datetime) : Except Fault ℤ :=
  d.field fun t => .ok (timeOfDay t % 1000000 % 1000)

/-- `dayOfWeek`. -/
def dayOfWeek (d : Datetime) : Except Fault ℤ := do dayOfWeekOf (← d.date)

/-- The values with a date from 1400-01-01 to 9999-12-31, by their microseconds. -/
def Dated (t : ℤ) : Prop := minDay ≤ t / ticksPerDay ∧ t / ticksPerDay ≤ maxDay

instance (t : ℤ) : Decidable (Dated t) := inferInstanceAs (Decidable (_ ∧ _))

/-! ## Which dates there are -/

/-- The first and the last day of the dates, and the day after. -/
lemma range_eq : minDay = Calendar.firstOfMonth (1400 * 12) ∧
    maxDay = Calendar.firstOfMonth (10000 * 12) - 1 := by
  decide

/-- The years of the days that have a date. -/
lemma year_range_iff (n : ℤ) :
    1400 ≤ Calendar.year n ∧ Calendar.year n ≤ 9999 ↔ minDay ≤ n ∧ n ≤ maxDay := by
  have hyear := Calendar.monthIndex_ediv n
  have hfirst := Calendar.months.gc (1400 * 12) n
  have hlast := Calendar.months.gc (10000 * 12) n
  change Calendar.firstOfMonth _ ≤ n ↔ _ ≤ Calendar.monthIndex n at hfirst hlast
  obtain ⟨hmin, hmax⟩ := range_eq
  omega

/-- The date of a day that has one. -/
lemma ymdOf_eq {n : ℤ} (h : minDay ≤ n ∧ n ≤ maxDay) :
    ymdOf n = .ok (Calendar.year n, Calendar.month n, Calendar.day n) :=
  if_pos ((year_range_iff n).mpr h)

/-- Other days have none. -/
lemma ymdOf_error {n : ℤ} (h : ¬ (minDay ≤ n ∧ n ≤ maxDay)) : ymdOf n = .error .badDate :=
  if_neg (mt (year_range_iff n).mp h)

/-- A date from a year, month and day in range. -/
lemma newDate_eq {y m d : ℤ} (hy : 1400 ≤ y ∧ y ≤ 9999) (hm : 1 ≤ m ∧ m ≤ 12)
    (hd : 1 ≤ d ∧ d ≤ Calendar.daysInMonth y m) :
    newDate y m d = .ok (Calendar.dayNumber y m d : ℤ) := by
  have hmonth : Calendar.daysInMonth y m ≤ 31 := by
    unfold Calendar.daysInMonth
    split
    · split <;> omega
    · split <;> omega
  have hy' : ushort y = y := by unfold ushort; omega
  have hm' : ushort m = m := by unfold ushort; omega
  have hd' : ushort d = d := by unfold ushort; omega
  rw [newDate, hy', hm', hd', if_pos ⟨hy, hm, hd⟩]

/-- No date before the first year. -/
lemma newDate_error {m d : ℤ} : newDate 1399 m d = .error .badDate := by
  have hyear : ¬ (1400 ≤ ushort 1399 ∧ ushort 1399 ≤ 9999) := by decide
  exact if_neg fun h => hyear h.1

/-- The value at the start of a date. -/
lemma new_eq {y m d : ℤ} (hy : 1400 ≤ y ∧ y ≤ 9999) (hm : 1 ≤ m ∧ m ≤ 12)
    (hd : 1 ≤ d ∧ d ≤ Calendar.daysInMonth y m) :
    new y m d = .ok (ofDate (Calendar.dayNumber y m d : ℤ)) := by
  have htime : timeDuration 0 0 0 (0 * 1000 + 0) = 0 := by decide
  rw [new, newDate_eq hy hm hd, htime]
  simp [ptimeOf, ofDate]

/-- The date of a value that has one. -/
lemma date_eq {t : ℤ} (h : Dated t) : date t = .ok (t / ticksPerDay : ℤ) := by
  show (do let _ ← ymdOf (t / ticksPerDay : ℤ); return ((t / ticksPerDay : ℤ) : Date)) = _
  rw [ymdOf_eq h]
  rfl

/-- Other values have none. -/
lemma date_error {t : ℤ} (h : ¬ Dated t) : date t = .error .badDate := by
  show (do let _ ← ymdOf (t / ticksPerDay : ℤ); return ((t / ticksPerDay : ℤ) : Date)) = _
  rw [ymdOf_error h]
  rfl

/-- The start of a day lies on that day. -/
lemma dated_ofDate_iff (n : ℤ) : Dated (n * ticksPerDay) ↔ minDay ≤ n ∧ n ≤ maxDay := by
  rw [Dated, Int.mul_ediv_cancel n (by decide)]

/-- The date of the start of a day. -/
lemma date_ofDate {n : ℤ} (h : minDay ≤ n ∧ n ≤ maxDay) : date (ofDate n) = .ok n := by
  have hday : n * ticksPerDay / ticksPerDay = n := Int.mul_ediv_cancel n (by decide)
  have hdate := date_eq ((dated_ofDate_iff n).mpr h)
  rwa [hday] at hdate

/-- The starts of days are in order. -/
@[simp]
lemma ofDate_lt_iff (n k : ℤ) : (ofDate n).lt (ofDate k) = true ↔ n < k := by
  have hpos : 0 < ticksPerDay := by decide
  have hcast : (ofDate n).lt (ofDate k) = decide (n * ticksPerDay < k * ticksPerDay) := rfl
  rw [hcast, decide_eq_true_iff, Int.mul_lt_mul_right hpos]

/-- The accessors of a value that has a date. -/
lemma fields_eq {t : ℤ} (h : Dated t) :
    year t = .ok (Calendar.year (t / ticksPerDay)) ∧
      month t = .ok (Calendar.month (t / ticksPerDay)) ∧
      day t = .ok (Calendar.day (t / ticksPerDay)) := by
  have hymd := ymdOf_eq h
  refine ⟨?_, ?_, ?_⟩
  · show (do return (← ymdOf (← date t)).1) = _
    rw [date_eq h]
    exact congrArg (fun r => do return (← r).1) hymd
  · show (do return (← ymdOf (← date t)).2.1) = _
    rw [date_eq h]
    exact congrArg (fun r => do return (← r).2.1) hymd
  · show (do return (← ymdOf (← date t)).2.2) = _
    rw [date_eq h]
    exact congrArg (fun r => do return (← r).2.2) hymd

/-! ## The parts of a value -/

/-- **What the accessors return** for a value that has a date, in their ranges, and what number of
ticks this is. -/
structure Parts (t : ℤ) (y m d hh mi s : ℕ) : Prop where
  year_eq : year t = .ok y
  month_eq : month t = .ok m
  day_eq : day t = .ok d
  hour_eq : hour t = .ok hh
  minute_eq : minute t = .ok mi
  second_eq : second t = .ok s
  year_range : 1400 ≤ y ∧ y ≤ 9999
  month_range : 1 ≤ m ∧ m ≤ 12
  day_range : 1 ≤ d ∧ (d : ℤ) ≤ Calendar.daysInMonth y m
  day_le : d ≤ 31
  time_range : hh < 24 ∧ mi < 60 ∧ s < 60
  date_eq : Calendar.dayNumber y m d = t / ticksPerDay
  time_eq : t % ticksPerDay - t % 1000000 = ((hh * 60 + mi) * 60 + s) * 1000000

/-- Every value with a date has parts.

**Proof sketch.** The parts of the date are those of the calendar, and the parts of the time are
quotients and remainders. All of them are bounded, so they are natural numbers that fit into their
types. -/
lemma exists_parts {t : ℤ} (h : Dated t) : ∃ y m d hh mi s, Parts t y m d hh mi s := by
  obtain ⟨hyear, hmonth, hday⟩ := fields_eq h
  obtain ⟨n, hn⟩ : ∃ n, n = t / ticksPerDay := ⟨_, rfl⟩
  rw [← hn] at hyear hmonth hday
  have hy := (year_range_iff n).mpr (hn ▸ h)
  have hm := Calendar.month_bounds n
  have hd := Calendar.day_bounds n
  have hlength : Calendar.daysInMonth (Calendar.year n) (Calendar.month n) ≤ 31 := by
    unfold Calendar.daysInMonth
    split
    · split <;> omega
    · split <;> omega
  have hdate := Calendar.dayNumber_date n
  obtain ⟨y, hy'⟩ := Int.eq_ofNat_of_zero_le (show 0 ≤ Calendar.year n by omega)
  obtain ⟨m, hm'⟩ := Int.eq_ofNat_of_zero_le (show 0 ≤ Calendar.month n by omega)
  obtain ⟨d, hd'⟩ := Int.eq_ofNat_of_zero_le (show 0 ≤ Calendar.day n by omega)
  have htime : 0 ≤ timeOfDay t ∧ timeOfDay t < 86400000000 := by
    unfold timeOfDay ticksPerDay
    omega
  obtain ⟨hh, hh'⟩ := Int.eq_ofNat_of_zero_le (show 0 ≤ timeOfDay t / 3600000000 by omega)
  obtain ⟨mi, hmi'⟩ := Int.eq_ofNat_of_zero_le (show 0 ≤ timeOfDay t / 60000000 % 60 by omega)
  obtain ⟨s, hs'⟩ := Int.eq_ofNat_of_zero_le (show 0 ≤ timeOfDay t / 1000000 % 60 by omega)
  rw [hy', hm', hd'] at hdate
  rw [hy', hm'] at hlength hd
  rw [hd'] at hd
  refine ⟨y, m, d, hh, mi, s, hyear.trans (by rw [hy']), hmonth.trans (by rw [hm']),
    hday.trans (by rw [hd']), congrArg Except.ok hh', congrArg Except.ok hmi',
    congrArg Except.ok hs', by omega, by omega, by omega, by omega, by omega,
    hdate.trans hn, ?_⟩
  unfold timeOfDay ticksPerDay at *
  omega

/-! ## From the fields to the value -/

/-- There is such a date from 1400-01-01 to 9999-12-31. -/
def IsDate (y m d : ℤ) : Prop :=
  (1400 ≤ y ∧ y ≤ 9999) ∧ (1 ≤ m ∧ m ≤ 12) ∧ 1 ≤ d ∧ d ≤ Calendar.daysInMonth y m

instance (y m d : ℤ) : Decidable (IsDate y m d) := inferInstanceAs (Decidable (_ ∧ _))

/-- What the accessors of a date return for the value with a time of its day.

**Proof sketch.** The time is less than a day, so the number of the day is the one of the date,
from which the date is computed back. -/
lemma IsDate.fields_eq {y m d time : ℤ} (h : IsDate y m d) (htime : 0 ≤ time ∧ time < ticksPerDay) :
    Dated (Calendar.dayNumber y m d * ticksPerDay + time) ∧
      year (Calendar.dayNumber y m d * ticksPerDay + time : ℤ) = .ok y ∧
      month (Calendar.dayNumber y m d * ticksPerDay + time : ℤ) = .ok m ∧
      day (Calendar.dayNumber y m d * ticksPerDay + time : ℤ) = .ok d := by
  obtain ⟨hy, hm, hd⟩ := h
  obtain ⟨hyear, hmonth, hday⟩ := Calendar.date_dayNumber hm hd
  have hsame : (Calendar.dayNumber y m d * ticksPerDay + time) / ticksPerDay =
      Calendar.dayNumber y m d := by
    unfold ticksPerDay at *
    omega
  have hdated : Dated (Calendar.dayNumber y m d * ticksPerDay + time) := by
    rw [Dated, hsame, ← year_range_iff, hyear]
    exact hy
  obtain ⟨hy', hm', hd'⟩ := Datetime.fields_eq hdated
  rw [hsame] at hy' hm' hd'
  rw [hyear] at hy'
  rw [hmonth] at hm'
  rw [hday] at hd'
  exact ⟨hdated, hy', hm', hd'⟩

/-- **The value of a date and a time of day has them as its parts.**

**Proof sketch.** The date of the value is the one it is made of, since the time of day is less
than a day. The hour, the minute and the second are found by division. -/
lemma IsDate.parts {y m d hh mi s : ℕ} {r : ℤ} (h : IsDate y m d)
    (htime : hh < 24 ∧ mi < 60 ∧ s < 60) (hr : 0 ≤ r ∧ r < 1000000) :
    Parts (Calendar.dayNumber y m d * ticksPerDay + (((hh * 60 + mi) * 60 + s) * 1000000 + r))
      y m d hh mi s := by
  obtain ⟨n, hn⟩ : ∃ n, n = Calendar.dayNumber y m d := ⟨_, rfl⟩
  have htimeOfDay : 0 ≤ ((hh * 60 + mi) * 60 + s) * 1000000 + r ∧
      ((hh * 60 + mi) * 60 + s) * 1000000 + r < ticksPerDay := by
    unfold ticksPerDay
    omega
  obtain ⟨hdated, hyear, hmonth, hday⟩ := h.fields_eq htimeOfDay
  rw [← hn] at hyear hmonth hday ⊢
  obtain ⟨t, ht⟩ : ∃ t, t = n * ticksPerDay + (((hh * 60 + mi) * 60 + s) * 1000000 + r) := ⟨_, rfl⟩
  rw [← ht] at hyear hmonth hday ⊢
  have htod : timeOfDay t = ((hh * 60 + mi) * 60 + s) * 1000000 + r := by
    unfold timeOfDay ticksPerDay at *
    omega
  have hlength : Calendar.daysInMonth y m ≤ 31 := by
    unfold Calendar.daysInMonth
    split
    · split <;> omega
    · split <;> omega
  obtain ⟨hy, hm, hd⟩ := h
  refine ⟨hyear, hmonth, hday, congrArg Except.ok ?_, congrArg Except.ok ?_, congrArg Except.ok ?_,
    by omega, by omega, by omega, by omega, htime, ?_, ?_⟩
  · rw [htod]
    omega
  · rw [htod]
    omega
  · rw [htod]
    omega
  · rw [← hn, ht]
    unfold ticksPerDay
    omega
  · rw [ht]
    unfold ticksPerDay
    omega

end Datetime

end HkuUtils
