import Mathlib.Order.GaloisConnection.Defs
import Mathlib.Order.Bounds.Basic
import Mathlib.Order.Monotone.Basic
import Mathlib.Algebra.Order.Group.Unbundled.Int
import Mathlib.Algebra.Order.Ring.Int
import Mathlib.Order.SuccPred.Basic
import Mathlib.Algebra.Order.SuccPred
import Mathlib.Data.Int.SuccPred
import Mathlib.Data.Int.ConditionallyCompleteOrder
import Mathlib.Tactic.IntervalCases

set_option relaxedAutoImplicit false
set_option autoImplicit false

/-!
# The proleptic Gregorian calendar

Dates as day numbers. The number of a date and the date of a number are computed as usual, with
years that begin in March. Days are grouped into periods, such as weeks and months, each of which
begins where the one before it ends.

## Main definitions

* `Calendar.IsLeap`, `daysInMonth` — leap years, and the length of the months.
* `Calendar.dayNumber`, `year`, `month`, `day` — the number of a date, and the date of a number.
* `Calendar.Periods` — a partition of the days into numbered periods.
* `Calendar.weeks`, `months`, `Periods.group` — the weeks, the months, some periods taken together.

## Main results

* `Calendar.dayNumber_date` — the number of the date of a number.
* `Calendar.date_dayNumber` — the date of the number of a date.
* `Calendar.dayNumber_lt_iff` — the order of dates.
* `Calendar.Periods.isLeast_first`, `isGreatest_last` — the first and the last day of a period.
-/

namespace Calendar

/-! ## Dates and their numbers -/

/-- Leap years. -/
def IsLeap (y : ℤ) : Prop := y % 4 = 0 ∧ (y % 100 ≠ 0 ∨ y % 400 = 0)

instance (y : ℤ) : Decidable (IsLeap y) := inferInstanceAs (Decidable (_ ∧ _))

/-- The days of a month. -/
def daysInMonth (y m : ℤ) : ℤ :=
  if m = 2 then if IsLeap y then 29 else 28
  else if m = 4 ∨ m = 6 ∨ m = 9 ∨ m = 11 then 30
  else 31

/-- A date has a number. The years are counted from March. -/
def dayNumber (y m d : ℤ) : ℤ :=
  let a := (14 - m) / 12
  let y := y - a
  let m := m + 12 * a - 3
  d + (153 * m + 2) / 5 + 365 * y + y / 4 - y / 100 + y / 400

/-- The century of a day. -/
def century (n : ℤ) : ℤ := (4 * (n - 1) + 3) / 146097

/-- The day within its century. -/
def dayOfCentury (n : ℤ) : ℤ := n - 1 - 146097 * century n / 4

/-- The year within its century. -/
def yearOfCentury (n : ℤ) : ℤ := (4 * dayOfCentury n + 3) / 1461

/-- The day within its year. -/
def dayOfYear (n : ℤ) : ℤ := dayOfCentury n - 1461 * yearOfCentury n / 4

/-- The month within its year. -/
def monthOfYear (n : ℤ) : ℤ := (5 * dayOfYear n + 2) / 153

/-- The year of a day. -/
def year (n : ℤ) : ℤ := 100 * century n + yearOfCentury n + monthOfYear n / 10

/-- The month of a day. -/
def month (n : ℤ) : ℤ := monthOfYear n + 3 - 12 * (monthOfYear n / 10)

/-- The day of the month of a day. -/
def day (n : ℤ) : ℤ := dayOfYear n - (153 * monthOfYear n + 2) / 5 + 1

/-- The day of the week, from Sunday on. -/
def weekday (n : ℤ) : ℤ := (n + 2) % 7

example : weekday (dayNumber 1970 1 1) = 4 := by decide

/-! ## The date of a day -/

/-- A century has `36524` days, or one more. -/
lemma dayOfCentury_bounds (n : ℤ) :
    0 ≤ dayOfCentury n ∧ 4 * dayOfCentury n ≤ century n % 4 + 146093 := by
  unfold dayOfCentury century
  omega

/-- The leap days of a century's years. -/
lemma leapDays_year (y : ℤ) : 1461 * y / 4 = 365 * y + y / 4 := by omega

/-- The leap days of some years. -/
lemma leapDays {c y : ℤ} (h : 0 ≤ y ∧ y ≤ 99) :
    146097 * c / 4 = 36524 * c + c / 4 ∧ (100 * c + y) / 4 = 25 * c + y / 4 ∧
      (100 * c + y) / 100 = c ∧ (100 * c + y) / 400 = c / 4 := by
  omega

/-- A century has a hundred years. -/
lemma yearOfCentury_bounds (n : ℤ) : 0 ≤ yearOfCentury n ∧ yearOfCentury n ≤ 99 := by
  have := dayOfCentury_bounds n
  unfold yearOfCentury
  omega

/-- A year has `365` days, or one more. -/
lemma dayOfYear_bounds (n : ℤ) :
    0 ≤ dayOfYear n ∧ 4 * dayOfYear n ≤ yearOfCentury n % 4 + 1457 := by
  have hcentury := dayOfCentury_bounds n
  have hleap := leapDays_year (yearOfCentury n)
  unfold dayOfYear
  rw [hleap]
  unfold yearOfCentury
  omega

/-- A year has one day more only before the end of a leap year's February. -/
lemma isLeap_of_dayOfYear {n : ℤ} (h : dayOfYear n = 365) :
    IsLeap (100 * century n + yearOfCentury n + 1) := by
  have hcentury := dayOfCentury_bounds n
  have hyear := yearOfCentury_bounds n
  have hday := dayOfYear_bounds n
  have hlast : yearOfCentury n = 99 → century n % 4 = 3 := by
    intro h99
    have hsplit : dayOfYear n = dayOfCentury n - 1461 * yearOfCentury n / 4 := rfl
    omega
  unfold IsLeap
  omega

/-- The months of a year that begins in March. -/
lemma monthOfYear_bounds (n : ℤ) : 0 ≤ monthOfYear n ∧ monthOfYear n ≤ 11 := by
  have := dayOfYear_bounds n
  unfold monthOfYear
  omega

/-- The months are numbered from one to twelve. -/
lemma month_bounds (n : ℤ) : 1 ≤ month n ∧ month n ≤ 12 := by
  have := monthOfYear_bounds n
  unfold month
  omega

/-- The day is one of the month.

**Proof sketch.** By cases on whether the month is February, which is the last one of the year that
is counted from March. Its days end with the year, and the other months have theirs by the
formula. -/
lemma day_bounds (n : ℤ) : 1 ≤ day n ∧ day n ≤ daysInMonth (year n) (month n) := by
  have hmonth := monthOfYear_bounds n
  have hday := dayOfYear_bounds n
  have hsplit : 153 * monthOfYear n ≤ 5 * dayOfYear n + 2 ∧
      5 * dayOfYear n + 2 < 153 * monthOfYear n + 153 := by
    unfold monthOfYear
    omega
  refine ⟨by unfold day; omega, ?_⟩
  by_cases hfebruary : monthOfYear n = 11
  · have hm : month n = 2 := by unfold month; omega
    have hy : year n = 100 * century n + yearOfCentury n + 1 := by unfold year; omega
    rw [daysInMonth, if_pos hm, hy]
    split
    · unfold day
      omega
    · rename_i hleap
      have hne : dayOfYear n ≠ 365 := fun h => hleap (isLeap_of_dayOfYear h)
      unfold day
      omega
  · have hm : month n ≠ 2 := by unfold month; omega
    rw [daysInMonth, if_neg hm]
    unfold day month
    split <;> omega

/-- **The number of the date of a day.** -/
theorem dayNumber_date (n : ℤ) : dayNumber (year n) (month n) (day n) = n := by
  have hyear := yearOfCentury_bounds n
  have hmonth := monthOfYear_bounds n
  have hshift : (14 - month n) / 12 = monthOfYear n / 10 := by unfold month; omega
  have hm : month n + 12 * ((14 - month n) / 12) - 3 = monthOfYear n := by
    rw [hshift]
    unfold month
    omega
  have hy : year n - (14 - month n) / 12 = 100 * century n + yearOfCentury n := by
    rw [hshift]
    unfold year
    omega
  obtain ⟨hcentury, hfour, hhundred, hfourhundred⟩ := leapDays (c := century n) hyear
  have hleap := leapDays_year (yearOfCentury n)
  unfold dayNumber
  simp only [hm, hy, hfour, hhundred, hfourhundred]
  unfold day dayOfYear dayOfCentury
  omega

/-! ## Periods -/

/-- The days in numbered periods: the first day of each, and the period of each day. -/
structure Periods where
  /-- The first day of a period. -/
  first : ℤ → ℤ
  /-- The period of a day. -/
  index : ℤ → ℤ
  gc : GaloisConnection first index
  index_first : ∀ k, index (first k) = k

namespace Periods

variable (P : Periods)

/-- The days of a period. -/
lemma index_eq_iff (n k : ℤ) : P.index n = k ↔ P.first k ≤ n ∧ n < P.first (k + 1) := by
  rw [P.gc k n, ← not_le, P.gc (k + 1) n, not_le, Int.lt_add_one_iff, and_comm]
  exact le_antisymm_iff

/-- **The first day of a period.** -/
lemma isLeast_first (k : ℤ) : IsLeast {n | P.index n = k} (P.first k) :=
  ⟨P.index_first k, fun _ hn => ((P.index_eq_iff _ k).mp hn).1⟩

/-- **The last day of a period**: the one before the next period. -/
lemma isGreatest_last (k : ℤ) : IsGreatest {n | P.index n = k} (P.first (k + 1) - 1) := by
  have hlt : P.first k < P.first (k + 1) := by
    rw [← not_le, P.gc (k + 1), P.index_first]
    omega
  refine ⟨(P.index_eq_iff _ k).mpr ⟨by omega, by omega⟩, fun n hn => ?_⟩
  have hnext := ((P.index_eq_iff n k).mp hn).2
  omega

/-- A day is one of its period. -/
lemma mem_period (n : ℤ) : P.first (P.index n) ≤ n ∧ n < P.first (P.index n + 1) :=
  (P.index_eq_iff n _).mp rfl

/-- Some periods taken together. -/
def group (g : ℤ) (hg : 0 < g) : Periods where
  first k := P.first (k * g)
  index n := P.index n / g
  gc k n := (P.gc (k * g) n).trans (Int.le_ediv_iff_mul_le hg).symm
  index_first k := by rw [P.index_first, Int.mul_ediv_cancel k hg.ne']

end Periods

/-- Periods from their first days. The first days have to be in order, and the index of a day has
to be that of the last one that is not behind it; the two maps are adjoint then. -/
def Periods.ofFirst (first index : ℤ → ℤ) (hmono : StrictMono first)
    (hindex : ∀ n, first (index n) ≤ n ∧ n < first (index n + 1)) : Periods where
  first := first
  index := index
  gc k n := by
    refine ⟨fun h => ?_, fun h => (hmono.monotone h).trans (hindex n).1⟩
    rw [← Int.lt_add_one_iff]
    exact hmono.lt_iff_lt.mp (lt_of_le_of_lt h (hindex n).2)
  index_first k := by
    obtain ⟨hle, hlt⟩ := hindex (first k)
    have hupper := hmono.le_iff_le.mp hle
    have hlower := hmono.lt_iff_lt.mp hlt
    omega

/-! ## Weeks and months -/

/-- The weeks, from Monday on. -/
def weeks : Periods where
  first k := 7 * k - 1
  index n := (n + 1) / 7
  gc k n := by
    show 7 * k - 1 ≤ n ↔ k ≤ (n + 1) / 7
    omega
  index_first k := by
    show (7 * k - 1 + 1) / 7 = k
    omega

/-- The first day of a month, the months being numbered through. -/
def firstOfMonth (k : ℤ) : ℤ := dayNumber (k / 12) (k % 12 + 1) 1

/-- The month of a day, numbered through. -/
def monthIndex (n : ℤ) : ℤ := 12 * year n + (month n - 1)

/-- Twelve months are a year. -/
lemma monthIndex_ediv (n : ℤ) : monthIndex n / 12 = year n := by
  have := month_bounds n
  unfold monthIndex
  omega

/-- A month is followed by the next one. -/
lemma firstOfMonth_succ (k : ℤ) :
    firstOfMonth (k + 1) = firstOfMonth k + daysInMonth (k / 12) (k % 12 + 1) := by
  obtain ⟨q, hq⟩ : ∃ q, q = k / 12 := ⟨_, rfl⟩
  obtain ⟨r, hr⟩ : ∃ r, r = k % 12 := ⟨_, rfl⟩
  have hbounds : 0 ≤ r ∧ r < 12 := by omega
  have hnext : (k + 1) / 12 = q + r / 11 ∧ (k + 1) % 12 = (r + 1) % 12 := by omega
  rw [firstOfMonth, firstOfMonth, ← hq, ← hr, hnext.1, hnext.2]
  obtain ⟨hlow, hhigh⟩ := hbounds
  simp only [dayNumber, daysInMonth, IsLeap]
  clear hq hr hnext
  interval_cases r <;> simp <;> omega

/-- The first days of the months are in order. -/
lemma firstOfMonth_strictMono : StrictMono firstOfMonth := by
  refine strictMono_int_of_lt_succ fun k => ?_
  have hdays : 0 < daysInMonth (k / 12) (k % 12 + 1) := by
    unfold daysInMonth
    split <;> split <;> omega
  have := firstOfMonth_succ k
  omega

/-- **A date is a day of its month**, also for months outside the year: these are counted on into
the years before and after it.

**Proof sketch.** The formula shifts the year so that it begins in March. The shift and the number
of the month after it depend on `12 * y + m` only, and so does the first day of the month. -/
lemma dayNumber_eq (y m d : ℤ) :
    dayNumber y m d = firstOfMonth (12 * y + (m - 1)) + (d - 1) := by
  obtain ⟨k, hk⟩ : ∃ k, k = 12 * y + (m - 1) := ⟨_, rfl⟩
  have hyear : y - (14 - m) / 12 = k / 12 - (14 - (k % 12 + 1)) / 12 := by omega
  have hmonth : m + 12 * ((14 - m) / 12) - 3 =
      k % 12 + 1 + 12 * ((14 - (k % 12 + 1)) / 12) - 3 := by omega
  rw [firstOfMonth, ← hk]
  simp only [dayNumber, hyear, hmonth]
  omega

/-- A greater year, month or day makes a later day, whether they are those of a date or not. -/
lemma dayNumber_lt_of_le {y m d y' m' d' : ℤ} (hy : y ≤ y') (hm : m ≤ m') (hd : d ≤ d')
    (hne : y < y' ∨ m < m' ∨ d < d') : dayNumber y m d < dayNumber y' m' d' := by
  rw [dayNumber_eq, dayNumber_eq]
  rcases (by omega : 12 * y + (m - 1) < 12 * y' + (m' - 1) ∨
      12 * y + (m - 1) = 12 * y' + (m' - 1) ∧ d < d') with hlt | ⟨heq, hlt⟩
  · have := firstOfMonth_strictMono hlt
    omega
  · rw [heq]
    omega

/-- The days of a month lie before the next one. -/
lemma firstOfMonth_next {y m : ℤ} (hm : 1 ≤ m ∧ m ≤ 12) :
    firstOfMonth (12 * y + (m - 1) + 1) = firstOfMonth (12 * y + (m - 1)) + daysInMonth y m := by
  have hy : (12 * y + (m - 1)) / 12 = y := by omega
  have hmonth : (12 * y + (m - 1)) % 12 + 1 = m := by omega
  rw [firstOfMonth_succ, hy, hmonth]

/-- A day is one of its month. -/
lemma mem_month (n : ℤ) :
    firstOfMonth (monthIndex n) ≤ n ∧ n < firstOfMonth (monthIndex n + 1) := by
  have hday := day_bounds n
  have hnumber := dayNumber_date n
  rw [dayNumber_eq] at hnumber
  have hnext := firstOfMonth_next (y := year n) (month_bounds n)
  unfold monthIndex
  omega

/-- The months. -/
def months : Periods := .ofFirst firstOfMonth monthIndex firstOfMonth_strictMono mem_month

/-- The first day of some months taken together. -/
lemma first_months_group (g : ℤ) (hg : 0 < g) (k : ℤ) :
    (months.group g hg).first k = firstOfMonth (k * g) := rfl

/-- The number of some months taken together. -/
lemma index_months_group (g : ℤ) (hg : 0 < g) (n : ℤ) :
    (months.group g hg).index n = monthIndex n / g := rfl

/-- **The date of the number of a date.** -/
theorem date_dayNumber {y m d : ℤ} (hm : 1 ≤ m ∧ m ≤ 12) (hd : 1 ≤ d ∧ d ≤ daysInMonth y m) :
    year (dayNumber y m d) = y ∧ month (dayNumber y m d) = m ∧ day (dayNumber y m d) = d := by
  have hindex : months.index (dayNumber y m d) = 12 * y + (m - 1) := by
    have hnext := firstOfMonth_next (y := y) hm
    rw [months.index_eq_iff, dayNumber_eq]
    exact ⟨by change firstOfMonth _ ≤ _; omega, by change _ < firstOfMonth _; omega⟩
  have hindex' : 12 * year (dayNumber y m d) + (month (dayNumber y m d) - 1) =
      12 * y + (m - 1) := hindex
  have hbounds := month_bounds (dayNumber y m d)
  have hy : year (dayNumber y m d) = y := by omega
  have hmonth : month (dayNumber y m d) = m := by omega
  have hnumber := dayNumber_date (dayNumber y m d)
  rw [hy, hmonth] at hnumber
  have hsame := dayNumber_eq y m (day (dayNumber y m d))
  have hsame' := dayNumber_eq y m d
  exact ⟨hy, hmonth, by omega⟩

/-- A later year or month begins later. -/
lemma dayNumber_lt_of {y m d y' m' d' : ℤ} (hm : 1 ≤ m ∧ m ≤ 12)
    (hd : 1 ≤ d ∧ d ≤ daysInMonth y m) (hm' : 1 ≤ m' ∧ m' ≤ 12) (hd' : 1 ≤ d')
    (h : y < y' ∨ y = y' ∧ m < m') : dayNumber y m d < dayNumber y' m' d' := by
  have hnext := firstOfMonth_next (y := y) hm
  have hle : firstOfMonth (12 * y + (m - 1) + 1) ≤ firstOfMonth (12 * y' + (m' - 1)) :=
    firstOfMonth_strictMono.monotone (by omega)
  rw [dayNumber_eq, dayNumber_eq]
  omega

/-- **Dates are in the order of their numbers.** -/
theorem dayNumber_lt_iff {y m d y' m' d' : ℤ} (hm : 1 ≤ m ∧ m ≤ 12)
    (hd : 1 ≤ d ∧ d ≤ daysInMonth y m) (hm' : 1 ≤ m' ∧ m' ≤ 12)
    (hd' : 1 ≤ d' ∧ d' ≤ daysInMonth y' m') : dayNumber y m d < dayNumber y' m' d' ↔
      y < y' ∨ y = y' ∧ (m < m' ∨ m = m' ∧ d < d') := by
  by_cases hsame : y = y' ∧ m = m'
  · obtain ⟨rfl, rfl⟩ := hsame
    rw [dayNumber_eq, dayNumber_eq]
    omega
  · constructor
    · intro h
      by_contra hnot
      have hback : dayNumber y' m' d' < dayNumber y m d :=
        dayNumber_lt_of hm' hd' hm hd.1 (by omega)
      omega
    · intro h
      exact dayNumber_lt_of hm hd hm' hd'.1 (by omega)

end Calendar
