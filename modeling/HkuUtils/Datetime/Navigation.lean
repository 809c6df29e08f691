import HkuUtils.Datetime.Model

set_option relaxedAutoImplicit false
set_option autoImplicit false

/-!
# Navigation in the calendar

The functions of `Datetime` that lead to the first or the last day of a week, month, quarter, half
year or year, and to the first day of the next or the previous one.

## Main definitions

* `HkuUtils.Datetime.startOfWeek` … `preYear` — the functions.
* `HkuUtils.Datetime.Span`, `Span.periods` — the five kinds of periods.
* `HkuUtils.Datetime.Navigates` — the four functions of a kind lead to the right days.

## Main results

* `HkuUtils.Datetime.Span.startOf_eq`, `endOf_eq`, `next_eq`, `pre_eq` — where they lead.
* `HkuUtils.Datetime.navigates` — that these are the right days.

## Design

Some of the functions compare their result with the bounds, others catch the exception of a date
that does not exist. A period may lie partly before the first or after the last date; its days are
those of the calendar.
-/

namespace HkuUtils.Datetime

/-! ## First days -/

/-- `startOfWeek`. -/
def startOfWeek (d : Datetime) : Except Fault Datetime :=
  if d = ⊤ then .ok ⊤
  else do
    let today ← d.dayOfWeek
    let date ← d.date
    let result := if today = 0 then ofDate (date + (-6 : ℤ)) else ofDate (date + (1 - today : ℤ))
    return if result.lt Datetime.min then Datetime.min else result

/-- `startOfMonth`. -/
def startOfMonth (d : Datetime) : Except Fault Datetime :=
  if d = ⊤ then .ok d else do new (← d.year) (← d.month) 1

/-- `startOfQuarter`. The quarter is found by comparing the month, and the null value stays null. -/
def startOfQuarter (d : Datetime) : Except Fault Datetime :=
  if d = ⊤ then .ok ⊤
  else do
    let m ← d.month
    let y ← d.year
    if m ≤ 3 then new y 1 1
    else if m ≤ 6 then new y 4 1
    else if m ≤ 9 then new y 7 1
    else if m ≤ 12 then new y 10 1
    else return ⊤

/-- `startOfHalfyear`. -/
def startOfHalfyear (d : Datetime) : Except Fault Datetime :=
  if d = ⊤ then .ok d
  else do if (← d.month) ≤ 6 then new (← d.year) 1 1 else new (← d.year) 7 1

/-- `startOfYear`. -/
def startOfYear (d : Datetime) : Except Fault Datetime :=
  if d = ⊤ then .ok d else do new (← d.year) 1 1

/-! ## Last days -/

/-- `endOfWeek`. -/
def endOfWeek (d : Datetime) : Except Fault Datetime :=
  if d = ⊤ then .ok ⊤
  else do
    let today ← d.dayOfWeek
    let date ← d.date
    let result := if today = 0 then ofDate date else ofDate (date + (7 - today : ℤ))
    return if Datetime.max.lt result then Datetime.max else result

/-- `endOfMonth`. -/
def endOfMonth (d : Datetime) : Except Fault Datetime :=
  if d = ⊤ then .ok d else do return ofDate (← endOfMonthDate (← d.date))

/-- `endOfQuarter`. As at the start, with the last day of the third month. -/
def endOfQuarter (d : Datetime) : Except Fault Datetime :=
  if d = ⊤ then .ok ⊤
  else do
    let m ← d.month
    let y ← d.year
    if m ≤ 3 then new y 3 31
    else if m ≤ 6 then new y 6 30
    else if m ≤ 9 then new y 9 30
    else if m ≤ 12 then new y 12 31
    else return ⊤

/-- `endOfHalfyear`. -/
def endOfHalfyear (d : Datetime) : Except Fault Datetime :=
  if d = ⊤ then .ok d
  else do if (← d.month) ≤ 6 then new (← d.year) 6 30 else new (← d.year) 12 31

/-- `endOfYear`. -/
def endOfYear (d : Datetime) : Except Fault Datetime :=
  if d = ⊤ then .ok ⊤ else do new (← d.year) 12 31

/-! ## The next period -/

/-- The day after the last one, at most `Datetime::max()`. -/
def dayAfter (endOf : Datetime → Except Fault Datetime) (d : Datetime) : Except Fault Datetime :=
  if d = ⊤ then .ok ⊤
  else do
    let last ← endOf d
    let result := ofDate ((← last.date) + (1 : ℤ))
    return if Datetime.max.lt result then Datetime.max else result

/-- `nextWeek`. -/
def nextWeek : Datetime → Except Fault Datetime := dayAfter endOfWeek

/-- `nextMonth`. -/
def nextMonth : Datetime → Except Fault Datetime := dayAfter endOfMonth

/-- `nextQuarter`. -/
def nextQuarter : Datetime → Except Fault Datetime := dayAfter endOfQuarter

/-- `nextHalfyear`. -/
def nextHalfyear : Datetime → Except Fault Datetime := dayAfter endOfHalfyear

/-- `nextYear`. -/
def nextYear : Datetime → Except Fault Datetime := dayAfter endOfYear

/-! ## The previous period -/

/-- An exception is caught, and the result is `Datetime::min()`. -/
def orMin (d : Datetime) (result : Except Fault Datetime) : Except Fault Datetime :=
  if d = ⊤ then .ok ⊤
  else
    match result with
    | .ok result => .ok result
    | .error _ => .ok Datetime.min

/-- `preWeek`. -/
def preWeek (d : Datetime) : Except Fault Datetime :=
  orMin d do (ofDate ((← d.date) + (-7 : ℤ))).startOfWeek

/-- `preMonth`. -/
def preMonth (d : Datetime) : Except Fault Datetime :=
  orMin d do
    let m ← d.month
    if m = 1 then new ((← d.year) - 1) 12 1 else new (← d.year) (m - 1) 1

/-- `preQuarter`. -/
def preQuarter (d : Datetime) : Except Fault Datetime :=
  orMin d do
    let m ← (← d.startOfQuarter).month
    if m = 1 then new ((← d.year) - 1) 10 1 else new (← d.year) (m - 3) 1

/-- `preHalfyear`. -/
def preHalfyear (d : Datetime) : Except Fault Datetime :=
  orMin d do
    let m ← (← d.startOfHalfyear).month
    if m ≤ 6 then new ((← d.year) - 1) 7 1 else new (← d.year) 1 1

/-- `preYear`. -/
def preYear (d : Datetime) : Except Fault Datetime :=
  orMin d do new ((← d.year) - 1) 1 1

/-! ## Periods -/

/-- The kinds of periods. -/
inductive Span where
  | week
  | month
  | quarter
  | halfyear
  | year
  deriving DecidableEq, Repr

namespace Span

/-- The periods of a kind. -/
def periods : Span → Calendar.Periods
  | week => Calendar.weeks
  | month => Calendar.months
  | quarter => Calendar.months.group 3 (by decide)
  | halfyear => Calendar.months.group 6 (by decide)
  | year => Calendar.months.group 12 (by decide)

/-- `startOfWeek`, …. -/
def startOf : Span → Datetime → Except Fault Datetime
  | week => startOfWeek
  | month => startOfMonth
  | quarter => startOfQuarter
  | halfyear => startOfHalfyear
  | year => startOfYear

/-- `endOfWeek`, …. -/
def endOf : Span → Datetime → Except Fault Datetime
  | week => endOfWeek
  | month => endOfMonth
  | quarter => endOfQuarter
  | halfyear => endOfHalfyear
  | year => endOfYear

/-- `nextWeek`, …. -/
def next : Span → Datetime → Except Fault Datetime
  | week => nextWeek
  | month => nextMonth
  | quarter => nextQuarter
  | halfyear => nextHalfyear
  | year => nextYear

/-- `preWeek`, …. -/
def pre : Span → Datetime → Except Fault Datetime
  | week => preWeek
  | month => preMonth
  | quarter => preQuarter
  | halfyear => preHalfyear
  | year => preYear

end Span

/-- **The functions lead to the right days**, for a value of the day `n`: to the first and the last
day of its period, within the bounds; to the first day of the next and the previous one, or to a
bound; and there and back again where no bound is in the way. -/
structure Navigates (U : Span) (n : ℤ) (d : Datetime) : Prop where
  start_eq : ∃ s, IsLeast {k | U.periods.index k = U.periods.index n} s ∧
    U.startOf d = .ok (ofDate (max minDay (min s maxDay) : ℤ))
  end_eq : ∃ e, IsGreatest {k | U.periods.index k = U.periods.index n} e ∧
    U.endOf d = .ok (ofDate (max minDay (min e maxDay) : ℤ))
  next_eq : ∃ s, IsLeast {k | U.periods.index k = U.periods.index n + 1} s ∧
    U.next d = .ok (if maxDay < s then Datetime.max else ofDate s)
  pre_eq : ∃ s, IsLeast {k | U.periods.index k = U.periods.index n - 1} s ∧
    U.pre d = .ok (if s < minDay then Datetime.min else ofDate s)
  pre_next : (∀ s, IsLeast {k | U.periods.index k = U.periods.index n} s → minDay ≤ s) →
    (∀ s, IsLeast {k | U.periods.index k = U.periods.index n + 1} s → s ≤ maxDay) →
    (U.next d >>= U.pre) = U.startOf d

/-! ## The months -/

/-- The bounds among the months. -/
lemma firstOfMonth_bounds {k : ℤ} (h : 1400 * 12 ≤ k ∧ k < 10000 * 12) :
    minDay ≤ Calendar.firstOfMonth k ∧ Calendar.firstOfMonth (k + 1) - 1 ≤ maxDay := by
  obtain ⟨hmin, hmax⟩ := range_eq
  have hlow := Calendar.firstOfMonth_strictMono.monotone h.1
  have hhigh := Calendar.firstOfMonth_strictMono.monotone (Int.add_one_le_of_lt h.2)
  omega

/-- The first day of a month. -/
lemma new_first {y m k : ℤ} (hy : 1400 ≤ y ∧ y ≤ 9999) (hm : 1 ≤ m ∧ m ≤ 12)
    (hk : k = 12 * y + (m - 1)) : new y m 1 = .ok (ofDate (Calendar.firstOfMonth k : ℤ)) := by
  have hdays : 1 ≤ Calendar.daysInMonth y m := by
    unfold Calendar.daysInMonth
    split
    · split <;> omega
    · split <;> omega
  have hnumber := Calendar.dayNumber_eq y m 1
  rw [new_eq hy hm ⟨le_rfl, hdays⟩, hnumber, hk]
  simp

/-- The last day of a month. -/
lemma new_last {y m d k : ℤ} (hy : 1400 ≤ y ∧ y ≤ 9999) (hm : 1 ≤ m ∧ m ≤ 12)
    (hd : 1 ≤ d ∧ d = Calendar.daysInMonth y m) (hk : k = 12 * y + m) :
    new y m d = .ok (ofDate (Calendar.firstOfMonth k - 1 : ℤ)) := by
  have hnumber := Calendar.dayNumber_eq y m d
  have hnext := Calendar.firstOfMonth_next (y := y) hm
  have hsame : Calendar.dayNumber y m d = Calendar.firstOfMonth k - 1 := by
    rw [hk, show 12 * y + m = 12 * y + (m - 1) + 1 by omega]
    omega
  rw [new_eq hy hm ⟨hd.1, hd.2.le⟩, hsame]

/-- The first day of a month, perhaps of the last one that has no date. Only this one is before the
first date, and the constructor throws for it. -/
lemma orMin_new (t : ℤ) {y m k : ℤ} (hy : 1399 ≤ y ∧ y ≤ 9999) (hm : 1 ≤ m ∧ m ≤ 12)
    (hk : k = 12 * y + (m - 1)) :
    orMin t (new y m 1) = .ok (if Calendar.firstOfMonth k < minDay then Datetime.min
      else ofDate (Calendar.firstOfMonth k : ℤ)) := by
  by_cases hfirst : y = 1399
  · have hbefore : Calendar.firstOfMonth k < minDay := by
      rw [range_eq.1]
      exact Calendar.firstOfMonth_strictMono (by omega)
    have hnew : new y m 1 = .error .badDate := by
      rw [hfirst, new, newDate_error]
      rfl
    rw [if_pos hbefore, hnew]
    rfl
  · have hafter : ¬ Calendar.firstOfMonth k < minDay :=
      not_lt.mpr (firstOfMonth_bounds (by omega)).1
    rw [if_neg hafter, new_first (by omega) hm hk]
    rfl

/-- What a function on the months of a value works with. -/
lemma months_of_dated {t : ℤ} (h : Dated t) : ∃ y m, year t = .ok y ∧ month t = .ok m ∧
    (1400 ≤ y ∧ y ≤ 9999) ∧ (1 ≤ m ∧ m ≤ 12) ∧
    Calendar.monthIndex (t / ticksPerDay) = 12 * y + (m - 1) :=
  ⟨_, _, (fields_eq h).1, (fields_eq h).2.1, (year_range_iff _).mpr h,
    Calendar.month_bounds _, rfl⟩

/-! ## The first and the last day -/

/-- The day of the week of a value that has a date. -/
lemma dayOfWeek_eq {t : ℤ} (h : Dated t) :
    dayOfWeek t = .ok (Calendar.weekday (t / ticksPerDay)) := by
  have hday : dayOfWeekOf (t / ticksPerDay : ℤ) = .ok (Calendar.weekday (t / ticksPerDay)) := by
    show (do let _ ← ymdOf (t / ticksPerDay : ℤ); return Calendar.weekday (t / ticksPerDay)) = _
    rw [ymdOf_eq h]
    rfl
  rw [dayOfWeek, date_eq h]
  exact hday

/-- A result is compared with the first date. -/
lemma not_before_min (n : ℤ) :
    (if (ofDate n).lt Datetime.min then Datetime.min else ofDate n) =
      ofDate (max minDay n : ℤ) := by
  have hiff : (ofDate n).lt Datetime.min = true ↔ n < minDay := ofDate_lt_iff n minDay
  by_cases h : n < minDay
  · rw [if_pos (hiff.mpr h), max_eq_left h.le]
    rfl
  · rw [if_neg (mt hiff.mp h), max_eq_right (not_lt.mp h)]

/-- A result is compared with the last date. -/
lemma not_after_max (n : ℤ) :
    (if Datetime.max.lt (ofDate n) then Datetime.max else ofDate n) =
      ofDate (min n maxDay : ℤ) := by
  have hiff : Datetime.max.lt (ofDate n) = true ↔ maxDay < n := ofDate_lt_iff maxDay n
  by_cases h : maxDay < n
  · rw [if_pos (hiff.mpr h), min_eq_right h.le]
    rfl
  · rw [if_neg (mt hiff.mp h), min_eq_left (not_lt.mp h)]

/-- The first day of the week, which is a Monday. -/
lemma startOfWeek_eq {t : ℤ} (h : Dated t) :
    startOfWeek t = .ok (ofDate
      (max minDay (Calendar.weeks.first (Calendar.weeks.index (t / ticksPerDay))) : ℤ)) := by
  obtain ⟨n, hn⟩ : ∃ n, n = t / ticksPerDay := ⟨_, rfl⟩
  have hdate : date (t : Datetime) = .ok (n : ℤ) := hn ▸ date_eq h
  have hmonday : (if Calendar.weekday n = 0 then ofDate ((n : Date) + (-6 : ℤ))
      else ofDate ((n : Date) + (1 - Calendar.weekday n : ℤ))) =
        ofDate (Calendar.weeks.first (Calendar.weeks.index n) : ℤ) := by
    show _ = ofDate (7 * ((n + 1) / 7) - 1 : ℤ)
    rw [← WithTop.coe_add, ← WithTop.coe_add]
    unfold Calendar.weekday
    split
    · congr 2
      omega
    · congr 2
      omega
  rw [← hn, ← not_before_min, ← hmonday, startOfWeek, if_neg (WithTop.coe_ne_top),
    dayOfWeek_eq h, ← hn, hdate]
  rfl

/-- The last day of the week, which is a Sunday. -/
lemma endOfWeek_eq {t : ℤ} (h : Dated t) : endOfWeek t =
    .ok (ofDate (min (Calendar.weeks.first (Calendar.weeks.index (t / ticksPerDay) + 1) - 1)
      maxDay : ℤ)) := by
  obtain ⟨n, hn⟩ : ∃ n, n = t / ticksPerDay := ⟨_, rfl⟩
  have hdate : date (t : Datetime) = .ok (n : ℤ) := hn ▸ date_eq h
  have hsunday : (if Calendar.weekday n = 0 then ofDate (n : Date)
      else ofDate ((n : Date) + (7 - Calendar.weekday n : ℤ))) =
        ofDate (Calendar.weeks.first (Calendar.weeks.index n + 1) - 1 : ℤ) := by
    show _ = ofDate (7 * ((n + 1) / 7 + 1) - 1 - 1 : ℤ)
    rw [← WithTop.coe_add]
    unfold Calendar.weekday
    split
    · congr 2
      omega
    · congr 2
      omega
  rw [← hn, ← not_after_max, ← hsunday, endOfWeek, if_neg (WithTop.coe_ne_top),
    dayOfWeek_eq h, ← hn, hdate]
  rfl

/-- The first day of a period of months. -/
lemma new_start {y m k : ℤ} (hy : 1400 ≤ y ∧ y ≤ 9999) (hm : 1 ≤ m ∧ m ≤ 12)
    (hk : k = 12 * y + (m - 1)) :
    new y m 1 = .ok (ofDate (max minDay (Calendar.firstOfMonth k) : ℤ)) := by
  rw [new_first hy hm hk, max_eq_right (firstOfMonth_bounds (by omega)).1]

/-- **The first day of the period.**

**Proof sketch.** One case for each period. The source finds the first month of a quarter or a half
year by comparisons, which pick the multiple of three or six below the month. -/
lemma Span.startOf_eq (U : Span) {t : ℤ} (h : Dated t) : U.startOf t =
    .ok (ofDate (max minDay (U.periods.first (U.periods.index (t / ticksPerDay))) : ℤ)) := by
  obtain ⟨y, m, hyear, hmonth, hy, hm, hindex⟩ := months_of_dated h
  obtain ⟨k, hk⟩ : ∃ k, k = Calendar.monthIndex (t / ticksPerDay) := ⟨_, rfl⟩
  rw [← hk] at hindex
  cases U with
  | week => exact startOfWeek_eq h
  | month =>
    simp only [startOf, startOfMonth, if_neg (WithTop.coe_ne_top), hyear, hmonth]
    exact new_start hy hm (hk.symm.trans hindex)
  | quarter =>
    rw [periods, Calendar.first_months_group, Calendar.index_months_group, ← hk]
    simp only [startOf, startOfQuarter, if_neg (WithTop.coe_ne_top), hyear, hmonth]
    show ite _ _ _ = _
    split
    · exact new_start hy (by omega) (by omega)
    · split
      · exact new_start hy (by omega) (by omega)
      · split
        · exact new_start hy (by omega) (by omega)
        · rw [if_pos hm.2]
          exact new_start hy (by omega) (by omega)
  | halfyear =>
    rw [periods, Calendar.first_months_group, Calendar.index_months_group, ← hk]
    simp only [startOf, startOfHalfyear, if_neg (WithTop.coe_ne_top), hyear, hmonth]
    show ite _ _ _ = _
    split
    · exact new_start hy (by omega) (by omega)
    · exact new_start hy (by omega) (by omega)
  | year =>
    rw [periods, Calendar.first_months_group, Calendar.index_months_group, ← hk]
    simp only [startOf, startOfYear, if_neg (WithTop.coe_ne_top), hyear]
    exact new_start hy (by omega) (by omega)

/-- The last day of a period of months. -/
lemma new_end {y m d k : ℤ} (hy : 1400 ≤ y ∧ y ≤ 9999) (hm : 1 ≤ m ∧ m ≤ 12)
    (hd : 1 ≤ d ∧ d = Calendar.daysInMonth y m) (hk : k = 12 * y + m) :
    new y m d = .ok (ofDate (min (Calendar.firstOfMonth k - 1) maxDay : ℤ)) := by
  have hlast := (firstOfMonth_bounds (k := k - 1) (by omega)).2
  rw [show k - 1 + 1 = k by omega] at hlast
  rw [new_last hy hm hd hk, min_eq_left hlast]

/-- The last day of the month.

**Proof sketch.** The day before the first of the next month is the one with the number of the days
of this month. -/
lemma endOfMonth_eq {t : ℤ} (h : Dated t) : endOfMonth t =
    .ok (ofDate (min (Calendar.firstOfMonth (Calendar.monthIndex (t / ticksPerDay) + 1) - 1)
      maxDay : ℤ)) := by
  obtain ⟨n, hn⟩ : ∃ n, n = t / ticksPerDay := ⟨_, rfl⟩
  have hrange : minDay ≤ n ∧ n ≤ maxDay := hn ▸ h
  have hyear := (year_range_iff n).mpr hrange
  have hmonth := Calendar.month_bounds n
  have hdate : date (t : Datetime) = .ok (n : ℤ) := hn ▸ date_eq h
  have hlast : endOfMonthDate (n : ℤ) = .ok (Calendar.dayNumber (Calendar.year n)
      (Calendar.month n) (Calendar.daysInMonth (Calendar.year n) (Calendar.month n)) : ℤ) := by
    rw [endOfMonthDate, ymdOf_eq hrange]
    rfl
  have hnext := Calendar.firstOfMonth_next (y := Calendar.year n) hmonth
  have hbound := (firstOfMonth_bounds (k := Calendar.monthIndex n)
    (by unfold Calendar.monthIndex; omega)).2
  have hday : Calendar.dayNumber (Calendar.year n) (Calendar.month n)
      (Calendar.daysInMonth (Calendar.year n) (Calendar.month n)) =
        min (Calendar.firstOfMonth (Calendar.monthIndex n + 1) - 1) maxDay := by
    rw [min_eq_left hbound, Calendar.dayNumber_eq]
    unfold Calendar.monthIndex
    omega
  rw [← hn, ← hday, endOfMonth, if_neg (WithTop.coe_ne_top), hdate]
  exact congrArg (fun r => do return ofDate (← r)) hlast

/-- **The last day of the period.**

**Proof sketch.** One case for each period, as for the first day. The day numbers that the source
has for the ends of quarters and half years are the lengths of these months in every year. -/
lemma Span.endOf_eq (U : Span) {t : ℤ} (h : Dated t) : U.endOf t =
    .ok (ofDate (min (U.periods.first (U.periods.index (t / ticksPerDay) + 1) - 1)
      maxDay : ℤ)) := by
  obtain ⟨y, m, hyear, hmonth, hy, hm, hindex⟩ := months_of_dated h
  obtain ⟨k, hk⟩ : ∃ k, k = Calendar.monthIndex (t / ticksPerDay) := ⟨_, rfl⟩
  rw [← hk] at hindex
  have hmarch : 1 ≤ (31 : ℤ) ∧ 31 = Calendar.daysInMonth y 3 := by simp [Calendar.daysInMonth]
  have hjune : 1 ≤ (30 : ℤ) ∧ 30 = Calendar.daysInMonth y 6 := by simp [Calendar.daysInMonth]
  have hseptember : 1 ≤ (30 : ℤ) ∧ 30 = Calendar.daysInMonth y 9 := by simp [Calendar.daysInMonth]
  have hdecember : 1 ≤ (31 : ℤ) ∧ 31 = Calendar.daysInMonth y 12 := by simp [Calendar.daysInMonth]
  cases U with
  | week => exact endOfWeek_eq h
  | month => exact endOfMonth_eq h
  | quarter =>
    rw [periods, Calendar.first_months_group, Calendar.index_months_group, ← hk]
    simp only [endOf, endOfQuarter, if_neg (WithTop.coe_ne_top), hyear, hmonth]
    show ite _ _ _ = _
    split
    · exact new_end hy (by omega) hmarch (by omega)
    · split
      · exact new_end hy (by omega) hjune (by omega)
      · split
        · exact new_end hy (by omega) hseptember (by omega)
        · rw [if_pos hm.2]
          exact new_end hy (by omega) hdecember (by omega)
  | halfyear =>
    rw [periods, Calendar.first_months_group, Calendar.index_months_group, ← hk]
    simp only [endOf, endOfHalfyear, if_neg (WithTop.coe_ne_top), hyear, hmonth]
    show ite _ _ _ = _
    split
    · exact new_end hy (by omega) hjune (by omega)
    · exact new_end hy (by omega) hdecember (by omega)
  | year =>
    rw [periods, Calendar.first_months_group, Calendar.index_months_group, ← hk]
    simp only [endOf, endOfYear, if_neg (WithTop.coe_ne_top), hyear]
    exact new_end hy (by omega) hdecember (by omega)

/-! ## The next and the previous period -/

/-- The day after the last one of a period. From the last date of all it is cut at this date, and
otherwise it is the first day of the next period. -/
lemma dayAfter_eq {endOf : Datetime → Except Fault Datetime} {t n : ℤ} (hfirst : minDay < n)
    (hend : endOf t = .ok (ofDate (min (n - 1) maxDay : ℤ))) :
    dayAfter endOf t = .ok (if maxDay < n then Datetime.max else ofDate n) := by
  have hbounds : minDay < maxDay := by decide
  have hdate : date (ofDate (min (n - 1) maxDay : ℤ)) = .ok (min (n - 1) maxDay : ℤ) :=
    date_ofDate ⟨by omega, by omega⟩
  have hstep : dayAfter endOf t = .ok (if Datetime.max.lt (ofDate (min (n - 1) maxDay + 1 : ℤ))
      then Datetime.max else ofDate (min (n - 1) maxDay + 1 : ℤ)) := by
    rw [dayAfter, if_neg (WithTop.coe_ne_top), hend]
    show (do let date ← date (ofDate (min (n - 1) maxDay : ℤ))
             let result := ofDate (date + (1 : ℤ))
             return if Datetime.max.lt result then Datetime.max else result) = _
    rw [hdate]
    rfl
  have hmin : min (min (n - 1) maxDay + 1) maxDay = min n maxDay := by omega
  have hiff : Datetime.max.lt (ofDate n) = true ↔ maxDay < n := ofDate_lt_iff maxDay n
  rw [hstep, not_after_max, hmin, ← not_after_max]
  simp only [hiff]

/-- **The first day of the next period.** -/
lemma Span.next_eq (U : Span) {t : ℤ} (h : Dated t) : U.next t =
    .ok (if maxDay < U.periods.first (U.periods.index (t / ticksPerDay) + 1) then Datetime.max
      else ofDate (U.periods.first (U.periods.index (t / ticksPerDay) + 1))) := by
  have hnext : U.next t = dayAfter U.endOf t := by cases U <;> rfl
  have hafter : minDay < U.periods.first (U.periods.index (t / ticksPerDay) + 1) :=
    lt_of_le_of_lt h.1 (U.periods.mem_period _).2
  rw [hnext, dayAfter_eq hafter (U.endOf_eq h)]

/-- The first day of the week before.

**Proof sketch.** A week before, the start of the week is the one of the week before. Where this is
out of range the source falls back to the minimum, and so it does where the week begins before
it. -/
lemma preWeek_eq {t s : ℤ} (h : Dated t)
    (hs : s = Calendar.weeks.first (Calendar.weeks.index (t / ticksPerDay) - 1)) :
    preWeek t = .ok (if s < minDay then Datetime.min else ofDate s) := by
  obtain ⟨n, hn⟩ : ∃ n, n = t / ticksPerDay := ⟨_, rfl⟩
  have hdate : preWeek t = orMin t (startOfWeek ((n - 7) * ticksPerDay : ℤ)) := by
    rw [preWeek, date_eq h, hn]
    rfl
  have hweek : Calendar.weeks.first (Calendar.weeks.index (n - 7)) = s := by
    rw [hs, ← hn]
    show 7 * ((n - 7 + 1) / 7) - 1 = 7 * ((n + 1) / 7 - 1) - 1
    omega
  have hcancel : (n - 7) * ticksPerDay / ticksPerDay = n - 7 :=
    Int.mul_ediv_cancel _ (by decide)
  rw [hdate]
  by_cases hdated : Dated ((n - 7) * ticksPerDay)
  · rw [startOfWeek_eq hdated, hcancel, hweek, ← not_before_min]
    have hiff : (ofDate s).lt Datetime.min = true ↔ s < minDay := ofDate_lt_iff s minDay
    simp only [hiff]
    rfl
  · have hbefore : ¬ (minDay ≤ n - 7 ∧ n - 7 ≤ maxDay) := hcancel ▸ hdated
    have hs' : s < minDay := by
      have hle : s ≤ n - 7 := hweek ▸ (Calendar.weeks.mem_period (n - 7)).1
      have hrange : minDay ≤ n ∧ n ≤ maxDay := hn ▸ h
      omega
    have hthrow : startOfWeek ((n - 7) * ticksPerDay : ℤ) = .error .badDate := by
      have hweekday : dayOfWeek ((n - 7) * ticksPerDay : ℤ) = .error .badDate := by
        rw [dayOfWeek, date_error hdated]
        rfl
      rw [startOfWeek, if_neg (WithTop.coe_ne_top), hweekday]
      rfl
    rw [hthrow, if_pos hs']
    rfl

/-- The month of the first day of a month. -/
lemma month_first {k : ℤ} (h : 1400 * 12 ≤ k ∧ k < 10000 * 12) :
    month (ofDate (max minDay (Calendar.firstOfMonth k) : ℤ)) = .ok (k % 12 + 1) := by
  obtain ⟨hmin, hmax⟩ := firstOfMonth_bounds h
  have hlt := Calendar.firstOfMonth_strictMono (Int.lt_succ k)
  have hcancel : Calendar.firstOfMonth k * ticksPerDay / ticksPerDay = Calendar.firstOfMonth k :=
    Int.mul_ediv_cancel _ (by decide)
  have hdated : Dated (Calendar.firstOfMonth k * ticksPerDay) := by
    rw [Dated, hcancel]
    exact ⟨hmin, by omega⟩
  have hdays : 1 ≤ Calendar.daysInMonth (k / 12) (k % 12 + 1) := by
    have := Calendar.firstOfMonth_succ k
    omega
  have hmonth : Calendar.month (Calendar.firstOfMonth k) = k % 12 + 1 :=
    (Calendar.date_dayNumber (by omega) ⟨le_rfl, hdays⟩).2.1
  rw [max_eq_right hmin]
  refine (fields_eq hdated).2.1.trans ?_
  rw [hcancel, hmonth]

/-- **The first day of the previous period.**

**Proof sketch.** One case for each period. The month before is the one of the year before in
January, and the other periods go back from their own first month; before the minimum all of them
give the minimum. -/
lemma Span.pre_eq (U : Span) {t s : ℤ} (h : Dated t)
    (hs : s = U.periods.first (U.periods.index (t / ticksPerDay) - 1)) :
    U.pre t = .ok (if s < minDay then Datetime.min else ofDate s) := by
  obtain ⟨y, m, hyear, hmonth, hy, hm, hindex⟩ := months_of_dated h
  obtain ⟨k, hk⟩ : ∃ k, k = Calendar.monthIndex (t / ticksPerDay) := ⟨_, rfl⟩
  rw [← hk] at hindex
  cases U with
  | week => exact preWeek_eq h hs
  | month =>
    have hs' : s = Calendar.firstOfMonth (k - 1) := by
      rw [hs, hk]
      rfl
    simp only [pre, preMonth, hyear, hmonth]
    show orMin t (ite _ _ _) = _
    rw [hs']
    split
    · exact orMin_new t (by omega) (by omega) (by omega)
    · exact orMin_new t (by omega) (by omega) (by omega)
  | quarter =>
    have hquarter : startOfQuarter t = _ := startOf_eq .quarter h
    rw [periods, Calendar.first_months_group, Calendar.index_months_group, ← hk] at hs
    rw [periods, Calendar.first_months_group, Calendar.index_months_group, ← hk] at hquarter
    simp only [pre, preQuarter, hquarter]
    show orMin t (do let m ← Datetime.month _; _) = _
    rw [month_first (by omega), hs]
    simp only [hyear]
    show orMin t (ite _ _ _) = _
    split
    · exact orMin_new t (by omega) (by omega) (by omega)
    · exact orMin_new t (by omega) (by omega) (by omega)
  | halfyear =>
    have hhalfyear : startOfHalfyear t = _ := startOf_eq .halfyear h
    rw [periods, Calendar.first_months_group, Calendar.index_months_group, ← hk] at hs
    rw [periods, Calendar.first_months_group, Calendar.index_months_group, ← hk] at hhalfyear
    simp only [pre, preHalfyear, hhalfyear]
    show orMin t (do let m ← Datetime.month _; _) = _
    rw [month_first (by omega), hs]
    simp only [hyear]
    show orMin t (ite _ _ _) = _
    split
    · exact orMin_new t (by omega) (by omega) (by omega)
    · exact orMin_new t (by omega) (by omega) (by omega)
  | year =>
    rw [periods, Calendar.first_months_group, Calendar.index_months_group, ← hk] at hs
    simp only [pre, preYear, hyear]
    rw [hs]
    exact orMin_new t (by omega) (by omega) (by omega)

/-- There and back again: the period before the next one.

**Proof sketch.** The next period starts within range, at the first day of the period with the next
index; the period before that one has the index of the value again. -/
lemma Span.pre_next_eq (U : Span) {t : ℤ} (h : Dated t)
    (hnext : U.periods.first (U.periods.index (t / ticksPerDay) + 1) ≤ maxDay) :
    (U.next t >>= U.pre) = U.startOf t := by
  obtain ⟨n, hn⟩ : ∃ n, n = t / ticksPerDay := ⟨_, rfl⟩
  have hrange : minDay ≤ n ∧ n ≤ maxDay := hn ▸ h
  rw [← hn] at hnext
  obtain ⟨s, hs⟩ : ∃ s, s = U.periods.first (U.periods.index n + 1) := ⟨_, rfl⟩
  have hafter : n < s := hs ▸ (U.periods.mem_period n).2
  have hcancel : s * ticksPerDay / ticksPerDay = s := Int.mul_ediv_cancel _ (by decide)
  have hdated : Dated (s * ticksPerDay) := by
    rw [Dated, hcancel]
    exact ⟨by omega, hs ▸ hnext⟩
  have hindex : U.periods.index (s * ticksPerDay / ticksPerDay) - 1 = U.periods.index n := by
    rw [hcancel, hs, U.periods.index_first]
    omega
  rw [U.next_eq h, ← hn, ← hs, if_neg (not_lt.mpr (hs ▸ hnext)), U.startOf_eq h, ← hn]
  refine (U.pre_eq hdated rfl).trans ?_
  have hiff : (ofDate (U.periods.first (U.periods.index n))).lt Datetime.min = true ↔
      U.periods.first (U.periods.index n) < minDay := ofDate_lt_iff _ minDay
  rw [hindex, ← not_before_min]
  simp only [hiff]

/-- **The functions of `Datetime` lead to the right days**, from every value that has a date.

**Proof sketch.** The periods of a kind are a partition of the days, so that the first day of one
follows the last day of the one before. A week is found by the day of the week; the others by year
and month, which are numbered through. A result can leave the bounds only at a week or year that
lies across them, where the comparison or the exception gives the bound. -/
theorem navigates {t : ℤ} (h : Dated t) (U : Span) : Navigates U (t / ticksPerDay) t := by
  obtain ⟨n, hn⟩ : ∃ n, n = t / ticksPerDay := ⟨_, rfl⟩
  have hrange : minDay ≤ n ∧ n ≤ maxDay := hn ▸ h
  obtain ⟨hfirst, hlast⟩ := U.periods.mem_period n
  have hstart := U.startOf_eq h
  have hend := U.endOf_eq h
  have hnext := U.next_eq h
  have hpre := U.pre_eq h rfl
  have hback := fun hs => U.pre_next_eq h hs
  rw [← hn] at hstart hend hnext hpre hback ⊢
  have hmin : min (U.periods.first (U.periods.index n)) maxDay =
      U.periods.first (U.periods.index n) := min_eq_left (by omega)
  have hmax : max minDay (min (U.periods.first (U.periods.index n + 1) - 1) maxDay) =
      min (U.periods.first (U.periods.index n + 1) - 1) maxDay := max_eq_right (by omega)
  refine ⟨⟨_, U.periods.isLeast_first _, ?_⟩, ⟨_, U.periods.isGreatest_last _, ?_⟩,
    ⟨_, U.periods.isLeast_first _, hnext⟩, ⟨_, U.periods.isLeast_first _, hpre⟩, ?_⟩
  · rw [hmin, hstart]
  · rw [hmax, hend]
  · exact fun _ hs => hback (hs _ (U.periods.isLeast_first _))

/-- The periods of 2024-02-29, at noon. -/
theorem navigates_leap_day : Dated (Calendar.dayNumber 2024 2 29 * ticksPerDay + 43200000000) ∧
    ∀ U, Navigates U (Calendar.dayNumber 2024 2 29)
      ((Calendar.dayNumber 2024 2 29 * ticksPerDay + 43200000000 : ℤ)) :=
  have hdated : Dated (Calendar.dayNumber 2024 2 29 * ticksPerDay + 43200000000) := by decide
  ⟨hdated, fun U => navigates hdated U⟩

end HkuUtils.Datetime
