import HkuUtils.Datetime.Navigation

set_option relaxedAutoImplicit false
set_option autoImplicit false

/-!
# Days, and the bounds of navigation

The functions of `Datetime` that lead to another day or to another time of the day. The step to the
next or the previous day is refused at `Datetime::max()` and `Datetime::min()` alone, so it leads
out of the dates from a later time of the last day and of the first one.

## Main definitions

* `HkuUtils.Datetime.nextDay`, `preDay`, `startOfDay`, `endOfDay`, `dateOfWeek` — the functions.
* `HkuUtils.Datetime.Walk` — a function that navigates, whatever its kind.
* `HkuUtils.Datetime.InRange` — a result with a date.

## Main results

* `HkuUtils.Datetime.preDay_nextDay` — there and back again.
* `HkuUtils.Datetime.walks_inRange_iff` — from where every function stays in range.
-/

namespace HkuUtils.Datetime

/-- `nextDay`. -/
def nextDay (d : Datetime) : Except Fault Datetime :=
  if d = ⊤ ∨ d = Datetime.max then .ok d else do return ofDate ((← d.date) + (1 : ℤ))

/-- `preDay`. -/
def preDay (d : Datetime) : Except Fault Datetime :=
  if d = ⊤ ∨ d = Datetime.min then .ok d else do return ofDate ((← d.date) + (-1 : ℤ))

/-- `startOfDay`, which throws for a value that has no date. -/
def startOfDay (d : Datetime) : Except Fault Datetime := do return ofDate (← d.date)

/-- `endOfDay`. -/
def endOfDay (d : Datetime) : Except Fault Datetime :=
  if d = ⊤ then .ok ⊤
  else do
    if (← d.date) ≠ (maxDay : ℤ) then new (← d.year) (← d.month) (← d.day) 23 59 59
    else return Datetime.max

/-- `dateOfWeek`. -/
def dateOfWeek (d : Datetime) (day : ℤ) : Except Fault Datetime :=
  if d = ⊤ then .ok d
  else do
    let dd := if day < 0 then 0 else if 6 < day then 6 else day
    let today ← d.dayOfWeek
    let result := ofDate ((← d.date) + (dd - today : ℤ))
    return if Datetime.max.lt result then Datetime.max
      else if result.lt Datetime.min then Datetime.min else result

/-- A function that navigates: by days, within the week, or by one of the longer periods. -/
inductive Walk where
  | nextDay
  | preDay
  | startOfDay
  | endOfDay
  | dateOfWeek (day : ℤ)
  | next (U : Span)
  | pre (U : Span)
  | startOf (U : Span)
  | endOf (U : Span)

/-- Where it leads. -/
def Walk.go : Walk → Datetime → Except Fault Datetime
  | nextDay, d => d.nextDay
  | preDay, d => d.preDay
  | startOfDay, d => d.startOfDay
  | endOfDay, d => d.endOfDay
  | dateOfWeek day, d => d.dateOfWeek day
  | next U, d => U.next d
  | pre U, d => U.pre d
  | startOf U, d => U.startOf d
  | endOf U, d => U.endOf d

/-- A result with a date, so that its year, month and day can be read. -/
def InRange (r : Except Fault Datetime) : Prop :=
  ∃ t : ℤ, r = .ok t ∧ Dated t ∧
    (∃ y, year t = .ok y) ∧ (∃ m, month t = .ok m) ∧ ∃ d, day t = .ok d

/-- A value with a date is in the range. -/
lemma inRange_of_dated {t : ℤ} (h : Dated t) : InRange (.ok t) :=
  ⟨t, rfl, h, ⟨_, (fields_eq h).1⟩, ⟨_, (fields_eq h).2.1⟩, ⟨_, (fields_eq h).2.2⟩⟩

/-- The start of a day is in range when the day is. -/
lemma inRange_ofDate_iff (n : ℤ) : InRange (.ok (ofDate n)) ↔ minDay ≤ n ∧ n ≤ maxDay := by
  rw [← dated_ofDate_iff]
  refine ⟨?_, fun h => inRange_of_dated h⟩
  rintro ⟨t, ht, h, -⟩
  obtain rfl : n * ticksPerDay = t := WithTop.coe_injective (Except.ok.inj ht)
  exact h

/-- The bounds are in order. -/
lemma minDay_lt_maxDay : minDay + 1 < maxDay := by decide

/-! ## Days -/

/-- The start of the day. -/
lemma startOfDay_eq {t : ℤ} (h : Dated t) :
    startOfDay t = .ok (ofDate (t / ticksPerDay : ℤ)) := by
  rw [startOfDay, date_eq h]
  rfl

/-- The start of the next day. -/
lemma nextDay_eq {t : ℤ} (hdated : Dated t) (h : (t : Datetime) ≠ Datetime.max) :
    nextDay t = .ok (ofDate (t / ticksPerDay + 1 : ℤ)) := by
  rw [nextDay, if_neg (not_or.mpr ⟨WithTop.coe_ne_top, h⟩), date_eq hdated]
  rfl

/-- The start of the previous day. -/
lemma preDay_eq {t : ℤ} (hdated : Dated t) (h : (t : Datetime) ≠ Datetime.min) :
    preDay t = .ok (ofDate (t / ticksPerDay - 1 : ℤ)) := by
  rw [preDay, if_neg (not_or.mpr ⟨WithTop.coe_ne_top, h⟩), date_eq hdated]
  rfl

/-- A value is a bound when it is the start of the day. -/
lemma eq_ofDate_iff (t n : ℤ) :
    (t : Datetime) = ofDate n ↔ t / ticksPerDay = n ∧ t % ticksPerDay = 0 := by
  have hcoe : (t : Datetime) = ofDate n ↔ t = n * ticksPerDay := WithTop.coe_inj
  rw [hcoe]
  unfold ticksPerDay
  omega

/-- **There and back again**: the day before the next one, except from the last day.

**Proof sketch.** The next day is a date, for the day is not the last one, and it is not the first
date. So the second step goes back to the day. -/
theorem preDay_nextDay {t : ℤ} (h : t / ticksPerDay < maxDay) (hmin : minDay ≤ t / ticksPerDay) :
    (nextDay t >>= preDay) = startOfDay t := by
  have hmax : (t : Datetime) ≠ Datetime.max := fun heq => by
    have := ((eq_ofDate_iff t maxDay).mp heq).1
    omega
  have hcancel : (t / ticksPerDay + 1) * ticksPerDay / ticksPerDay = t / ticksPerDay + 1 :=
    Int.mul_ediv_cancel _ (by decide)
  have hne : (((t / ticksPerDay + 1) * ticksPerDay : ℤ) : Datetime) ≠ Datetime.min := fun heq => by
    have := ((eq_ofDate_iff _ minDay).mp heq).1
    omega
  have hdated : Dated ((t / ticksPerDay + 1) * ticksPerDay) :=
    (dated_ofDate_iff _).mpr ⟨by omega, by omega⟩
  have hback : preDay (ofDate (t / ticksPerDay + 1 : ℤ)) = .ok (ofDate (t / ticksPerDay : ℤ)) := by
    refine (preDay_eq hdated hne).trans ?_
    rw [hcancel, add_sub_cancel_right]
  rw [nextDay_eq ⟨hmin, h.le⟩ hmax, startOfDay_eq ⟨hmin, h.le⟩]
  exact hback

/-- `nextDay` leads out of the dates from a later time of the last day. -/
lemma inRange_nextDay_iff {t : ℤ} (h : Dated t) :
    InRange (nextDay t) ↔ t / ticksPerDay ≠ maxDay ∨ t % ticksPerDay = 0 := by
  by_cases hmax : (t : Datetime) = Datetime.max
  · have hstart := (eq_ofDate_iff t maxDay).mp hmax
    have hstay : nextDay t = .ok t := by rw [nextDay, if_pos (.inr hmax)]
    simp [hstay, inRange_of_dated h, hstart.2]
  · have hstart := mt (eq_ofDate_iff t maxDay).mpr hmax
    have hday := h.1
    have hday' := h.2
    rw [nextDay_eq h hmax, inRange_ofDate_iff]
    omega

/-- `preDay` leads out of the dates from a later time of the first day. -/
lemma inRange_preDay_iff {t : ℤ} (h : Dated t) :
    InRange (preDay t) ↔ t / ticksPerDay ≠ minDay ∨ t % ticksPerDay = 0 := by
  by_cases hmin : (t : Datetime) = Datetime.min
  · have hstart := (eq_ofDate_iff t minDay).mp hmin
    have hstay : preDay t = .ok t := by rw [preDay, if_pos (.inr hmin)]
    simp [hstay, inRange_of_dated h, hstart.2]
  · have hstart := mt (eq_ofDate_iff t minDay).mpr hmin
    have hday := h.1
    have hday' := h.2
    rw [preDay_eq h hmin, inRange_ofDate_iff]
    omega

/-- The last second of a day, or the start of the last day.

**Proof sketch.** On every day but the last one the constructor makes the last second of the day,
which is of the same day. The last day has its start for an end. -/
lemma inRange_endOfDay {t : ℤ} (h : Dated t) : InRange (endOfDay t) := by
  obtain ⟨hyear, hmonth, hday⟩ := fields_eq h
  obtain ⟨n, hn⟩ : ∃ n, n = t / ticksPerDay := ⟨_, rfl⟩
  have hrange : minDay ≤ n ∧ n ≤ maxDay := hn ▸ h
  have hdate : date (t : Datetime) = .ok (n : ℤ) := hn ▸ date_eq h
  rw [← hn] at hyear hmonth hday
  rw [endOfDay, if_neg WithTop.coe_ne_top, hdate, hyear, hmonth, hday]
  show InRange (if (n : Date) ≠ (maxDay : ℤ) then
    new (Calendar.year n) (Calendar.month n) (Calendar.day n) 23 59 59 else .ok Datetime.max)
  split
  case isFalse => exact (inRange_ofDate_iff maxDay).mpr ⟨by decide, le_rfl⟩
  case isTrue =>
    have hnew := newDate_eq ((year_range_iff n).mpr hrange) (Calendar.month_bounds n)
      (Calendar.day_bounds n)
    rw [Calendar.dayNumber_date] at hnew
    have hlast : new (Calendar.year n) (Calendar.month n) (Calendar.day n) 23 59 59 =
        .ok ((n * ticksPerDay + 86399000000 : ℤ) : Datetime) := by
      have htime : timeDuration 23 59 59 (0 * 1000 + 0) = 86399000000 := by decide
      rw [new, hnew, htime]
      rfl
    rw [hlast]
    refine inRange_of_dated ?_
    have hsame : (n * ticksPerDay + 86399000000) / ticksPerDay = n := by
      unfold ticksPerDay
      omega
    rw [Dated, hsame]
    exact hrange

/-- A day of the week, compared with both bounds, stays in range. Whatever the day is, the result
is cut at the first and the last date. -/
lemma inRange_dateOfWeek {t : ℤ} (h : Dated t) (day : ℤ) : InRange (dateOfWeek t day) := by
  obtain ⟨n, hn⟩ : ∃ n, n = t / ticksPerDay := ⟨_, rfl⟩
  have hdate : date (t : Datetime) = .ok (n : ℤ) := hn ▸ date_eq h
  rw [dateOfWeek, if_neg WithTop.coe_ne_top, dayOfWeek_eq h, ← hn, hdate]
  generalize (if day < 0 then (0 : ℤ) else if 6 < day then 6 else day) = dd
  have hshow : ∀ k : ℤ, InRange (.ok (if Datetime.max.lt (ofDate k) then Datetime.max
      else if (ofDate k).lt Datetime.min then Datetime.min else ofDate k)) := by
    intro k
    have hmax : Datetime.max.lt (ofDate k) = true ↔ maxDay < k := ofDate_lt_iff maxDay k
    have hmin : (ofDate k).lt Datetime.min = true ↔ k < minDay := ofDate_lt_iff k minDay
    have hbounds := minDay_lt_maxDay
    simp only [hmax, hmin]
    split
    · exact (inRange_ofDate_iff maxDay).mpr ⟨by omega, le_rfl⟩
    · split
      · exact (inRange_ofDate_iff minDay).mpr ⟨le_rfl, by omega⟩
      · exact (inRange_ofDate_iff k).mpr ⟨by omega, by omega⟩
  exact hshow (n + (dd - Calendar.weekday n))

/-! ## Periods -/

/-- The functions on periods stay in range.

**Proof sketch.** One case for each function. Each leads to the first or last day of a period or is
cut at the first or last day of all. -/
lemma inRange_span (U : Span) {t : ℤ} (h : Dated t) :
    InRange (U.next t) ∧ InRange (U.pre t) ∧ InRange (U.startOf t) ∧ InRange (U.endOf t) := by
  obtain ⟨n, hn⟩ : ∃ n, n = t / ticksPerDay := ⟨_, rfl⟩
  have hrange : minDay ≤ n ∧ n ≤ maxDay := hn ▸ h
  have hbounds := minDay_lt_maxDay
  obtain ⟨hfirst, hlast⟩ := U.periods.mem_period n
  have hbefore : U.periods.first (U.periods.index n - 1) ≤ n :=
    (U.periods.gc _ n).mpr (by omega)
  refine ⟨?_, ?_, ?_, ?_⟩
  · rw [U.next_eq h, ← hn]
    split
    · exact (inRange_ofDate_iff maxDay).mpr ⟨by omega, le_rfl⟩
    · exact (inRange_ofDate_iff _).mpr ⟨by omega, by omega⟩
  · rw [U.pre_eq h rfl, ← hn]
    split
    · exact (inRange_ofDate_iff minDay).mpr ⟨le_rfl, by omega⟩
    · exact (inRange_ofDate_iff _).mpr ⟨by omega, by omega⟩
  · rw [U.startOf_eq h, ← hn]
    exact (inRange_ofDate_iff _).mpr ⟨le_max_left _ _, by omega⟩
  · rw [U.endOf_eq h, ← hn]
    exact (inRange_ofDate_iff _).mpr ⟨by omega, min_le_right _ _⟩

/-- **From where navigation stays in range.** Every function leads to a value with a date, and from
within the bounds the day before the next one is the day itself, exactly when the value is not of
the first or the last day or is the start of it.

**Proof sketch.** Only `nextDay` and `preDay` can leave the range, and the lemmas for these two say
when. The others stay within the day or the period of the value. -/
theorem walks_inRange_iff {t : ℤ} (h : Dated t) :
    ((∀ f : Walk, InRange (f.go t)) ∧
      (Datetime.min.lt t = true → Datetime.lt t Datetime.max = true →
        (nextDay t >>= preDay) = startOfDay t)) ↔
      t / ticksPerDay ≠ minDay ∧ t / ticksPerDay ≠ maxDay ∨ t % ticksPerDay = 0 := by
  have hnext := inRange_nextDay_iff h
  have hpre := inRange_preDay_iff h
  have hback : Datetime.min.lt t = true → Datetime.lt t Datetime.max = true →
      (nextDay t >>= preDay) = startOfDay t := by
    intro _ hmax
    have hlt : t < maxDay * ticksPerDay := of_decide_eq_true hmax
    have hday : t / ticksPerDay < maxDay := Int.ediv_lt_of_lt_mul (by decide) hlt
    exact preDay_nextDay hday h.1
  constructor
  · rintro ⟨hall, -⟩
    have hn := hnext.mp (hall .nextDay)
    have hp := hpre.mp (hall .preDay)
    exact and_or_right.mpr ⟨hp, hn⟩
  · intro hcond
    obtain ⟨hp, hn⟩ := and_or_right.mp hcond
    refine ⟨fun f => ?_, hback⟩
    cases f with
    | nextDay => exact hnext.mpr hn
    | preDay => exact hpre.mpr hp
    | startOfDay =>
      show InRange (Datetime.startOfDay t)
      rw [startOfDay_eq h]
      exact (inRange_ofDate_iff (t / ticksPerDay)).mpr h
    | endOfDay => exact inRange_endOfDay h
    | dateOfWeek day => exact inRange_dateOfWeek h day
    | next U => exact (inRange_span U h).1
    | pre U => exact (inRange_span U h).2.1
    | startOf U => exact (inRange_span U h).2.2.1
    | endOf U => exact (inRange_span U h).2.2.2

/-- At noon of 1970-01-01. -/
theorem walks_inRange_noon :
    (∀ f : Walk, InRange (f.go (62162164800000000 : ℤ))) ∧
      (Datetime.min.lt (62162164800000000 : ℤ) = true →
        Datetime.lt (62162164800000000 : ℤ) Datetime.max = true →
        (nextDay (62162164800000000 : ℤ) >>= preDay) = startOfDay (62162164800000000 : ℤ)) :=
  (walks_inRange_iff (by decide)).mpr (by decide)

/-- The day after 9999-12-31 12:00 has no date. -/
theorem not_walks_inRange :
    ¬ ∀ t : ℤ, Dated t → ∀ f : Walk, InRange (f.go t) := by
  intro h
  have hnoon : Dated (maxDay * ticksPerDay + 43200000000) := by decide
  have hout := (inRange_nextDay_iff hnoon).mp (h _ hnoon .nextDay)
  exact absurd hout (by decide)

end HkuUtils.Datetime
