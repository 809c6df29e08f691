import HkuUtils.Datetime.Days

set_option relaxedAutoImplicit false
set_option autoImplicit false

/-!
# The days between two values

`getDateRange` goes from day to day until it stands on the end. From after the end it never comes to
stand there, and neither does it from the null value, whose next day it is itself. Before the loop
both values are asked for their dates, which throws for a value that has none.

## Main definitions

* `HkuUtils.Datetime.getDateRange` — the function, with a bound on the steps of its loop.
* `HkuUtils.Datetime.dayNumber` — the day on which a value lies, whether or not it is a date.
* `HkuUtils.Datetime.IsDateRange` — the list that it is to return.

## Main results

* `HkuUtils.Datetime.dateLoop_eq`, `dateLoop_eq_none` — a run that ends, and one that does not.
* `HkuUtils.Datetime.getDateRange_iff` — for which values the function is right.
-/

namespace HkuUtils.Datetime

/-- The loop of `getDateRange`, for at most `fuel` comparisons of the iterator. -/
def dateLoop (stop : Date) : ℕ → Date → List Datetime → Option (List Datetime)
  | 0, _, _ => none
  | fuel + 1, iter, result =>
    if iter ≠ stop then dateLoop stop fuel (iter + (1 : ℤ)) (result ++ [ofDate iter])
    else some result

/-- The end of a range: the null value stands for the last date. -/
def endDatetime (stop : Datetime) : Datetime := if stop = ⊤ then Datetime.max else stop

/-- `getDateRange`, for at most `fuel` comparisons of the iterator. The dates of both values are
taken before the loop. -/
def getDateRange (fuel : ℕ) (start stop : Datetime) : Except Fault (Option (List Datetime)) := do
  let endDatetime := endDatetime stop
  let startDay ← start.date
  let endDay ← endDatetime.date
  return dateLoop endDay fuel startDay []

/-- The day on which a value lies, counted on beyond the years that have a date. -/
def dayNumber (d : Datetime) : WithTop ℤ := d.map (· / ticksPerDay)

/-- The days from that of the one value to before that of the other, in order. -/
structure IsDateRange (start stop : Datetime) (ds : List Datetime) : Prop where
  mem_iff : ∀ d, d ∈ ds ↔
    ∃ n : ℤ, d = ofDate n ∧ start.dayNumber ≤ n ∧ n < (endDatetime stop).dayNumber
  ascending : ds.Pairwise (· < ·)

/-- The function comes to an end without an exception, and returns the right list. -/
def Ranges (start stop : Datetime) : Prop :=
  ∃ ds, IsDateRange start stop ds ∧
    ∃ steps, ∀ fuel ≥ steps, getDateRange fuel start stop = .ok (some ds)

/-- **A run that ends**: from `k` days before the end.

**Proof sketch.** By induction on the days that are left. As long as the end is not reached, the
day is added and the loop goes on with the next one. -/
theorem dateLoop_eq {k fuel : ℕ} (h : k < fuel) (n : ℤ) (result : List Datetime) :
    dateLoop (n + k : ℤ) fuel n result =
      some (result ++ (List.range k).map fun i : ℕ => ofDate (n + i : ℤ)) := by
  induction k generalizing fuel n result with
  | zero =>
    obtain ⟨fuel, rfl⟩ := Nat.exists_eq_succ_of_ne_zero (by omega : fuel ≠ 0)
    simp [dateLoop]
  | succ k ih =>
    obtain ⟨fuel, rfl⟩ := Nat.exists_eq_succ_of_ne_zero (by omega : fuel ≠ 0)
    have hne : (n : Date) ≠ (n + (k + 1 : ℕ) : ℤ) := by
      rw [Ne, WithTop.coe_inj]
      omega
    have hstep : ((n : Date) + (1 : ℤ)) = (n + 1 : ℤ) := rfl
    have hend : (n + (k + 1 : ℕ) : ℤ) = n + 1 + k := by omega
    have hshift : (List.range k).map (fun i : ℕ => ofDate (n + 1 + i : ℤ)) =
        (List.range k).map ((fun i : ℕ => ofDate (n + i : ℤ)) ∘ Nat.succ) := by
      refine List.map_congr_left fun i _ => ?_
      rw [Function.comp_apply, show n + 1 + (i : ℤ) = n + (i.succ : ℤ) by omega]
    have hfirst : ofDate (n + (0 : ℕ) : ℤ) = ofDate n := by rw [Nat.cast_zero, add_zero]
    rw [dateLoop, if_pos hne, hstep, hend, ih (by omega), hshift, List.range_succ_eq_map,
      List.map_cons, List.map_map, hfirst, List.append_assoc, List.singleton_append]

/-- **A run that does not end**: from after the end, or from the null date. -/
theorem dateLoop_eq_none {start stop : Date} (h : stop < start) (fuel : ℕ)
    (result : List Datetime) : dateLoop stop fuel start result = none := by
  induction fuel generalizing start result with
  | zero => rfl
  | succ fuel ih =>
    rw [dateLoop, if_pos h.ne']
    refine ih (lt_of_lt_of_le h ?_) _
    cases start with
    | none => exact le_top
    | some n => exact WithTop.coe_le_coe.mpr (Int.le_add_one le_rfl)

/-- The end of a range is not null. -/
lemma exists_endDatetime (stop : Datetime) : ∃ u : ℤ, endDatetime stop = u := by
  rw [endDatetime]
  split
  case isTrue => exact ⟨maxDay * ticksPerDay, rfl⟩
  case isFalse h =>
    obtain ⟨u, rfl⟩ := WithTop.ne_top_iff_exists.mp h
    exact ⟨u, rfl⟩

/-- The starts of days are in order. -/
lemma ofDate_lt_ofDate {n k : ℤ} : ofDate n < ofDate k ↔ n < k := by
  have hpos : 0 < ticksPerDay := by decide
  have hcoe : ofDate n < ofDate k ↔ n * ticksPerDay < k * ticksPerDay := WithTop.coe_lt_coe
  rw [hcoe, Int.mul_lt_mul_right hpos]

/-- The days from `n` on. -/
lemma isDateRange_map {start stop : Datetime} {n : ℤ} {k : ℕ} (hstart : start.dayNumber = n)
    (hstop : (endDatetime stop).dayNumber = (n + k : ℤ)) :
    IsDateRange start stop ((List.range k).map fun i : ℕ => ofDate (n + i : ℤ)) := by
  refine ⟨fun d => ?_, ?_⟩
  · rw [hstart, hstop]
    simp only [List.mem_map, List.mem_range, WithTop.coe_le_coe, WithTop.coe_lt_coe]
    constructor
    · rintro ⟨i, hi, rfl⟩
      exact ⟨n + i, rfl, by omega, by omega⟩
    · rintro ⟨j, rfl, hlow, hhigh⟩
      refine ⟨(j - n).toNat, by omega, ?_⟩
      congr 2
      omega
  · rw [List.pairwise_map]
    refine List.pairwise_lt_range.imp fun hij => ?_
    exact ofDate_lt_ofDate.mpr (by omega)

/-- What a call that returns a list has done: both values have a date, and the loop has ended. -/
lemma getDateRange_ok {fuel : ℕ} {start stop : Datetime} {ds : List Datetime}
    (h : getDateRange fuel start stop = .ok (some ds)) :
    ∃ s e : Date, start.date = .ok s ∧ (endDatetime stop).date = .ok e ∧
      dateLoop e fuel s [] = some ds := by
  rw [getDateRange] at h
  cases hs : start.date with
  | error _ =>
    rw [hs] at h
    cases h
  | ok s =>
    cases he : (endDatetime stop).date with
    | error _ =>
      simp only [hs, he] at h
      cases h
    | ok e =>
      simp only [hs, he] at h
      exact ⟨s, e, rfl, rfl, Except.ok.inj h⟩

/-- A value that is not null and has a date is one from 1400-01-01 to 9999-12-31. -/
lemma dated_of_date_ok {t : ℤ} {d : Date} (h : date t = .ok d) :
    Dated t ∧ d = (t / ticksPerDay : ℤ) := by
  by_cases hdated : Dated t
  · rw [date_eq hdated] at h
    exact ⟨hdated, (Except.ok.inj h).symm⟩
  · rw [date_error hdated] at h
    cases h

/-- **For which values the function is right**: the start is not null, both values (the last date in
place of a null end) have a date from 1400-01-01 to 9999-12-31, and that of the start is not after
that of the end.

**Proof sketch.** A call that returns has got both dates, so both values have one unless the start
is null; the loop then goes on for ever from the null date and from after the end. In the other
direction the loop ends after one comparison for each day between the dates and one more. -/
theorem getDateRange_iff (start stop : Datetime) :
    Ranges start stop ↔ ∃ t u : ℤ, start = t ∧ endDatetime stop = u ∧ Dated t ∧ Dated u ∧
      t / ticksPerDay ≤ u / ticksPerDay := by
  obtain ⟨u, hu⟩ := exists_endDatetime stop
  constructor
  · rintro ⟨ds, -, steps, hrun⟩
    obtain ⟨s, e, hs, he, hloop⟩ := getDateRange_ok (hrun steps le_rfl)
    rw [hu] at he
    obtain ⟨hdated, rfl⟩ := dated_of_date_ok he
    have hle : s ≤ (u / ticksPerDay : ℤ) := by
      refine not_lt.mp fun hlt => ?_
      rw [dateLoop_eq_none hlt] at hloop
      cases hloop
    cases start with
    | none =>
      -- The date of the null value is after every day.
      obtain rfl : ⊤ = s := Except.ok.inj hs
      exact absurd hle (not_le.mpr (WithTop.coe_lt_top _))
    | some t =>
      obtain ⟨hstart, rfl⟩ := dated_of_date_ok hs
      exact ⟨t, u, rfl, hu, hstart, hdated, WithTop.coe_le_coe.mp hle⟩
  · rintro ⟨t, _, rfl, hstop, hstart, hdated, hle⟩
    obtain rfl := WithTop.coe_injective (hu.symm.trans hstop)
    obtain ⟨n, hn⟩ : ∃ n, n = t / ticksPerDay := ⟨_, rfl⟩
    obtain ⟨k, hk⟩ : ∃ k : ℕ, u / ticksPerDay = n + k := ⟨(u / ticksPerDay - n).toNat, by omega⟩
    have hday : dayNumber t = n := congrArg _ hn.symm
    have hend : (endDatetime stop).dayNumber = (n + k : ℤ) := by
      rw [hu, ← hk]
      rfl
    refine ⟨_, isDateRange_map hday hend, k + 1, fun fuel hfuel => ?_⟩
    have hcall : getDateRange fuel t stop = .ok (dateLoop (n + k : ℤ) fuel n []) := by
      rw [getDateRange, hu, date_eq hstart, date_eq hdated, hk, ← hn]
      rfl
    rw [hcall, dateLoop_eq (by omega)]
    rfl

/-- From a day to the day before. -/
theorem not_ranges : ¬ ∀ start stop, Ranges start stop := by
  intro h
  obtain ⟨ds, -, steps, hrun⟩ := h (ofDate (Calendar.dayNumber 2024 1 2 : ℤ))
    (ofDate (Calendar.dayNumber 2024 1 1 : ℤ))
  obtain ⟨s, e, hs, he, hloop⟩ := getDateRange_ok (hrun steps le_rfl)
  rw [date_ofDate (by decide)] at hs
  have hstop : endDatetime (ofDate (Calendar.dayNumber 2024 1 1 : ℤ)) =
      ofDate (Calendar.dayNumber 2024 1 1 : ℤ) := if_neg WithTop.coe_ne_top
  rw [hstop, date_ofDate (by decide)] at he
  obtain rfl := Except.ok.inj hs
  obtain rfl := Except.ok.inj he
  have hlt : ((Calendar.dayNumber 2024 1 1 : ℤ) : Date) < (Calendar.dayNumber 2024 1 2 : ℤ) := by
    decide
  rw [dateLoop_eq_none hlt] at hloop
  cases hloop

end HkuUtils.Datetime
