import Mathlib.Algebra.Order.Ring.Int
import HkuUtils.Datetime.Days

set_option relaxedAutoImplicit false
set_option autoImplicit false

/-!
# The time points of a timer

A timer is created by one of five calls, and from what it was created with three functions compute
when it runs next: `_addFunc` when it is created, `start` when the queue is built again, and
`detectThread` after each run.

## Main definitions

* `HkuUtils.TimerManager.Clock` — what `Datetime::now()` returns.
* `HkuUtils.TimerManager.Timer`, `AddCall` — the timers and the calls that create them.
* `HkuUtils.TimerManager.AddCall.timer` — the checks of a call.
* `HkuUtils.TimerManager.firstPoint`, `restartPoint`, `nextPoint` — the three functions.

## Main results

* `HkuUtils.TimerManager.startOfDay_eq` — the start of the day of a point, where it has a date.

## Design

* A `Datetime` is the number of microseconds since `Datetime::min()`, and `none` is the null value;
  a `TimeDelta` is a number of microseconds. Sums of the two are not checked, but the day of a
  point exists only up to the last day that has a date, so `startOfDay` can throw. It is the
  function of `Datetime`, carried over to the numbers used here.
* A result `none` of a function is an exception.
* The timers that run at intervals within a part of the day use floating-point numbers to find the
  next multiple of the interval. What these give is a parameter.
-/

namespace HkuUtils.TimerManager

/-! ## Dates -/

/-- The microseconds of a day: `TimeDelta(1)`. -/
def day : ℤ := 86400000000

/-- `Datetime::max()`: 9999-12-31, where `Datetime::min()` is 1400-01-01. -/
def maxDatetime : ℤ := 3141084 * day

/-- `std::numeric_limits<int>::max()`. -/
def maxInt : ℤ := 2147483647

/-- The values of the type `int`. -/
abbrev CInt := {n : ℤ // -maxInt - 1 ≤ n ∧ n ≤ maxInt}

/-- What `Datetime::now()` returns: a point of a day that has a date. -/
structure Clock where
  now : ℤ
  min_le : 0 ≤ now
  lt_end : now < maxDatetime + day
  deriving DecidableEq

/-- The start of the day of a point. -/
def dayOf (point : ℤ) : ℤ := point / day * day

/-- The microseconds from the day `0` of the calendar to `Datetime::min()`. -/
def epoch : ℤ := Datetime.minDay * Datetime.ticksPerDay

/-- `Datetime::startOfDay`, which throws for a point that has no date. -/
def startOfDay (point : ℤ) : Option ℤ :=
  match Datetime.startOfDay (epoch + point : ℤ) with
  | .ok (d : ℤ) => some (d - epoch)
  | .ok ⊤ => none
  | .error _ => none

/-- **The start of the day of a point**: there is one from `Datetime::min()` to the end of the last
day that has a date. -/
lemma startOfDay_eq (point : ℤ) : startOfDay point =
    if 0 ≤ point ∧ point < maxDatetime + day then some (dayOf point) else none := by
  have hmax : Datetime.maxDay = Datetime.minDay + 3141084 := by decide
  have hdated : Datetime.Dated (epoch + point) ↔ 0 ≤ point ∧ point < maxDatetime + day := by
    rw [Datetime.Dated, hmax]
    unfold epoch Datetime.ticksPerDay maxDatetime day
    omega
  by_cases h : 0 ≤ point ∧ point < maxDatetime + day
  · have hday : (epoch + point) / Datetime.ticksPerDay * Datetime.ticksPerDay - epoch =
        dayOf point := by
      unfold epoch dayOf day Datetime.ticksPerDay
      omega
    delta startOfDay
    rw [if_pos h, Datetime.startOfDay_eq (hdated.mpr h), ← hday]
    rfl
  · delta startOfDay
    rw [if_neg h, Datetime.startOfDay, Datetime.date_error (mt hdated.mp h)]
    rfl

/-- A start of a day that `startOfDay` has found is that of a point with a date. -/
lemma of_startOfDay {point d : ℤ} (h : startOfDay point = some d) :
    (0 ≤ point ∧ point < maxDatetime + day) ∧ dayOf point = d := by
  rwa [startOfDay_eq, Option.ite_none_right_eq_some, Option.some.injEq] at h

/-- The day of a clock reading. -/
def Clock.today (c : Clock) : ℤ := dayOf c.now

/-- A day is not empty. -/
lemma day_pos : 0 < day := by decide

/-- The day of a point starts at or before the point. -/
lemma dayOf_le (point : ℤ) : dayOf point ≤ point := Int.ediv_mul_le point day_pos.ne'

/-- The day of a point ends after the point. -/
lemma lt_dayOf_add (point : ℤ) : point < dayOf point + day := by
  have := Int.lt_ediv_add_one_mul_self point day_pos
  rwa [Int.add_mul, Int.one_mul] at this

/-- A point within a day belongs to that day. -/
lemma dayOf_add (d : ℤ) {time : ℤ} (h0 : 0 ≤ time) (h1 : time < day) :
    dayOf (dayOf d + time) = dayOf d := by
  have hday : day ≠ 0 := day_pos.ne'
  rw [dayOf, dayOf, Int.add_comm, Int.add_mul_ediv_right _ _ hday,
    Int.ediv_eq_zero_of_lt h0 h1, Int.zero_add]

/-- The next day starts a day later. -/
lemma dayOf_add_day (point : ℤ) : dayOf (point + day) = dayOf point + day := by
  have hday : day ≠ 0 := day_pos.ne'
  rw [dayOf, dayOf, Int.add_ediv_of_dvd_right (Int.dvd_refl day), Int.ediv_self hday, Int.add_mul,
    Int.one_mul]

/-! ## Timers -/

/-- What the floating-point operations on durations give. -/
structure Arith where
  /-- `int(gap / duration)`. -/
  quotient : ℤ → ℤ → ℤ
  /-- `duration * double(x)`, which throws if the product is out of range. -/
  times : ℤ → ℤ → Option ℤ

/-- `Timer`. The number `func` stands for the function. Times and dates are in ticks of a
microsecond. -/
structure Timer where
  startDate : ℤ
  endDate : ℤ
  /-- Negative for the timers that run at a given time of the day, which is `endTime`. -/
  startTime : ℤ
  endTime : ℤ
  duration : ℤ
  repeatNum : ℤ
  func : ℕ
  deriving DecidableEq

/-- The calls that create a timer, with their arguments. -/
inductive AddCall where
  | addFunc (startDate endDate : Option ℤ) (startTime endTime : ℤ) (repeatNum : CInt)
      (duration : ℤ)
  | addDurationFunc (repeatNum : CInt) (duration : ℤ)
  | addDelayFunc (delay : ℤ)
  | addFuncAtTime (timePoint : Option ℤ)
  | addFuncAtTimeEveryDay (startDate endDate : Option ℤ) (time : ℤ)
  deriving DecidableEq

/-- The repeat number of the timer that a call creates. -/
def AddCall.repeatNum : AddCall → ℤ
  | .addFunc _ _ _ _ n _ => n
  | .addDurationFunc n _ => n
  | .addDelayFunc _ => 1
  | .addFuncAtTime _ => 1
  | .addFuncAtTimeEveryDay _ _ _ => maxInt

/-- The checks of a call and what it gives to `_addFunc`; `addFuncAtTime` reads the clock. A check
that fails throws. -/
def AddCall.timer (f : ℕ) (before : Clock) : AddCall → Option Timer
  | .addFunc startDate endDate startTime endTime n duration =>
    startDate.bind fun startDate => endDate.bind fun endDate =>
      (startOfDay startDate).bind fun start => (startOfDay endDate).bind fun stop =>
        if start ≤ stop ∧ 0 ≤ startTime ∧ startTime < day ∧ 0 ≤ endTime ∧ endTime < day ∧
            startTime ≤ endTime ∧ 0 < n.1 ∧ 0 < duration then
          some ⟨start, stop, startTime, endTime, duration, n, f⟩
        else none
  | .addDurationFunc n duration =>
    if 0 < n.1 ∧ 0 < duration then some ⟨0, maxDatetime, 0, 0, duration, n, f⟩ else none
  | .addDelayFunc delay =>
    if 0 < delay then some ⟨0, maxDatetime, 0, 0, delay, 1, f⟩ else none
  | .addFuncAtTime timePoint =>
    timePoint.bind fun timePoint =>
      if before.now < timePoint then
        (startOfDay timePoint).map fun pointDate =>
          ⟨pointDate, maxDatetime, -day, timePoint - pointDate, 0, 1, f⟩
      else none
  | .addFuncAtTimeEveryDay startDate endDate time =>
    startDate.bind fun startDate => endDate.bind fun endDate =>
      if 0 ≤ time ∧ time < day then
        (startOfDay startDate).bind fun start => (startOfDay endDate).bind fun stop =>
          if start ≤ stop then some ⟨0, maxDatetime, -day, time, 0, maxInt, f⟩ else none
      else none

/-- A timer starts with the repeat number of its call, which is positive.

**Proof sketch.** One case for each call: it checks the number, or has the number one of its own. -/
lemma AddCall.repeatNum_of_timer {call : AddCall} {f : ℕ} {before : Clock} {timer : Timer}
    (h : call.timer f before = some timer) :
    timer.repeatNum = call.repeatNum ∧ 0 < call.repeatNum ∧ call.repeatNum ≤ maxInt := by
  have hone : (1 : ℤ) ≤ maxInt := by decide
  cases call with
  | addFunc startDate endDate startTime endTime n duration =>
    simp only [AddCall.timer, Option.bind_eq_some_iff, Option.ite_none_right_eq_some,
      Option.some.injEq] at h
    obtain ⟨_, _, _, _, _, _, _, _, hc, rfl⟩ := h
    exact ⟨rfl, hc.2.2.2.2.2.2.1, n.2.2⟩
  | addDurationFunc n duration =>
    simp only [AddCall.timer, Option.ite_none_right_eq_some, Option.some.injEq] at h
    obtain ⟨hc, rfl⟩ := h
    exact ⟨rfl, hc.1, n.2.2⟩
  | addDelayFunc delay =>
    simp only [AddCall.timer, Option.ite_none_right_eq_some, Option.some.injEq] at h
    obtain ⟨_, rfl⟩ := h
    exact ⟨rfl, one_pos, hone⟩
  | addFuncAtTime timePoint =>
    simp only [AddCall.timer, Option.bind_eq_some_iff, Option.ite_none_right_eq_some,
      Option.map_eq_some_iff] at h
    obtain ⟨_, _, _, _, _, rfl⟩ := h
    exact ⟨rfl, one_pos, hone⟩
  | addFuncAtTimeEveryDay startDate endDate time =>
    simp only [AddCall.timer, Option.bind_eq_some_iff, Option.ite_none_right_eq_some,
      Option.some.injEq] at h
    obtain ⟨_, _, _, _, _, _, _, _, _, _, rfl⟩ := h
    exact ⟨rfl, hone, le_rfl⟩

/-! ## When a timer runs -/

/-- Today at the time of the timer, or tomorrow if that is past. -/
def dailyPoint (timer : Timer) (now : Clock) : ℤ :=
  if now.today + timer.endTime < now.now then now.today + timer.endTime + day
  else now.today + timer.endTime

/-- The first point of a timer that runs at intervals, which `_addFunc` and `start` compute
alike. -/
def intervalPoint (F : Arith) (timer : Timer) (now : Clock) : Option ℤ :=
  let point :=
    if now.today ≤ timer.startDate then timer.startDate + timer.startTime + timer.duration
    else now.now + timer.duration
  if timer.startTime = timer.endTime then some point
  else
    (startOfDay point).bind fun pointDate =>
      if point - pointDate < timer.startTime then some (pointDate + timer.startTime)
      else if timer.endTime < point - pointDate then some (pointDate + timer.startTime + day)
      else if timer.duration = 0 then none
      else if (point - pointDate - timer.startTime).tmod timer.duration ≠ 0 then
        (F.times timer.duration
            (F.quotient (point - pointDate - timer.startTime) timer.duration + 1)).map fun x =>
          pointDate + timer.startTime + x
      else some point

/-- The last point at which the timer may run is before the given one. -/
def Timer.endsBefore (timer : Timer) (point : ℤ) : Prop :=
  timer.endDate ≠ maxDatetime ∧ timer.endDate + timer.endTime < point

instance (timer : Timer) (point : ℤ) : Decidable (timer.endsBefore point) :=
  inferInstanceAs (Decidable (_ ∧ _))

/-- What `_addFunc` checks and computes before it locks the mutex. -/
def firstPoint (F : Arith) (timer : Timer) (now : Clock) : Option ℤ :=
  if timer.endDate < now.today ∨ timer.endsBefore now.now then none
  else if timer.startTime < 0 then
    if now.now ≤ timer.startDate + timer.endTime then some (timer.startDate + timer.endTime)
    else if timer.repeatNum ≤ 1 then none
    else some (dailyPoint timer now)
  else intervalPoint F timer now

/-- What `start` computes for a timer that exists: `some none` if it is invalid. -/
def restartPoint (F : Arith) (timer : Timer) (now : Clock) : Option (Option ℤ) :=
  if timer.repeatNum ≤ 0 ∨ timer.endsBefore now.now then some none
  else if timer.startTime < 0 then
    if now.now ≤ timer.startDate + timer.endTime then
      some (some (timer.startDate + timer.endTime))
    else if timer.repeatNum ≤ 1 then some none
    else some (some (dailyPoint timer now))
  else (intervalPoint F timer now).map some

/-- The point after `point`, which `detectThread` computes before it looks at the end date. -/
def followingPoint (timer : Timer) (point : ℤ) (now : Clock) : Option ℤ :=
  if 0 ≤ timer.startTime then
    -- The second case is a clock that was set forward.
    let next := if point + timer.duration < now.now then now.now else point + timer.duration
    if timer.startTime ≠ timer.endTime ∧ now.today + timer.endTime < next then
      some (now.today + timer.startTime + day)
    else some next
  else (startOfDay point).map fun d => point + (now.today - d + day)

/-- What `detectThread` computes after a run: `some none` if the timer has ended. -/
def nextPoint (timer : Timer) (point : ℤ) (now : Clock) : Option (Option ℤ) :=
  (followingPoint timer point now).map fun next =>
    if timer.endsBefore next then none else some next

end HkuUtils.TimerManager
