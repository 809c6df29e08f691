import HkuUtils.TimerManager.Daily

set_option relaxedAutoImplicit false
set_option autoImplicit false

/-!
# The occurrences of daily timers

When a daily timer has run, `detectThread` puts it into the queue for the next day, whatever the
time is. If it has run so late that midnight is past and the time of the day is still to come, the
occurrence of that day is left out; `_addFunc` and `start` would schedule the timer for that day.

## Main definitions

* `HkuUtils.TimerManager.occurrences` — the points at a time of the day that are still to come.
* `HkuUtils.TimerManager.Punctual` — a daily timer that has run is scheduled for its next
  occurrence.
* `HkuUtils.TimerManager.PastTimeOfDay` — the condition on the clock.
* `HkuUtils.TimerManager.OnTheHour` — every daily timer in the queue is at its time of the day.

## Main results

* `HkuUtils.TimerManager.step_onTheHour` — one step keeps daily timers at their time.
* `HkuUtils.TimerManager.isLeast_occurrences_iff` — when tomorrow is the next occurrence.
* `HkuUtils.TimerManager.daily_misses_no_day`, `daily_misses_day` — the runs in which no occurrence
  is left out, and one in which one is.
-/

namespace HkuUtils.TimerManager

open Transition

variable {F : Arith} {extended : Bool} {s t : State}

/-! ## Times of the day -/

/-- The time of the day of a point. -/
def timeOfDay (point : ℤ) : ℤ := point - dayOf point

/-- The points after the clock reading that have the time of the day. -/
def occurrences (time : ℤ) (now : Clock) : Set ℤ :=
  {point | timeOfDay point = time ∧ now.now < point}

/-- A time within the day that starts at `d`. -/
lemma timeOfDay_add (d : ℤ) {time : ℤ} (h0 : 0 ≤ time) (h1 : time < day) :
    timeOfDay (dayOf d + time) = time := by
  rw [timeOfDay, dayOf_add d h0 h1]
  omega

/-- A point is its day and its time of the day. -/
lemma dayOf_add_timeOfDay (point : ℤ) : dayOf point + timeOfDay point = point := by
  rw [timeOfDay]
  omega

/-- Days are whole numbers of days. -/
lemma dayOf_eq_mul (point : ℤ) : ∃ n, dayOf point = n * day := ⟨point / day, rfl⟩

/-- **Tomorrow is the next occurrence** exactly if the one of today is not still to come.

**Proof sketch.** If the time of today is still to come, it is an occurrence before the one of
tomorrow. Otherwise an occurrence after now is not on this day, so it is tomorrow or later. -/
theorem isLeast_occurrences_iff (now : Clock) {time : ℤ} (h0 : 0 ≤ time) (h1 : time < day) :
    IsLeast (occurrences time now) (now.today + day + time) ↔ now.today + time ≤ now.now := by
  have hlt := lt_dayOf_add now.now
  constructor
  · intro h
    by_contra hlater
    have htoday : now.today + time ∈ occurrences time now :=
      ⟨timeOfDay_add now.now h0 h1, not_le.1 hlater⟩
    have hle := h.2 htoday
    have hpos := day_pos
    omega
  · intro hpast
    constructor
    · refine ⟨?_, ?_⟩
      · rw [Clock.today, ← dayOf_add_day]
        exact timeOfDay_add (now.now + day) h0 h1
      · rw [Clock.today]
        omega
    · rintro point ⟨htime, hafter⟩
      have hpoint := dayOf_add_timeOfDay point
      rw [htime] at hpoint
      -- The day of such a point is a later one.
      obtain ⟨n, hn⟩ := dayOf_eq_mul point
      obtain ⟨m, hm⟩ := dayOf_eq_mul now.now
      have hdays : m * day < n * day := by
        rw [← hn, ← hm]
        rw [Clock.today] at hpast
        omega
      have hnext : (m + 1) * day ≤ n * day :=
        mul_le_mul_of_nonneg_right (lt_of_mul_lt_mul_right hdays day_pos.le) day_pos.le
      rw [Int.add_mul, Int.one_mul] at hnext
      rw [Clock.today]
      omega

/-! ## The points of daily timers -/

/-- The call creates a daily timer only for points at its time of the day. -/
def AddCall.OnTheHour : AddCall → ℤ → Prop
  | .addFuncAtTimeEveryDay _ _ time, point => timeOfDay point = time
  | _, _ => True

/-- Every daily timer in the queue is at its time of the day. -/
def OnTheHour (s : State) : Prop := Scheduled AddCall.OnTheHour s

/-- Where `_addFunc` and `start` schedule a daily timer. -/
lemma Timer.Daily.timeOfDay_point {timer : Timer} (h : timer.Daily) (now : Clock) :
    timeOfDay (if now.now ≤ timer.startDate + timer.endTime then timer.startDate + timer.endTime
      else dailyPoint timer now) = timer.endTime := by
  have hfirst : dayOf 0 = 0 := rfl
  rw [h.startDate]
  split
  · rw [← hfirst]
    exact timeOfDay_add 0 h.nonneg h.lt_day
  · rw [dailyPoint, Clock.today]
    split
    · rw [Int.add_right_comm, ← dayOf_add_day]
      exact timeOfDay_add _ h.nonneg h.lt_day
    · exact timeOfDay_add _ h.nonneg h.lt_day

/-- Where `detectThread` does: tomorrow at the time of the day of the point that was due. -/
lemma timeOfDay_nextPoint {timer : Timer} (hneg : timer.startTime < 0) {now : Clock}
    {point next : ℤ} (hp : nextPoint timer point now = some (some next)) :
    timeOfDay next = timeOfDay point := by
  have hle := dayOf_le point
  have hlt := lt_dayOf_add point
  rw [nextPoint_eq hneg hp, Clock.today, ← dayOf_add_day, timeOfDay,
    dayOf_add _ (by omega) (by omega), timeOfDay]
  omega

/-- A property that restricts only the daily timers. -/
lemma AddCall.onTheHour_of {call : AddCall} {point : ℤ}
    (h : ∀ a b time, call = .addFuncAtTimeEveryDay a b time → timeOfDay point = time) :
    call.OnTheHour point := by
  cases call with
  | addFuncAtTimeEveryDay a b time => exact h a b time rfl
  | _ => trivial

/-- An entry that is taken is in the queue. -/
lemma mem_of_taken {e : Event} {x : IntervalS} (hx : x ∈ taken s e) : x ∈ s.queue := by
  cases e with
  | examine i again =>
    rw [taken] at hx
    split at hx
    · exact List.mem_of_getElem? (Option.filter_eq_some_iff.1 hx).1
    · cases hx
  | _ => cases hx

/-- Every event puts daily timers into the queue at their time.

**Proof sketch.** One case for each event that schedules; in each of them the point of a daily
timer is a day together with its time. -/
lemma schedules_onTheHour (hk : Known s) (h : OnTheHour s) (e : Event) :
    Schedules F AddCall.OnTheHour s e := by
  cases e with
  | add call f before now =>
    intro timer ht point hp
    apply AddCall.onTheHour_of
    rintro a b time rfl
    obtain ⟨hdaily, rfl, -⟩ := daily_of_timer ht
    rw [firstPoint_eq hdaily.startTime hp, hdaily.timeOfDay_point]
  | rebuild clock =>
    intro x hx call f hm point hp
    apply AddCall.onTheHour_of
    rintro a b time rfl
    have ht := AList.mem_lookup_iff.2 ((List.takeWhile_sublist _).subset hx)
    obtain ⟨hdaily, rfl, -⟩ := hk.daily ht hm
    rw [restartPoint_eq hdaily.startTime hp, hdaily.timeOfDay_point]
  | examine i again =>
    intro x hx timer ht hpos call f hm point hp
    apply AddCall.onTheHour_of
    rintro a b time rfl
    obtain ⟨hdaily, -, -⟩ := hk.daily ht hm
    have hneg : timer.spend.startTime < 0 := by
      rw [timer.spend_eq]
      exact hdaily.startTime
    rw [timeOfDay_nextPoint hneg hp]
    exact h x (mem_of_taken hx) _ f hm
  | _ => trivial

/-- **One step keeps daily timers at their time.** -/
theorem step_onTheHour {e : Event} (hk : Known s) (h : OnTheHour s)
    (hstep : step F extended s e = some t) : OnTheHour t :=
  (step_scheduled_iff hk.sound h hstep).2 (schedules_onTheHour hk h e)

/-! ## Timers that run again -/

/-- Timers that run at a given time and run again are daily timers.

**Proof sketch.** One case for each way to add a timer. The starting time of the others is not
negative, or they run once. -/
lemma Known.everyDay (hk : Known s) {id : ℤ} {timer : Timer}
    (ht : s.timers.lookup id = some timer) (hneg : timer.startTime < 0)
    (hmany : 1 < timer.repeatNum) :
    ∃ a b f, maker id s.log = some (.addFuncAtTimeEveryDay a b timer.endTime, f) := by
  obtain ⟨call, f, before, made, hm, hcall, heq⟩ := hk.made id timer ht
  have hstart : made.startTime < 0 := by
    rw [heq] at hneg
    exact hneg
  cases call with
  | addFunc startDate endDate startTime endTime n duration =>
    simp only [AddCall.timer, Option.bind_eq_some_iff, Option.ite_none_right_eq_some,
      Option.some.injEq] at hcall
    obtain ⟨_, _, _, _, _, _, _, _, hc, rfl⟩ := hcall
    exact absurd hstart (not_lt.2 hc.2.1)
  | addDurationFunc n duration =>
    simp only [AddCall.timer, Option.ite_none_right_eq_some, Option.some.injEq] at hcall
    obtain ⟨_, rfl⟩ := hcall
    exact absurd hstart (lt_irrefl 0)
  | addDelayFunc delay =>
    simp only [AddCall.timer, Option.ite_none_right_eq_some, Option.some.injEq] at hcall
    obtain ⟨_, rfl⟩ := hcall
    exact absurd hstart (lt_irrefl 0)
  | addFuncAtTime timePoint =>
    -- These run once.
    obtain ⟨call', f', hm', hfund⟩ := hk.sound.funded id timer ht
    obtain ⟨rfl, -⟩ := Prod.mk.inj (Option.some.inj (hm.symm.trans hm'))
    rcases hfund with hmax | ⟨-, hle⟩
    · exact absurd (show (1 : ℤ) = maxInt from hmax) (by decide)
    · simp only [AddCall.repeatNum] at hle
      omega
  | addFuncAtTimeEveryDay a b time =>
    obtain ⟨-, htime, -⟩ := daily_of_timer hcall
    refine ⟨a, b, f, ?_⟩
    rw [heq, hm, ← htime]

/-- A timer has something left after a run if it had more than that. -/
lemma Timer.spend_pos_iff (timer : Timer) : 0 < timer.spend.repeatNum ↔ 1 < timer.repeatNum := by
  rw [Timer.spend]
  split
  · next hmax =>
    rw [hmax]
    decide
  · dsimp only
    omega

/-- What a dispatch pushes: the queue has lost the entry and got one for the same timer. -/
def Pushes (s t : State) (i : ℕ) (x : IntervalS) (point : ℤ) : Prop :=
  t.queue = ⟨point, x.timerId⟩ :: s.queue.eraseIdx i

/-- A daily timer that has run is scheduled for its next occurrence after the clock reading. -/
def Punctual (F : Arith) (extended : Bool) (s : State) : Event → Prop
  | .examine i again =>
    ∀ x ∈ taken s (.examine i again), ∀ timer ∈ s.timers.lookup x.timerId,
      timer.startTime < 0 → x.timePoint ≤ again.now →
        ∀ t, step F extended s (.examine i again) = some t →
          ∀ point, Pushes s t i x point → IsLeast (occurrences timer.endTime again) point
  | _ => True

/-- When a daily timer has run, its time of the day is not still to come on the day of the clock
reading. -/
def PastTimeOfDay (s : State) : Event → Prop
  | .examine i again =>
    ∀ x ∈ taken s (.examine i again), ∀ timer ∈ s.timers.lookup x.timerId,
      timer.startTime < 0 → 1 < timer.repeatNum → x.timePoint ≤ again.now →
        again.today + timer.endTime ≤ again.now
  | _ => True

instance decidablePastTimeOfDay (s : State) : ∀ e, Decidable (PastTimeOfDay s e)
  | .examine i again =>
    inferInstanceAs (Decidable
      (∀ x ∈ taken s (.examine i again), ∀ timer ∈ s.timers.lookup x.timerId,
        timer.startTime < 0 → 1 < timer.repeatNum → x.timePoint ≤ again.now →
          again.today + timer.endTime ≤ again.now))
  | .add _ _ _ _ | .rebuild _ | .addNotify | .remove _ | .test _ | .wakeup | .start | .announce
  | .spawn | .stop | .clear | .wake | .join => inferInstanceAs (Decidable True)

/-- **What is pushed for a daily timer**: tomorrow at its time.

**Proof sketch.** One case for how the entry was dispatched. The timer is in the table, so its
entry is the last one or goes back into the queue with its next point. -/
lemma pushes_iff {i : ℕ} {again : Clock} (hk : Known s) (h : OnTheHour s)
    (hstep : step F extended s (.examine i again) = some t) {x : IntervalS}
    (hx : x ∈ taken s (.examine i again)) {timer : Timer}
    (ht : timer ∈ s.timers.lookup x.timerId) (hneg : timer.startTime < 0) {point : ℤ} :
    Pushes s t i x point ↔
      1 < timer.repeatNum ∧ point = again.today + day + timer.endTime := by
  obtain ⟨-, hd⟩ := dispatches_of_taken hstep hx
  have hspend : timer.spend.startTime < 0 := by
    rw [timer.spend_eq]
    exact hneg
  have hnot : ¬ s.queue.eraseIdx i = ⟨point, x.timerId⟩ :: s.queue.eraseIdx i := by
    intro heq
    simpa using congrArg List.length heq
  cases hd with
  | orphan ht' => cases ht.symm.trans ht'
  | last ht' hend =>
    obtain rfl := Option.some.inj (ht.symm.trans ht')
    refine iff_of_false hnot ?_
    rintro ⟨hmany, -⟩
    rcases hend with hle | hended
    · exact absurd ((Timer.spend_pos_iff _).2 hmany) (not_lt.2 hle)
    · obtain ⟨a, b, f, hm⟩ := hk.everyDay ht hneg hmany
      obtain ⟨hdaily, -, hn⟩ := hk.daily ht hm
      rw [Timer.spend, if_pos (hn.resolve_right (by omega))] at hended
      exact hdaily.not_ended _ _ hended
  | @again _ next ht' hpos hp =>
    obtain rfl := Option.some.inj (ht.symm.trans ht')
    have hmany := (Timer.spend_pos_iff _).1 hpos
    obtain ⟨a, b, f, hm⟩ := hk.everyDay ht hneg hmany
    have htime : timeOfDay x.timePoint = timer.endTime := h x (mem_of_taken hx) _ f hm
    have hnext : next = again.today + day + timer.endTime := by
      rw [nextPoint_eq hspend hp, ← htime, timeOfDay]
    simp only [Pushes, List.cons.injEq, IntervalS.mk.injEq, and_true, hmany, true_and, hnext]
    exact eq_comm

/-- **The condition is exact** for a step.

**Proof sketch.** Only an entry that is taken pushes a point, and this is tomorrow at its time,
which is the next occurrence exactly under the condition. -/
theorem punctual_iff_pastTimeOfDay {e : Event} (hk : Known s) (h : OnTheHour s)
    (hstep : step F extended s e = some t) :
    Punctual F extended s e ↔ PastTimeOfDay s e := by
  cases e with
  | examine i again =>
    have hbounds : ∀ x ∈ taken s (.examine i again), ∀ timer ∈ s.timers.lookup x.timerId,
        timer.startTime < 0 → 1 < timer.repeatNum →
          (IsLeast (occurrences timer.endTime again) (again.today + day + timer.endTime) ↔
            again.today + timer.endTime ≤ again.now) := by
      intro x _ timer ht hneg hmany
      obtain ⟨a, b, f, hm⟩ := hk.everyDay ht hneg hmany
      obtain ⟨hdaily, -, -⟩ := hk.daily ht hm
      exact isLeast_occurrences_iff again hdaily.nonneg hdaily.lt_day
    constructor
    · intro hp x hx timer ht hneg hmany hdue
      refine (hbounds x hx timer ht hneg hmany).1 (hp x hx timer ht hneg hdue t hstep _ ?_)
      exact (pushes_iff hk h hstep hx ht hneg).2 ⟨hmany, rfl⟩
    · intro hp x hx timer ht hneg hdue t' hstep' point hpush
      obtain ⟨hmany, rfl⟩ := (pushes_iff hk h hstep' hx ht hneg).1 hpush
      exact (hbounds x hx timer ht hneg hmany).2 (hp x hx timer ht hneg hmany hdue)
  | _ => exact Iff.rfl

/-- **Daily timers miss no day** exactly in the runs in which, each time one has run, its time of
the day is not still to come on the day of the clock reading.

**Proof sketch.** Every daily timer in the queue is at its time of the day, which `step_onTheHour`
keeps. So what is pushed after a run is tomorrow at that time, and this is the next occurrence if
and only if the one of today is not ahead. -/
theorem daily_misses_no_day {s : State} {es : List Event}
    (hrun : (system F extended).run es = some s) :
    (system F extended).Along (Punctual F extended) es ↔
      (system F extended).Along PastTimeOfDay es :=
  System.along_congr (J := fun s => Known s ∧ OnTheHour s)
    ⟨⟨sound_init extended, ofTable_init extended, ofTable_init extended⟩,
      fun e he => by simp [system, init] at he⟩
    (fun _ _ _ h hstep => ⟨step_knownTimers h.1 hstep, step_onTheHour h.1 h.2 hstep⟩)
    (fun _ _ _ h hstep => punctual_iff_pastTimeOfDay h.1 h.2 hstep) hrun

/-- A daily timer that runs an hour before midnight. -/
def beforeMidnight : AddCall :=
  .addFuncAtTimeEveryDay (some newYear.now) (some newYear.now) (day - 3600000000)

/-- The time of that timer on its first day. -/
def lateEvening : Clock := ⟨228278 * day - 3600000000, by decide, by decide⟩

/-- Half an hour after the midnight that follows. -/
def halfPast : Clock := ⟨228278 * day + 1800000000, by decide, by decide⟩

/-- The timer is created, and the detection thread looks at the queue again. -/
def untilEvening (now : Clock) : List Event :=
  startup ++ [.add beforeMidnight 7 newYear newYear, .examine 0 newYear, .addNotify, .test now]

/-- A dispatch at the time of the timer. -/
theorem daily_misses_no_day_evening :
    (system exactArith false).Along (Punctual exactArith false)
      (untilEvening lateEvening ++ [.examine 0 lateEvening]) :=
  (daily_misses_no_day (s := ⟨false, [⟨228279 * day - 3600000000, 0⟩],
    AList.singleton 0 ⟨0, maxDatetime, -day, day - 3600000000, 0, maxInt, 7⟩, 0, true, .idle,
    .testing, 0, [.submitted 0 7, .allocated 0 beforeMidnight 7]⟩) rfl).2 (by decide)

/-- **A daily timer misses a day**: dispatched half an hour after midnight, it is not scheduled for
the evening of that day. -/
theorem daily_misses_day : ∃ es s t, (system exactArith false).run es = some s ∧
    step exactArith false s (.examine 0 halfPast) = some t ∧
    t.queue = [⟨228280 * day - 3600000000, 0⟩] ∧
    228279 * day - 3600000000 ∈ occurrences (day - 3600000000) halfPast ∧
    ¬ Punctual exactArith false s (.examine 0 halfPast) := by
  refine ⟨untilEvening halfPast, _, _, rfl, rfl, rfl, ⟨by decide, by decide⟩, fun h => ?_⟩
  have hleast := h _ rfl _ rfl (by decide) (by decide) _ rfl _ rfl
  have hle := hleast.2 (show 228279 * day - 3600000000 ∈ _ from ⟨by decide, by decide⟩)
  exact absurd hle (by decide)

end HkuUtils.TimerManager
