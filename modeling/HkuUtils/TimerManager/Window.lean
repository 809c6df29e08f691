import Mathlib.Data.List.TakeWhile
import HkuUtils.TimerManager.Schedule

set_option relaxedAutoImplicit false
set_option autoImplicit false

/-!
# The time window of repeating timers

`addFunc` creates a timer that runs at intervals within a part of the day, on the days of a range.
Its points are rounded up to a multiple of the interval, or moved to the start of the part of some
day, when it is created and when `start` builds the queue again; when it has run, the next point is
an interval later, or the clock reading, or the start of the part of the next day.

## Main definitions

* `HkuUtils.TimerManager.AddCall.Allows` — the points that a call allows.
* `HkuUtils.TimerManager.Timer.InWindow` — the same for its timer.
* `HkuUtils.TimerManager.Timer.Fits` — when the first point of a timer is in its window.
* `HkuUtils.TimerManager.Timer.OnTime` — when the next point is.
* `HkuUtils.TimerManager.InHours` — the condition on the steps.

## Main results

* `HkuUtils.TimerManager.intervalPoint_inWindow_iff`, `nextPoint_inWindow_iff` — the two cases.
* `HkuUtils.TimerManager.window_kept`, `window_left` — the runs in which timers keep to their
  windows, and three that leave them.
-/

namespace HkuUtils.TimerManager

open Transition

variable {F : Arith} {extended : Bool} {s t : State}

/-! ## Windows -/

/-- The call creates a timer that runs in a part of the day. -/
def AddCall.Windowed : AddCall → Prop
  | .addFunc _ _ startTime endTime _ _ => startTime < endTime
  | _ => False

instance : DecidablePred AddCall.Windowed
  | .addFunc _ _ startTime endTime _ _ => inferInstanceAs (Decidable (startTime < endTime))
  | .addDurationFunc _ _ | .addDelayFunc _ | .addFuncAtTime _ | .addFuncAtTimeEveryDay _ _ _ =>
    isFalse id

/-- The call allows its timer to run at the point: on a day from the start date to the end date, and
at a time of the day from the start time to the end time. Only the timers that run in a part of the
day are restricted here. -/
def AddCall.Allows : AddCall → ℤ → Prop
  | .addFunc (some startDate) (some endDate) startTime endTime _ _, point =>
    startTime < endTime → (dayOf startDate ≤ dayOf point ∧ dayOf point ≤ dayOf endDate) ∧
      startTime ≤ point - dayOf point ∧ point - dayOf point ≤ endTime
  | _, _ => True

/-- The point is in the window of the timer. -/
def Timer.InWindow (timer : Timer) (point : ℤ) : Prop :=
  (timer.startDate ≤ dayOf point ∧ dayOf point ≤ timer.endDate) ∧
    timer.startTime ≤ point - dayOf point ∧ point - dayOf point ≤ timer.endTime

instance (timer : Timer) (point : ℤ) : Decidable (timer.InWindow point) :=
  inferInstanceAs (Decidable (_ ∧ _))

/-- A timer that runs in a part of the day. -/
structure Timer.Windowed (timer : Timer) : Prop where
  startDate : dayOf timer.startDate = timer.startDate
  endDate : dayOf timer.endDate = timer.endDate
  endDate_le : timer.endDate ≤ maxDatetime
  nonneg : 0 ≤ timer.startTime
  lt : timer.startTime < timer.endTime
  lt_day : timer.endTime < day
  pos : 0 < timer.duration

/-- The start of a day. -/
lemma dayOf_dayOf (point : ℤ) : dayOf (dayOf point) = dayOf point := by
  simpa using dayOf_add point le_rfl day_pos

/-- The days are a day apart. -/
lemma dayOf_le_dayOf {a b : ℤ} (h : dayOf a < dayOf b + day) : dayOf a ≤ dayOf b := by
  rw [← dayOf_add_day, dayOf, dayOf] at h
  have hlt := lt_of_mul_lt_mul_right h day_pos.le
  have hnext : (b + day) / day = b / day + 1 := by
    rw [Int.add_ediv_of_dvd_right (Int.dvd_refl day), Int.ediv_self day_pos.ne']
  exact mul_le_mul_of_nonneg_right (by omega) day_pos.le

/-- A later point is not on an earlier day. -/
lemma dayOf_mono {a b : ℤ} (h : a ≤ b) : dayOf a ≤ dayOf b :=
  mul_le_mul_of_nonneg_right (Int.ediv_le_ediv day_pos h) day_pos.le

/-- The points of a day. -/
lemma inWindow_iff {timer : Timer} {d point : ℤ} (hd : dayOf point = d) :
    timer.InWindow point ↔ (timer.startDate ≤ d ∧ d ≤ timer.endDate) ∧
      timer.startTime ≤ point - d ∧ point - d ≤ timer.endTime := by
  rw [Timer.InWindow, hd]

/-- The timers that `addFunc` makes. -/
lemma windowed_of_timer {call : AddCall} {f : ℕ} {before : Clock} {timer : Timer}
    (h : call.timer f before = some timer) (hw : call.Windowed) :
    timer.Windowed ∧ ∀ point, call.Allows point ↔ timer.InWindow point := by
  cases call with
  | addFunc startDate endDate startTime endTime n duration =>
    simp only [AddCall.timer, Option.bind_eq_some_iff, Option.ite_none_right_eq_some,
      Option.some.injEq] at h
    obtain ⟨a, rfl, b, rfl, start, hstart, stop, hstop, hc, rfl⟩ := h
    obtain ⟨-, rfl⟩ := of_startOfDay hstart
    obtain ⟨hrange, rfl⟩ := of_startOfDay hstop
    obtain ⟨-, hnonneg, -, -, hlt_day, -, -, hpos⟩ := hc
    refine ⟨⟨dayOf_dayOf a, dayOf_dayOf b, ?_, hnonneg, hw, hlt_day, hpos⟩, fun point => ?_⟩
    · have hmax : dayOf maxDatetime = maxDatetime := rfl
      rw [← hmax]
      refine dayOf_le_dayOf ?_
      rw [hmax]
      exact (dayOf_le b).trans_lt hrange.2
    · exact forall_prop_of_true hw
  | _ => cases hw

/-! ## The first point -/

/-- When the timer would run first, on any day and at any time. -/
def Timer.due (timer : Timer) (now : Clock) : ℤ :=
  if now.today ≤ timer.startDate then timer.startDate + timer.startTime + timer.duration
  else now.now + timer.duration

/-- Where the first point of a timer ends up in its window: if it is due before the window opens,
the day has to be in the range; if after it has closed, the next day; and if it is due in the window
but not at a multiple of the interval, then the next multiple has to be in a window. -/
def Timer.Fits (F : Arith) (timer : Timer) (now : Clock) : Prop :=
  let d := dayOf (timer.due now)
  let gap := timer.due now - d - timer.startTime
  if timer.endTime < timer.due now - d then d + day ≤ timer.endDate
  else if 0 < gap ∧ gap % timer.duration ≠ 0 then
    ∀ x ∈ F.times timer.duration (F.quotient gap timer.duration + 1),
      timer.InWindow (d + timer.startTime + x)
  else d ≤ timer.endDate

instance (timer : Timer) (now : Clock) : Decidable (timer.Fits F now) := by
  unfold Timer.Fits
  infer_instance

/-- The day of the first point is not before the start date. -/
lemma Timer.Windowed.startDate_le {timer : Timer} (h : timer.Windowed) (now : Clock) :
    timer.startDate ≤ dayOf (timer.due now) := by
  rw [← h.startDate]
  refine dayOf_mono ?_
  have hnow := dayOf_le now.now
  have hstart := h.nonneg
  have hpos := h.pos
  rw [Timer.due]
  split
  · omega
  · next hlate =>
    rw [Clock.today] at hlate
    omega

/-- The first point, from when the timer would run first. -/
lemma intervalPoint_of_ne {timer : Timer} (h : timer.startTime ≠ timer.endTime) (now : Clock) :
    intervalPoint F timer now =
      (startOfDay (timer.due now)).bind fun d =>
        if timer.due now - d < timer.startTime then some (d + timer.startTime)
        else if timer.endTime < timer.due now - d then some (d + timer.startTime + day)
        else if timer.duration = 0 then none
        else if (timer.due now - d - timer.startTime).tmod timer.duration ≠ 0 then
          (F.times timer.duration
              (F.quotient (timer.due now - d - timer.startTime) timer.duration + 1)).map fun x =>
            d + timer.startTime + x
        else some (timer.due now) := by
  rw [intervalPoint, if_neg h]
  rfl

/-- **The first point is in the window** exactly if the timer fits.

**Proof sketch.** By cases on whether the window opens later, has been open, or is over for the
day. The point is the opening, or the next multiple of the duration behind it, or the opening of
the next day. -/
lemma intervalPoint_inWindow_iff {timer : Timer} (h : timer.Windowed) {now : Clock} {point : ℤ}
    (hp : intervalPoint F timer now = some point) : timer.InWindow point ↔ timer.Fits F now := by
  have hlt := h.lt
  have hnonneg := h.nonneg
  have hlt_day := h.lt_day
  have hstart := h.startDate_le now
  have hday := day_pos
  rw [intervalPoint_of_ne hlt.ne] at hp
  obtain ⟨d, hd, hp⟩ := Option.bind_eq_some_iff.1 hp
  obtain ⟨-, rfl⟩ := of_startOfDay hd
  have hopens : dayOf (dayOf (timer.due now) + timer.startTime) = dayOf (timer.due now) :=
    dayOf_add _ hnonneg (hlt.trans hlt_day)
  simp only [Timer.Fits]
  split at hp
  · next hearly =>
    obtain rfl := Option.some.inj hp
    rw [inWindow_iff hopens, if_neg (by omega), if_neg (by omega)]
    omega
  · next hlate =>
    split at hp
    · next hpast =>
      obtain rfl := Option.some.inj hp
      rw [inWindow_iff ((dayOf_add_day _).trans (congrArg (· + day) hopens)), if_pos hpast]
      omega
    · next hwithin =>
      have hgap : 0 ≤ timer.due now - dayOf (timer.due now) - timer.startTime := by omega
      rw [if_neg h.pos.ne', Int.tmod_eq_emod_of_nonneg hgap] at hp
      rw [if_neg hwithin]
      split at hp
      · next hbetween =>
        have hpos : timer.due now - dayOf (timer.due now) - timer.startTime ≠ 0 := by
          intro hzero
          rw [hzero, Int.zero_emod] at hbetween
          exact hbetween rfl
        obtain ⟨x, hx, rfl⟩ := Option.map_eq_some_iff.1 hp
        rw [if_pos ⟨by omega, hbetween⟩, hx]
        simp
      · next hmultiple =>
        obtain rfl := Option.some.inj hp
        rw [if_neg fun hc => hmultiple hc.2, Timer.InWindow]
        omega

/-! ## The next point -/

/-- When the timer has run: the next point is an interval later, or the clock reading if that is
later still. If the window of the day of the clock has not closed by then it has to have opened,
and if it has closed the next day has to be in the range, unless the timer has ended. -/
def Timer.OnTime (timer : Timer) (point : ℤ) (now : Clock) : Prop :=
  let next := max (point + timer.duration) now.now
  if next ≤ now.today + timer.endTime then
    timer.endsBefore next ∨
      timer.startDate ≤ now.today ∧ now.today + timer.startTime ≤ next
  else
    timer.endsBefore (now.today + timer.startTime + day) ∨
      timer.startDate ≤ now.today + day ∧ now.today < maxDatetime

instance (timer : Timer) (point : ℤ) (now : Clock) : Decidable (timer.OnTime point now) := by
  unfold Timer.OnTime
  infer_instance

/-- The next point, from the later one of the clock reading and an interval after the last point. -/
lemma followingPoint_windowed {timer : Timer} (h : timer.Windowed) (point : ℤ) (now : Clock) :
    followingPoint timer point now =
      some (if max (point + timer.duration) now.now ≤ now.today + timer.endTime then
        max (point + timer.duration) now.now else now.today + timer.startTime + day) := by
  have hmax : (if point + timer.duration < now.now then now.now else point + timer.duration) =
      max (point + timer.duration) now.now := by
    split
    · next hlt => rw [max_eq_right hlt.le]
    · next hle => rw [max_eq_left (not_lt.1 hle)]
  rw [followingPoint, if_pos h.nonneg]
  dsimp only
  rw [hmax]
  split
  · next hpast => rw [if_neg (not_le.2 hpast.2)]
  · next hwithin => rw [if_pos (not_lt.1 fun hpast => hwithin ⟨h.lt.ne, hpast⟩)]

/-- What comes after a point, unless the timer has ended. -/
lemma nextPoint_iff {timer : Timer} {point following : ℤ} {now : Clock}
    (hf : followingPoint timer point now = some following) (P : ℤ → Prop) :
    (∀ next, nextPoint timer point now = some (some next) → P next) ↔
      timer.endsBefore following ∨ P following := by
  rw [nextPoint, hf, Option.map_some]
  by_cases hends : timer.endsBefore following
  · simp [hends]
  · simp [hends]

/-- A day that has a point before the timer ends is in its range. -/
lemma Timer.Windowed.le_endDate {timer : Timer} (h : timer.Windowed) {a point : ℤ}
    (hends : ¬ timer.endsBefore point) (hle : dayOf a ≤ point) (hmax : dayOf a ≤ maxDatetime) :
    dayOf a ≤ timer.endDate := by
  by_cases hlast : timer.endDate = maxDatetime
  · exact hlast ▸ hmax
  · have hpoint : point ≤ timer.endDate + timer.endTime := not_lt.1 fun hlt => hends ⟨hlast, hlt⟩
    have hlt_day := h.lt_day
    rw [← h.endDate] at hpoint ⊢
    exact dayOf_le_dayOf (by omega)

/-- **The next point is in the window** exactly if the timer is on time.

**Proof sketch.** By cases on where the later of the next point and the present lies in the window
of its day. -/
lemma nextPoint_inWindow_iff {timer : Timer} (h : timer.Windowed) {point : ℤ} {now : Clock} :
    (∀ next, nextPoint timer point now = some (some next) → timer.InWindow next) ↔
      timer.OnTime point now := by
  have hlt := h.lt
  have hnonneg := h.nonneg
  have hlt_day := h.lt_day
  have htoday : now.today ≤ now.now := dayOf_le now.now
  have hmax : dayOf maxDatetime = maxDatetime := rfl
  have hlast : now.today ≤ maxDatetime := by
    rw [← hmax]
    exact dayOf_le_dayOf ((dayOf_le now.now).trans_lt now.lt_end)
  rw [nextPoint_iff (followingPoint_windowed h point now), Timer.OnTime]
  have hlater : now.now ≤ max (point + timer.duration) now.now := le_max_right _ _
  generalize max (point + timer.duration) now.now = next at hlater
  split
  · next hopen =>
    refine or_congr_right' fun hends => ?_
    have hday : dayOf next = now.today := by
      have hsame : dayOf (now.today + (next - now.today)) = now.today :=
        dayOf_add now.now (by omega) (by omega)
      rwa [add_sub_cancel] at hsame
    have hend : now.today ≤ timer.endDate := h.le_endDate hends (htoday.trans hlater) hlast
    rw [inWindow_iff hday]
    omega
  · next hclosed =>
    refine or_congr_right' fun hends => ?_
    have hday : dayOf (now.today + timer.startTime + day) = now.today + day := by
      rw [dayOf_add_day, Clock.today, dayOf_add _ hnonneg (hlt.trans hlt_day)]
    have hend : now.today < maxDatetime → now.today + day ≤ timer.endDate := fun hlt => by
      have htomorrow : dayOf (now.now + day) = now.today + day := dayOf_add_day now.now
      have hle : dayOf (now.now + day) ≤ maxDatetime := by
        rw [← hmax]
        refine dayOf_le_dayOf ?_
        rw [htomorrow, hmax]
        omega
      rw [← htomorrow]
      exact h.le_endDate hends (by omega) hle
    have hend_max := h.endDate_le
    have hday_pos := day_pos
    rw [inWindow_iff hday]
    constructor
    · rintro ⟨⟨hstart, hend⟩, -⟩
      exact ⟨hstart, by omega⟩
    · rintro ⟨hstart, hlast⟩
      have := hend hlast
      omega

/-! ## Runs -/

/-- Every point in the queue is in the window of its timer. -/
def WithinWindow (s : State) : Prop := Scheduled AddCall.Allows s

/-- **The condition on the steps**: whenever a timer that runs in a part of the day is created, and
whenever `start` comes to it and it was not removed and has not ended, its first point ends up in
its window; and whenever it has run and has something left, it is on time. -/
def InHours (F : Arith) (s : State) : Event → Prop
  | .add call f before now =>
    call.Windowed → ∀ timer ∈ call.timer f before, timer.Fits F now
  | .rebuild clock =>
    ∀ x ∈ s.timers.entries.takeWhile fun x => (restartPoint F x.2 (clock x.1)).isSome,
      0 < x.2.repeatNum → ¬ x.2.endsBefore (clock x.1).now →
        ∀ m ∈ maker x.1 s.log, m.1.Windowed → x.2.Fits F (clock x.1)
  | .examine i again =>
    ∀ x ∈ taken s (.examine i again), ∀ timer ∈ s.timers.lookup x.timerId,
      0 < timer.spend.repeatNum →
        ∀ m ∈ maker x.timerId s.log, m.1.Windowed → timer.OnTime x.timePoint again
  | _ => True

instance decidableInHours (s : State) : ∀ e, Decidable (InHours F s e)
  | .add call f before now =>
    inferInstanceAs (Decidable (call.Windowed → ∀ timer ∈ call.timer f before, timer.Fits F now))
  | .rebuild clock =>
    inferInstanceAs (Decidable
      (∀ x ∈ s.timers.entries.takeWhile fun x => (restartPoint F x.2 (clock x.1)).isSome,
        0 < x.2.repeatNum → ¬ x.2.endsBefore (clock x.1).now →
          ∀ m ∈ maker x.1 s.log, m.1.Windowed → x.2.Fits F (clock x.1)))
  | .examine i again =>
    inferInstanceAs (Decidable
      (∀ x ∈ taken s (.examine i again), ∀ timer ∈ s.timers.lookup x.timerId,
        0 < timer.spend.repeatNum →
          ∀ m ∈ maker x.timerId s.log, m.1.Windowed → timer.OnTime x.timePoint again))
  | .addNotify | .remove _ | .test _ | .wakeup | .start | .announce | .spawn | .stop | .clear
  | .wake | .join => inferInstanceAs (Decidable True)

/-- A call that does not restrict its timer allows every point. -/
lemma AddCall.allows_of_not_windowed {call : AddCall} (h : ¬ call.Windowed) (point : ℤ) :
    call.Allows point := by
  cases call with
  | addFunc startDate endDate startTime endTime n duration =>
    cases startDate with
    | none => trivial
    | some a =>
      cases endDate with
      | none => trivial
      | some b => exact fun hlt => absurd hlt h
  | _ => trivial

/-- The timers of the table that run in a part of the day, by their calls. -/
lemma windowed_of_made {id : ℤ} {timer : Timer} {log : List Record} (hmade : Made id timer log)
    {call : AddCall} {f : ℕ} (hm : maker id log = some (call, f)) (hw : call.Windowed) :
    timer.Windowed ∧ ∀ point, call.Allows point ↔ timer.InWindow point := by
  obtain ⟨call', f', before, made, hm', hcall, heq⟩ := hmade
  obtain ⟨rfl, rfl⟩ := Prod.mk.inj (Option.some.inj (hm'.symm.trans hm))
  obtain ⟨hwindowed, hallows⟩ := windowed_of_timer hcall hw
  rw [heq]
  exact ⟨⟨hwindowed.1, hwindowed.2, hwindowed.3, hwindowed.4, hwindowed.5, hwindowed.6,
    hwindowed.7⟩, hallows⟩

/-- A run leaves a timer as its call has made it. -/
lemma Made.spend {id : ℤ} {timer : Timer} {log : List Record} (h : Made id timer log) :
    Made id timer.spend log := by
  obtain ⟨call, f, before, made, hm, hcall, heq⟩ := h
  refine ⟨call, f, before, made, hm, hcall, ?_⟩
  rw [timer.spend_eq, heq]

/-- Where `_addFunc` schedules a timer that runs at intervals. -/
lemma intervalPoint_of_firstPoint {timer : Timer} (h : timer.Windowed) {now : Clock} {point : ℤ}
    (hp : firstPoint F timer now = some point) : intervalPoint F timer now = some point := by
  rw [firstPoint, Option.ite_none_left_eq_some, if_neg (not_lt.2 h.nonneg)] at hp
  exact hp.2

/-- Where `start` schedules a timer that runs at intervals. -/
lemma restartPoint_eq_some_iff {timer : Timer} (h : timer.Windowed) {now : Clock} {point : ℤ} :
    restartPoint F timer now = some (some point) ↔
      0 < timer.repeatNum ∧ ¬ timer.endsBefore now.now ∧
        intervalPoint F timer now = some point := by
  rw [restartPoint, if_neg (not_lt.2 h.nonneg)]
  split
  · next hinvalid =>
    refine iff_of_false (by simp) ?_
    rintro ⟨hpos, hends, -⟩
    exact hinvalid.elim (not_le.2 hpos) hends
  · next hvalid =>
    obtain ⟨hpos, hends⟩ := not_or.1 hvalid
    simp [not_le.1 hpos, hends]

/-- Whether `start` schedules a timer where it may run. -/
lemma restartPoint_inWindow_iff {timer : Timer} (h : timer.Windowed) {now : Clock}
    (hsome : (restartPoint F timer now).isSome = true) :
    (∀ point, restartPoint F timer now = some (some point) → timer.InWindow point) ↔
      (0 < timer.repeatNum → ¬ timer.endsBefore now.now → timer.Fits F now) := by
  constructor
  · intro hall hpos hends
    obtain ⟨point, hpoint⟩ : ∃ point, intervalPoint F timer now = some point := by
      rw [restartPoint, if_neg (by simp [not_le.2 hpos, hends]), if_neg (not_lt.2 h.nonneg),
        Option.isSome_map] at hsome
      exact Option.isSome_iff_exists.1 hsome
    have hp := (restartPoint_eq_some_iff h).2 ⟨hpos, hends, hpoint⟩
    exact (intervalPoint_inWindow_iff h hpoint).1 (hall point hp)
  · intro hfits point hp
    obtain ⟨hpos, hends, hpoint⟩ := (restartPoint_eq_some_iff h).1 hp
    exact (intervalPoint_inWindow_iff h hpoint).2 (hfits hpos hends)

/-- The condition does not depend on the repeat number. -/
lemma onTime_spend (timer : Timer) (point : ℤ) (now : Clock) :
    timer.spend.OnTime point now ↔ timer.OnTime point now := by
  rw [timer.spend_eq]
  exact Iff.rfl

/-- **The condition says which points are scheduled.**

**Proof sketch.** One case for each event that schedules, with the lemma for its point; timers
without a window are not asked about. -/
lemma schedules_iff_inHours {e : Event} (hmade : OfTable Made s)
    (hstep : step F extended s e = some t) : Schedules F AddCall.Allows s e ↔ InHours F s e := by
  cases e with
  | add call f before now =>
    obtain ⟨timer, ht, h⟩ := Option.bind_eq_some_iff.1 hstep
    obtain ⟨point, hp, -⟩ := Option.bind_eq_some_iff.1 h
    simp only [Schedules, InHours, ht, hp, Option.some.injEq, Option.mem_def, forall_eq']
    by_cases hw : call.Windowed
    · obtain ⟨hwindowed, hallows⟩ := windowed_of_timer ht hw
      rw [hallows, intervalPoint_inWindow_iff hwindowed (intervalPoint_of_firstPoint hwindowed hp)]
      exact ⟨fun h _ => h, fun h => h hw⟩
    · exact iff_of_true (AddCall.allows_of_not_windowed hw point) fun hw' => absurd hw' hw
  | rebuild clock =>
    constructor
    · rintro h x hx hpos hends ⟨call, f⟩ hm hw
      have ht := AList.mem_lookup_iff.2 ((List.takeWhile_sublist _).subset hx)
      obtain ⟨hwindowed, hallows⟩ := windowed_of_made (hmade _ _ ht) hm hw
      have hsome := List.mem_takeWhile_imp hx
      refine (restartPoint_inWindow_iff hwindowed hsome).1 ?_ hpos hends
      exact fun point hp => (hallows point).1 (h x hx call f hm point hp)
    · rintro h x hx call f hm point hp
      have ht := AList.mem_lookup_iff.2 ((List.takeWhile_sublist _).subset hx)
      by_cases hw : call.Windowed
      · obtain ⟨hwindowed, hallows⟩ := windowed_of_made (hmade _ _ ht) hm hw
        have hsome := List.mem_takeWhile_imp hx
        refine (hallows point).2 ?_
        exact (restartPoint_inWindow_iff hwindowed hsome).2
          (fun hpos hends => h x hx hpos hends _ hm hw) point hp
      · exact AddCall.allows_of_not_windowed hw point
  | examine i again =>
    have hiff : ∀ x : IntervalS, ∀ timer ∈ s.timers.lookup x.timerId, ∀ call f,
        maker x.timerId s.log = some (call, f) → call.Windowed →
        ((∀ point, nextPoint timer.spend x.timePoint again = some (some point) →
          call.Allows point) ↔ timer.OnTime x.timePoint again) := by
      intro x timer ht call f hm hw
      obtain ⟨hwindowed, hallows⟩ := windowed_of_made (hmade _ _ ht).spend hm hw
      simp only [hallows]
      rw [nextPoint_inWindow_iff hwindowed, onTime_spend]
    constructor
    · rintro h x hx timer ht hpos ⟨call, f⟩ hm hw
      exact (hiff x timer ht call f hm hw).1 (h x hx timer ht hpos call f hm)
    · intro h x hx timer ht hpos call f hm
      by_cases hw : call.Windowed
      · exact (hiff x timer ht call f hm hw).2 (h x hx timer ht hpos (call, f) hm hw)
      · exact fun point _ => AddCall.allows_of_not_windowed hw point
  | _ => exact Iff.rfl

/-- **Timers keep to their windows** exactly in the runs in which each point that is scheduled for
one ends up there.

**Proof sketch.** A point gets into the queue in three places. The first point is due at some time
of some day not before the start date, and is moved from there; the next one is on the day of the
clock unless that is closed, and on the day after if it is. A timer that has not ended by a point is
still allowed to run on the day of that point. -/
theorem window_kept {es : List Event} (hrun : (system F extended).run es = some s) :
    (system F extended).Always WithinWindow es ↔ (system F extended).Along (InHours F) es :=
  scheduled_iff_along (J := fun s => Sound s ∧ OfTable Made s)
    ⟨sound_init extended, ofTable_init extended⟩
    (fun _ _ _ h hstep => ⟨step_sound h.1 hstep, step_ofTable kept_made h.2 hstep⟩)
    (fun _ h => h.1) (fun _ _ _ h hstep => schedules_iff_inHours h.2 hstep) hrun

/-- An hour. -/
def hour : ℤ := 3600000000

/-- A timer that runs every 25 minutes from nine to ten, from 2025-01-01 to `n` days later. -/
def morning (n : ℕ) : AddCall :=
  .addFunc (some newYear.now) (some (newYear.now + n * day)) (9 * hour) (10 * hour)
    ⟨maxInt, by decide, by decide⟩ 1500000000

/-- 9:25 on 2025-01-01. -/
def firstMorning : Clock := ⟨228277 * day + 9 * hour + 1500000000, by decide, by decide⟩

/-- The time of the day on 2025-01-02. -/
def secondMorning (minutes : ℕ) (h : minutes < 1440) : Clock :=
  ⟨228278 * day + minutes * 60000000, by simp only [day]; omega,
    by simp only [day, maxDatetime]; omega⟩

/-- A timer that is created before its first morning, and runs there. -/
theorem window_kept_morning :
    (system exactArith false).Always WithinWindow
      (startup ++ [.add (morning 1) 7 newYear newYear, .addNotify, .examine 0 newYear, .wakeup,
        .test firstMorning, .examine 0 firstMorning]) :=
  (window_kept (s := _) rfl).2 (by decide)

/-- **Timers leave their windows**: one that is created at half past nine is rounded up to a quarter
past ten; one that is created at ten to ten on its last day is moved to the day after; and one that
was delayed until three in the morning runs again at once. -/
theorem window_left :
    (∃ s, (system exactArith false).run
      (startup ++ [.add (morning 2) 7 newYear (secondMorning 570 (by decide))]) = some s ∧
        ¬ WithinWindow s) ∧
    (∃ s, (system exactArith false).run
      (startup ++ [.add (morning 1) 7 newYear (secondMorning 590 (by decide))]) = some s ∧
        ¬ WithinWindow s) ∧
    ∃ s, (system exactArith false).run
      (startup ++ [.add (morning 2) 7 newYear newYear, .addNotify, .examine 0 newYear, .wakeup,
        .test firstMorning, .examine 0 (secondMorning 180 (by decide))]) = some s ∧
          ¬ WithinWindow s := by
  refine ⟨⟨_, rfl, fun h => ?_⟩, ⟨_, rfl, fun h => ?_⟩, ⟨_, rfl, fun h => ?_⟩⟩
  · exact absurd ((h _ List.mem_cons_self _ _ rfl (by decide)).2) (by decide)
  · exact absurd ((h _ List.mem_cons_self _ _ rfl (by decide)).1) (by decide)
  · exact absurd ((h _ List.mem_cons_self _ _ rfl (by decide)).2) (by decide)

end HkuUtils.TimerManager
