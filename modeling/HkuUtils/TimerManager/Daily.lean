import HkuUtils.TimerManager.Schedule

set_option relaxedAutoImplicit false
set_option autoImplicit false

/-!
# The date range of daily timers

`addFuncAtTimeEveryDay` checks its dates and then creates a timer without dates. So the timer is
scheduled for the day on which its time next comes up, whatever the range was.

## Main definitions

* `HkuUtils.TimerManager.AddCall.Covers` — the days that a call allows.
* `HkuUtils.TimerManager.dueDay` — the day on which a time next comes up.
* `HkuUtils.TimerManager.WithinDates` — every timer in the queue is scheduled for an allowed day.
* `HkuUtils.TimerManager.InSeason` — the condition on the clock.

## Main results

* `HkuUtils.TimerManager.daily_firstPoint`, `daily_restartPoint`, `daily_nextPoint` — the days for
  which a daily timer is scheduled.
* `HkuUtils.TimerManager.daily_within_dates`, `daily_outside_dates` — the runs in which daily timers
  keep to their dates, and one that is scheduled too early.
-/

namespace HkuUtils.TimerManager

open Transition

variable {F : Arith} {extended : Bool} {s t : State}

/-! ## Days -/

/-- The call allows its timer to run on the day. Only the daily timers are restricted here. -/
def AddCall.Covers : AddCall → ℤ → Prop
  | .addFuncAtTimeEveryDay (some startDate) (some endDate) _, d =>
    dayOf startDate ≤ d ∧ d ≤ dayOf endDate
  | _, _ => True

instance (call : AddCall) (d : ℤ) : Decidable (call.Covers d) := by
  unfold AddCall.Covers
  split <;> infer_instance

/-- The first day on which the time of the day is not past. -/
def dueDay (time : ℤ) (now : Clock) : ℤ :=
  if now.now ≤ now.today + time then now.today else now.today + day

/-- The time of the day of a daily timer. -/
def AddCall.time : AddCall → ℤ
  | .addFuncAtTimeEveryDay _ _ time => time
  | _ => 0

/-- A timer that runs every day and has no dates. -/
structure Timer.Daily (timer : Timer) : Prop where
  startDate : timer.startDate = 0
  endDate : timer.endDate = maxDatetime
  startTime : timer.startTime < 0
  nonneg : 0 ≤ timer.endTime
  lt_day : timer.endTime < day

/-- A daily timer is scheduled for the day on which its time next comes up.

**Proof sketch.** The point of today has passed or it has not, and in both cases it is at the time
of the timer of its day. The first day of all is a case of its own. -/
lemma Timer.Daily.dayOf_point {timer : Timer} (h : timer.Daily) (now : Clock) :
    dayOf (if now.now ≤ timer.startDate + timer.endTime then timer.startDate + timer.endTime
      else dailyPoint timer now) = dueDay timer.endTime now := by
  have hle := dayOf_le now.now
  have hlt := lt_dayOf_add now.now
  have hmin := now.min_le
  have hsame := dayOf_add now.now h.nonneg h.lt_day
  rw [h.startDate, zero_add, dueDay, dailyPoint, Clock.today]
  split
  · next hfirst =>
    -- The first day of all.
    have htoday : dayOf now.now = 0 := by
      rw [dayOf, Int.ediv_eq_zero_of_lt hmin (hfirst.trans_lt h.lt_day), zero_mul]
    rw [htoday, zero_add] at hsame ⊢
    rw [if_pos hfirst, hsame]
  · rcases lt_or_ge (dayOf now.now + timer.endTime) now.now with hpast | hpast
    · rw [if_pos hpast, if_neg (not_le.2 hpast), dayOf_add_day, hsame]
    · rw [if_neg (not_lt.2 hpast), if_pos hpast, hsame]

/-- Where `_addFunc` schedules a timer that runs at a given time. -/
lemma firstPoint_eq {timer : Timer} (hneg : timer.startTime < 0) {now : Clock} {point : ℤ}
    (hp : firstPoint F timer now = some point) :
    point = if now.now ≤ timer.startDate + timer.endTime then timer.startDate + timer.endTime
      else dailyPoint timer now := by
  rw [firstPoint, if_pos hneg, Option.ite_none_left_eq_some] at hp
  obtain ⟨-, hp⟩ := hp
  split at hp
  · next hfirst => rw [if_pos hfirst, Option.some.inj hp]
  · next hfirst =>
    rw [Option.ite_none_left_eq_some] at hp
    rw [if_neg hfirst, Option.some.inj hp.2]

/-- Where `start` does. -/
lemma restartPoint_eq {timer : Timer} (hneg : timer.startTime < 0) {now : Clock} {point : ℤ}
    (hp : restartPoint F timer now = some (some point)) :
    point = if now.now ≤ timer.startDate + timer.endTime then timer.startDate + timer.endTime
      else dailyPoint timer now := by
  rw [restartPoint, if_pos hneg] at hp
  split at hp
  · simp at hp
  · split at hp
    · next hfirst => rw [if_pos hfirst, Option.some.inj (Option.some.inj hp)]
    · next hfirst =>
      split at hp
      · simp at hp
      · rw [if_neg hfirst, Option.some.inj (Option.some.inj hp)]

/-- The day for which `_addFunc` schedules a daily timer. -/
lemma daily_firstPoint {timer : Timer} (h : timer.Daily) {now : Clock} {point : ℤ}
    (hp : firstPoint F timer now = some point) : dayOf point = dueDay timer.endTime now := by
  rw [firstPoint_eq h.startTime hp, h.dayOf_point now]

/-- The day for which `start` schedules a daily timer. -/
lemma daily_restartPoint {timer : Timer} (h : timer.Daily) {now : Clock} {point : ℤ}
    (hp : restartPoint F timer now = some (some point)) :
    dayOf point = dueDay timer.endTime now := by
  rw [restartPoint_eq h.startTime hp, h.dayOf_point now]

/-- `start` schedules only timers that have something left. -/
lemma pos_of_restartPoint {timer : Timer} {now : Clock} {point : ℤ}
    (hp : restartPoint F timer now = some (some point)) : 0 < timer.repeatNum := by
  rw [restartPoint] at hp
  split at hp
  · simp at hp
  · next hvalid => exact not_le.1 fun hle => hvalid (.inl hle)

/-- `start` schedules every daily timer that repeats without end. -/
lemma daily_restartPoint_some {timer : Timer} (h : timer.Daily) (hn : timer.repeatNum = maxInt)
    (now : Clock) : ∃ point, restartPoint F timer now = some (some point) := by
  have hmany : ¬ timer.repeatNum ≤ 1 := by
    rw [hn]
    decide
  have hvalid : ¬ (timer.repeatNum ≤ 0 ∨ timer.endsBefore now.now) := by
    rintro (hle | hends)
    · omega
    · exact hends.1 h.endDate
  rw [restartPoint, if_neg hvalid, if_pos h.startTime, if_neg hmany]
  split <;> exact ⟨_, rfl⟩

/-- Where `detectThread` schedules a timer that runs at a given time. -/
lemma nextPoint_eq {timer : Timer} (hneg : timer.startTime < 0) {now : Clock} {point next : ℤ}
    (hp : nextPoint timer point now = some (some next)) :
    next = now.today + day + (point - dayOf point) := by
  obtain ⟨following, hf, heq⟩ := Option.map_eq_some_iff.1 hp
  obtain ⟨-, rfl⟩ := Option.ite_none_left_eq_some.1 heq |>.imp_right Option.some.inj
  rw [followingPoint, if_neg (not_le.2 hneg)] at hf
  obtain ⟨d, hd, rfl⟩ := Option.map_eq_some_iff.1 hf
  obtain ⟨-, rfl⟩ := of_startOfDay hd
  omega

/-- The day for which `detectThread` schedules a daily timer. -/
lemma daily_nextPoint {timer : Timer} (h : timer.Daily) {now : Clock} {point next : ℤ}
    (hp : nextPoint timer point now = some (some next)) : dayOf next = now.today + day := by
  have hle := dayOf_le point
  have hlt := lt_dayOf_add point
  rw [nextPoint_eq h.startTime hp, Clock.today, ← dayOf_add_day,
    dayOf_add _ (by omega) (by omega)]

/-- A daily timer has not ended. -/
lemma Timer.Daily.not_ended {timer : Timer} (h : timer.Daily) (point : ℤ) (now : Clock) :
    nextPoint timer point now ≠ some none := by
  rw [nextPoint]
  intro hnone
  obtain ⟨following, -, heq⟩ := Option.map_eq_some_iff.1 hnone
  split at heq
  · next hends => exact hends.1 h.endDate
  · simp at heq

/-- The timers that the call for daily timers makes. -/
lemma daily_of_timer {startDate endDate : Option ℤ} {time : ℤ} {f : ℕ} {before : Clock}
    {timer : Timer}
    (h : (AddCall.addFuncAtTimeEveryDay startDate endDate time).timer f before = some timer) :
    timer.Daily ∧ timer.endTime = time ∧ timer.repeatNum = maxInt := by
  simp only [AddCall.timer, Option.bind_eq_some_iff, Option.ite_none_right_eq_some,
    Option.some.injEq] at h
  obtain ⟨_, _, _, _, ⟨h0, h1⟩, _, _, _, _, _, rfl⟩ := h
  exact ⟨⟨rfl, rfl, (by decide : -day < 0), h0, h1⟩, rfl, rfl⟩

/-! ## What is known of a daily timer -/

/-- A timer of a call without a finite repeat number repeats without end until it is removed. -/
def Endless (id : ℤ) (timer : Timer) (log : List Record) : Prop :=
  ∀ call f, maker id log = some (call, f) → call.repeatNum = maxInt →
    timer.repeatNum = maxInt ∨ timer.repeatNum = 0

/-- No run changes the repeat number of such a timer. -/
lemma kept_endless : Kept Endless where
  frame hne h call f hm := h call f (maker_cons_of_ne hne _ ▸ hm)
  add {call f before timer id log} h call' f' hm hmax := by
    rw [maker_allocated, Option.some.injEq, Prod.mk.injEq] at hm
    exact .inl ((AddCall.repeatNum_of_timer h).1.trans (hm.1 ▸ hmax))
  remove _ _ _ _ _ := .inr rfl
  spend {id timer log} h hpos call f hm hmax := by
    rcases h call f hm hmax with heq | heq
    · rw [Timer.spend, if_pos heq]
      exact .inl heq
    · have := timer.spend_le
      omega

/-- A daily timer in the table. -/
lemma daily_of_made {id : ℤ} {timer : Timer} {log : List Record} (hmade : Made id timer log)
    (hend : Endless id timer log) {startDate endDate : Option ℤ} {time : ℤ} {f : ℕ}
    (hm : maker id log = some (.addFuncAtTimeEveryDay startDate endDate time, f)) :
    timer.Daily ∧ timer.endTime = time ∧ (timer.repeatNum = maxInt ∨ timer.repeatNum = 0) := by
  obtain ⟨call, f', before, made, hm', hcall, heq⟩ := hmade
  obtain ⟨rfl, rfl⟩ := Prod.mk.inj (Option.some.inj (hm'.symm.trans hm))
  obtain ⟨hdaily, htime, -⟩ := daily_of_timer hcall
  refine ⟨?_, ?_, hend _ _ hm rfl⟩
  · rw [heq]
    exact ⟨hdaily.1, hdaily.2, hdaily.3, hdaily.4, hdaily.5⟩
  · rw [heq]
    exact htime

/-! ## Dates -/

/-- Every timer in the queue is scheduled for a day that its call allows. -/
def WithinDates (s : State) : Prop :=
  ∀ e ∈ s.queue, ∀ call f, maker e.timerId s.log = some (call, f) →
    call.Covers (dayOf e.timePoint)

/-- Whenever a daily timer is scheduled, the day on which its time next comes up is in its range:
when it is created, when `start` comes to it and it was not removed, and when it has run. -/
def InSeason (F : Arith) (s : State) : Event → Prop
  | .add call _ _ now => call.Covers (dueDay call.time now)
  | .rebuild clock =>
    ∀ x ∈ s.timers.entries.takeWhile fun x => (restartPoint F x.2 (clock x.1)).isSome,
      0 < x.2.repeatNum →
        ∀ m ∈ maker x.1 s.log, m.1.Covers (dueDay x.2.endTime (clock x.1))
  | .examine i again =>
    ∀ x ∈ taken s (.examine i again), ∀ timer ∈ s.timers.lookup x.timerId,
      0 < timer.repeatNum → ∀ m ∈ maker x.timerId s.log, m.1.Covers (again.today + day)
  | _ => True

instance decidableInSeason (s : State) : ∀ e, Decidable (InSeason F s e)
  | .add call _ _ now => inferInstanceAs (Decidable (call.Covers (dueDay call.time now)))
  | .rebuild clock =>
    inferInstanceAs (Decidable
      (∀ x ∈ s.timers.entries.takeWhile fun x => (restartPoint F x.2 (clock x.1)).isSome,
        0 < x.2.repeatNum →
          ∀ m ∈ maker x.1 s.log, m.1.Covers (dueDay x.2.endTime (clock x.1))))
  | .examine i again =>
    inferInstanceAs (Decidable
      (∀ x ∈ taken s (.examine i again), ∀ timer ∈ s.timers.lookup x.timerId,
        0 < timer.repeatNum → ∀ m ∈ maker x.timerId s.log, m.1.Covers (again.today + day)))
  | .addNotify | .remove _ | .test _ | .wakeup | .start | .announce | .spawn | .stop | .clear
  | .wake | .join => inferInstanceAs (Decidable True)

/-- What is known of the state before a step. -/
structure Known (s : State) : Prop where
  sound : Sound s
  made : OfTable Made s
  endless : OfTable Endless s

/-- A step keeps what is known. -/
lemma step_knownTimers {s t : State} {e : Event} (h : Known s)
    (hstep : step F extended s e = some t) : Known t :=
  ⟨step_sound h.sound hstep, step_ofTable kept_made h.made hstep,
    step_ofTable kept_endless h.endless hstep⟩

/-- Only the daily timers are restricted, so only their days matter. -/
lemma AddCall.covers_congr {call : AddCall} {d d' : ℤ}
    (h : ∀ a b time, call = .addFuncAtTimeEveryDay a b time → d = d') :
    call.Covers d ↔ call.Covers d' := by
  cases call with
  | addFuncAtTimeEveryDay a b time => rw [h a b time rfl]
  | _ => exact Iff.rfl

/-- The daily timers of the table, by their calls. -/
lemma Known.daily (hk : Known s) {id : ℤ} {timer : Timer} (ht : s.timers.lookup id = some timer)
    {a b : Option ℤ} {time : ℤ} {f : ℕ}
    (hm : maker id s.log = some (.addFuncAtTimeEveryDay a b time, f)) :
    timer.Daily ∧ timer.endTime = time ∧ (timer.repeatNum = maxInt ∨ timer.repeatNum = 0) :=
  daily_of_made (hk.made _ _ ht) (hk.endless _ _ ht) hm

/-- The condition says for which days `start` schedules the timers. -/
lemma schedules_rebuild_iff (hk : Known s) (clock : ℤ → Clock) :
    Schedules F (fun call point => call.Covers (dayOf point)) s (.rebuild clock) ↔
      InSeason F s (.rebuild clock) := by
  constructor
  · rintro h x hx hpos ⟨call, f⟩ hm
    have ht := AList.mem_lookup_iff.2 ((List.takeWhile_sublist _).subset hx)
    cases call with
    | addFuncAtTimeEveryDay a b time =>
      obtain ⟨hd, -, hn⟩ := hk.daily ht hm
      obtain ⟨point, hp⟩ := daily_restartPoint_some (F := F) hd
        (hn.resolve_right hpos.ne') (clock x.1)
      rw [← daily_restartPoint hd hp]
      exact h x hx _ f hm point hp
    | _ => trivial
  · intro h x hx call f hm point hp
    have ht := AList.mem_lookup_iff.2 ((List.takeWhile_sublist _).subset hx)
    refine (AddCall.covers_congr ?_).1 (h x hx (pos_of_restartPoint hp) (call, f) hm)
    rintro a b time rfl
    exact (daily_restartPoint (hk.daily ht hm).1 hp).symm

/-- The condition says for which day `detectThread` schedules a timer.

**Proof sketch.** A daily timer that goes on has a next point, and this is tomorrow at its time.
The other timers are not asked about. -/
lemma schedules_examine_iff (hk : Known s) {i : ℕ} {again : Clock}
    (hstep : step F extended s (.examine i again) = some t) :
    Schedules F (fun call point => call.Covers (dayOf point)) s (.examine i again) ↔
      InSeason F s (.examine i again) := by
  constructor
  · rintro h x hx timer ht hpos ⟨call, f⟩ hm
    cases call with
    | addFuncAtTimeEveryDay a b time =>
      -- A daily timer that was not removed does not end.
      obtain ⟨hdaily, -, hn⟩ := hk.daily ht hm
      have hspend : timer.spend = timer := if_pos (hn.resolve_right hpos.ne')
      have hpos' : 0 < timer.spend.repeatNum := by rwa [hspend]
      have hnext := h x hx timer ht hpos' _ f hm
      obtain ⟨next, hp⟩ := exists_nextPoint hstep hx ht hpos'
      rw [hspend] at hnext hp
      cases next with
      | none => exact absurd hp (hdaily.not_ended _ _)
      | some point =>
        rw [← daily_nextPoint hdaily hp]
        exact hnext point hp
    | _ => trivial
  · intro h x hx timer ht hpos call f hm point hp
    have hpos' := hpos.trans_le timer.spend_le
    refine (AddCall.covers_congr ?_).1 (h x hx timer ht hpos' (call, f) hm)
    rintro a b time rfl
    obtain ⟨hdaily, -, hn⟩ := hk.daily ht hm
    rw [Timer.spend, if_pos (hn.resolve_right hpos'.ne')] at hp
    exact (daily_nextPoint hdaily hp).symm

/-- **The condition says which days are scheduled.**

**Proof sketch.** One case for each event that schedules, by the lemma for it; the point of a new
daily timer is on the day that is due. -/
lemma schedules_iff_inSeason {e : Event} (hk : Known s)
    (hstep : step F extended s e = some t) :
    Schedules F (fun call point => call.Covers (dayOf point)) s e ↔ InSeason F s e := by
  cases e with
  | add call f before now =>
    obtain ⟨timer, ht, h⟩ := Option.bind_eq_some_iff.1 hstep
    obtain ⟨point, hp, -⟩ := Option.bind_eq_some_iff.1 h
    have hday : call.Covers (dayOf point) ↔ call.Covers (dueDay call.time now) := by
      refine AddCall.covers_congr ?_
      rintro a b time rfl
      obtain ⟨hdaily, htime, -⟩ := daily_of_timer ht
      rw [daily_firstPoint hdaily hp, htime, AddCall.time]
    constructor
    · exact fun hcov => hday.1 (hcov timer ht point hp)
    · rintro hcov timer' ht' point' hp'
      obtain rfl := Option.some.inj (ht.symm.trans ht')
      obtain rfl := Option.some.inj (hp.symm.trans hp')
      exact hday.2 hcov
  | rebuild clock => exact schedules_rebuild_iff hk clock
  | examine i again => exact schedules_examine_iff hk hstep
  | _ => exact Iff.rfl

/-- **Daily timers keep to their dates** exactly in the runs in which, each time one is scheduled,
the day on which its time next comes up is in its range.

**Proof sketch.** The entries of the queue are in the range of their timers exactly if those that
are put there are, step by step, and the condition names these. -/
theorem daily_within_dates {s : State} {es : List Event}
    (hrun : (system F extended).run es = some s) :
    (system F extended).Always WithinDates es ↔ (system F extended).Along (InSeason F) es :=
  scheduled_iff_along (A := fun call point => call.Covers (dayOf point)) (J := Known)
    ⟨sound_init extended, ofTable_init extended, ofTable_init extended⟩
    (fun _ _ _ h hstep => step_knownTimers h hstep) (fun _ h => h.sound)
    (fun _ _ _ hk hstep => schedules_iff_inSeason hk hstep) hrun

/-- A daily timer that runs at midnight from 2025-01-01 to the given day. -/
def untilDay (n : ℕ) : AddCall :=
  .addFuncAtTimeEveryDay (some newYear.now) (some (newYear.now + n * day)) 0

/-- Midnight of 2025-01-02. -/
def secondDay : Clock := ⟨228278 * day, by decide, by decide⟩

/-- A daily timer that runs on its first day, and whose last day is the third. -/
theorem daily_within_dates_run :
    (system exactArith false).Always WithinDates
      (startup ++ [.add (untilDay 2) 7 newYear newYear, .addNotify, .examine 0 newYear]) :=
  (daily_within_dates (s := ⟨false, [⟨228278 * day, 0⟩],
    AList.singleton 0 ⟨0, maxDatetime, -day, 0, 0, maxInt, 7⟩, 0, true, .idle, .testing, 0,
    [.submitted 0 7, .allocated 0 (untilDay 2) 7]⟩) rfl).2 (by decide)

/-- **A daily timer runs outside of its dates**: one for 2025-01-02 is scheduled for the day
before. -/
theorem daily_outside_dates :
    ∃ es s, (system exactArith false).run es = some s ∧ ¬ WithinDates s :=
  ⟨startup ++
      [.add (.addFuncAtTimeEveryDay (some secondDay.now) (some secondDay.now) 0) 7 newYear newYear],
    ⟨false, [⟨228277 * day, 0⟩], AList.singleton 0 ⟨0, maxDatetime, -day, 0, 0, maxInt, 7⟩, 0, true,
      .idle, .locking newYear, 1,
      [.allocated 0 (.addFuncAtTimeEveryDay (some secondDay.now) (some secondDay.now) 0) 7]⟩, rfl,
    fun h => absurd (h _ List.mem_cons_self _ _ rfl) (by decide)⟩

end HkuUtils.TimerManager
