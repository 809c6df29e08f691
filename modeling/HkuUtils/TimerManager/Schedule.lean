import HkuUtils.TimerManager.Queue

set_option relaxedAutoImplicit false
set_option autoImplicit false

/-!
# What the queue holds for a timer

A point gets into the queue in three places: where a timer is created, where `start` builds the
queue again, and where a timer has run. What is to hold of every point in the queue has to be
checked for these, and a step that puts no point there does not matter.

## Main definitions

* `HkuUtils.TimerManager.Scheduled` — every point in the queue is allowed by the call that created
  its timer.
* `HkuUtils.TimerManager.Schedules` — the points that an event puts into the queue are allowed.

## Main results

* `HkuUtils.TimerManager.step_scheduled_iff` — the rule for such a property.
* `HkuUtils.TimerManager.scheduled_iff_along` — the same for runs.
-/

namespace HkuUtils.TimerManager

open Transition

variable {F : Arith} {extended : Bool} {A : AddCall → ℤ → Prop} {s t : State}

/-- Every point in the queue is allowed by the call that created its timer. -/
def Scheduled (A : AddCall → ℤ → Prop) (s : State) : Prop :=
  ∀ e ∈ s.queue, ∀ call f, maker e.timerId s.log = some (call, f) → A call e.timePoint

/-- **The points that an event puts into the queue are allowed.** The events that schedule are the
addition of a timer, the building of the queue, and a dispatch. -/
def Schedules (F : Arith) (A : AddCall → ℤ → Prop) (s : State) : Event → Prop
  | .add call f before now =>
    ∀ timer, call.timer f before = some timer →
      ∀ point, firstPoint F timer now = some point → A call point
  | .rebuild clock =>
    ∀ x ∈ s.timers.entries.takeWhile fun x => (restartPoint F x.2 (clock x.1)).isSome,
      ∀ call f, maker x.1 s.log = some (call, f) →
        ∀ point, restartPoint F x.2 (clock x.1) = some (some point) → A call point
  | .examine i again =>
    ∀ x ∈ taken s (.examine i again), ∀ timer ∈ s.timers.lookup x.timerId,
      0 < timer.spend.repeatNum → ∀ call f, maker x.timerId s.log = some (call, f) →
        ∀ point, nextPoint timer.spend x.timePoint again = some (some point) → A call point
  | _ => True

/-- The queue has lost entries. -/
lemma Scheduled.mono (h : Scheduled A s) (hlog : ∀ id, maker id t.log = maker id s.log)
    (hq : t.queue ⊆ s.queue) : Scheduled A t :=
  fun e he call f hm => h e (hq he) call f (hlog _ ▸ hm)

/-- The queue has lost entries and got one. -/
lemma scheduled_cons_iff (h : Scheduled A s) {point id : ℤ} {rest : List IntervalS}
    (hlog : ∀ e ∈ rest, maker e.timerId t.log = maker e.timerId s.log)
    (hq : t.queue = ⟨point, id⟩ :: rest) (hrest : rest ⊆ s.queue) :
    Scheduled A t ↔ ∀ call f, maker id t.log = some (call, f) → A call point := by
  rw [Scheduled, hq, List.forall_mem_cons, and_iff_left]
  intro e he call f hm
  exact h e (hrest he) call f (hlog e he ▸ hm)

/-- What the loop of `start` puts into the queue. -/
lemma mem_rebuild {clock : ℤ → Clock} {xs : List ((_ : ℤ) × Timer)} {e : IntervalS} :
    e ∈ (rebuild F clock xs).queue ↔
      ∃ x ∈ xs.takeWhile fun x => (restartPoint F x.2 (clock x.1)).isSome,
        x.1 = e.timerId ∧ restartPoint F x.2 (clock x.1) = some (some e.timePoint) := by
  induction xs with
  | nil => simp [rebuild]
  | cons x xs ih =>
    rw [rebuild]
    split
    · next hthrow => simp [hthrow]
    · next hinvalid => simp [hinvalid, ih]
    · next point hpoint =>
      simp only [List.mem_cons, ih, List.takeWhile_cons, hpoint, Option.isSome_some, if_true,
        exists_eq_or_imp, Option.some.injEq]
      refine or_congr_left ⟨?_, ?_⟩
      · rintro rfl
        exact ⟨rfl, rfl⟩
      · rintro ⟨hid, hp⟩
        rw [hid, hp]

/-- The locked section of `start`. -/
lemma scheduled_restart_iff (clock : ℤ → Clock) :
    Scheduled A (restart F s clock) ↔ Schedules F A s (.rebuild clock) := by
  have hq : (restart F s clock).queue = (rebuild F clock s.timers.entries).queue := by
    rw [restart]
    split <;> rfl
  have hlog : (restart F s clock).log = s.log := by
    rw [restart]
    split <;> rfl
  rw [Scheduled, hq, hlog]
  constructor
  · intro h x hx call f hm point hp
    exact h ⟨point, x.1⟩ (mem_rebuild.2 ⟨x, hx, rfl, hp⟩) call f hm
  · intro h e he call f hm
    obtain ⟨x, hx, hid, hp⟩ := mem_rebuild.1 he
    exact h x hx call f (hid ▸ hm) e.timePoint hp

/-- A dispatch.

**Proof sketch.** One case for how the entry was dispatched. Only a timer that goes on puts an
entry back, and its point is the next one. -/
lemma scheduled_dispatch_iff {e : IntervalS} {i : ℕ} {now : Clock} (h : Scheduled A s)
    (hd : Dispatches { s with queue := s.queue.eraseIdx i } e now t) :
    Scheduled A t ↔ ∀ timer ∈ s.timers.lookup e.timerId,
      0 < timer.spend.repeatNum → ∀ call f, maker e.timerId s.log = some (call, f) →
        ∀ point, nextPoint timer.spend e.timePoint now = some (some point) → A call point := by
  have hrest : s.queue.eraseIdx i ⊆ s.queue := (List.eraseIdx_sublist _ _).subset
  cases hd with
  | orphan ht =>
    rw [show s.timers.lookup e.timerId = none from ht]
    exact iff_of_true (h.mono (fun _ => rfl) hrest) (by simp)
  | @last timer ht hend =>
    rw [show s.timers.lookup e.timerId = some timer from ht]
    refine iff_of_true (h.mono (fun _ => rfl) hrest) ?_
    rintro timer' htimer hpos call f - point hp
    obtain rfl := Option.some.inj htimer
    rcases hend with hend | hend
    · exact absurd hpos (not_lt.2 hend)
    · simp [hp] at hend
  | @again timer point ht hpos hp =>
    rw [show s.timers.lookup e.timerId = some timer from ht]
    refine Iff.trans (scheduled_cons_iff h (fun _ _ => rfl) rfl hrest) ?_
    constructor
    · rintro hallows timer' htimer - call f hm point' hp'
      obtain rfl := Option.some.inj htimer
      obtain rfl : point = point' := Option.some.inj (Option.some.inj (hp.symm.trans hp'))
      exact hallows call f hm
    · exact fun hallows call f hm => hallows timer rfl hpos call f hm point hp

/-- A timer that has run and has something left is scheduled again, or has ended. -/
lemma exists_nextPoint {i : ℕ} {again : Clock}
    (hstep : step F extended s (.examine i again) = some t) {x : IntervalS}
    (hx : x ∈ taken s (.examine i again)) {timer : Timer}
    (ht : timer ∈ s.timers.lookup x.timerId) (hpos : 0 < timer.spend.repeatNum) :
    ∃ next, nextPoint timer.spend x.timePoint again = some next := by
  obtain ⟨-, hd⟩ := dispatches_of_taken hstep hx
  cases hd with
  | orphan ht' => cases ht.symm.trans ht'
  | last ht' hend =>
    obtain rfl := Option.some.inj (ht.symm.trans ht')
    exact ⟨none, hend.resolve_left (not_le.2 hpos)⟩
  | again ht' _ hp =>
    obtain rfl := Option.some.inj (ht.symm.trans ht')
    exact ⟨_, hp⟩

/-- **What an event puts into the queue.** A step keeps the queue to what is allowed exactly if the
points that its event puts there are allowed.

**Proof sketch.** One case for each step. Adding a timer, building the queue anew and a dispatch
put entries there, and the condition names their points; the other steps put none. -/
theorem step_scheduled_iff {e : Event} (hs : Sound s) (h : Scheduled A s)
    (hstep : step F extended s e = some t) : Scheduled A t ↔ Schedules F A s e := by
  cases moves_of_step hstep with
  | @add call f before now timer point id ht hp hid =>
    have hnew := getNewTimerId_notMem hid
    have hother : ∀ e ∈ s.queue,
        maker e.timerId (.allocated id call f :: s.log) = maker e.timerId s.log := by
      intro e he
      refine maker_cons_of_ne (r := .allocated id call f) ?_ _
      rintro rfl
      exact hnew (hs.queued.known _ (List.mem_map_of_mem he))
    refine (scheduled_cons_iff h hother rfl (List.Subset.refl _)).trans ?_
    simp only [Schedules, maker_allocated, Option.some.injEq, Prod.mk.injEq]
    constructor
    · rintro hallows timer' ht' point' hp'
      obtain rfl := Option.some.inj (ht.symm.trans ht')
      obtain rfl := Option.some.inj (hp.symm.trans hp')
      exact hallows call f ⟨rfl, rfl⟩
    · rintro hallows call' f' ⟨rfl, rfl⟩
      exact hallows timer ht point hp
  | remove =>
    refine iff_of_true ?_ trivial
    rw [removeTimer]
    split <;> exact h.mono (fun _ => rfl) (List.Subset.refl _)
  | @examine i now again t hd hex =>
    cases hex with
    | wait hq =>
      exact iff_of_true (h.mono (fun _ => rfl) (List.Subset.refl _))
        (by simp [Schedules, taken, hd, hq])
    | finish hi h0 =>
      exact iff_of_true (h.mono (fun _ => rfl) (List.Subset.refl _))
        (by simp [Schedules, taken, hd, hi, h0])
    | sleep hi hlt =>
      exact iff_of_true (h.mono (fun _ => rfl) (List.Subset.refl _))
        (by simp [Schedules, taken, hd, hi, hlt])
    | @due x _ hi h0 hle hd' =>
      have htaken : taken s (.examine i again) = some x := by simp [taken, hd, hi, h0, hle]
      rw [scheduled_dispatch_iff h hd', Schedules, htaken]
      simp
  | rebuild _ => exact scheduled_restart_iff _
  | addNotify _ =>
    exact iff_of_true (h.mono (fun _ => congrArg _ s.notify_log) (by simp)) trivial
  | announce _ =>
    exact iff_of_true (h.mono (fun _ => congrArg _ s.notify_log) (by simp)) trivial
  | wake _ => exact iff_of_true (h.mono (fun _ => congrArg _ s.notify_log) (by simp)) trivial
  | clear _ => exact iff_of_true (h.mono (fun _ => rfl) (List.nil_subset _)) trivial
  | test _ => exact iff_of_true (h.mono (fun _ => rfl) (List.Subset.refl _)) trivial
  | wakeup _ => exact iff_of_true (h.mono (fun _ => rfl) (List.Subset.refl _)) trivial
  | started _ _ => exact iff_of_true h trivial
  | start _ _ => exact iff_of_true (h.mono (fun _ => rfl) (List.Subset.refl _)) trivial
  | spawn _ => exact iff_of_true (h.mono (fun _ => rfl) (List.Subset.refl _)) trivial
  | stop _ => exact iff_of_true (h.mono (fun _ => rfl) (List.Subset.refl _)) trivial
  | join _ _ => exact iff_of_true (h.mono (fun _ => rfl) (List.Subset.refl _)) trivial

/-- **Runs that keep the queue to what is allowed** are those whose steps meet a condition that is
exact for the points they put there. -/
theorem scheduled_iff_along {C : State → Event → Prop} {J : State → Prop}
    (hinit : J (init extended)) (hJ : ∀ s e t, J s → step F extended s e = some t → J t)
    (hsound : ∀ s, J s → Sound s)
    (hC : ∀ s e t, J s → step F extended s e = some t → (Schedules F A s e ↔ C s e))
    {es : List Event} (hrun : (system F extended).run es = some s) :
    (system F extended).Always (Scheduled A) es ↔ (system F extended).Along C es :=
  System.always_iff_along (J := J) hinit (fun e he => by simp [system, init] at he) hJ
    (fun s e t hs h hstep =>
      (step_scheduled_iff (hsound s hs) h hstep).trans (hC s e t hs hstep)) hrun

end HkuUtils.TimerManager
