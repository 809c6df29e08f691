import HkuUtils.TimerManager.Model

set_option relaxedAutoImplicit false
set_option autoImplicit false

/-!
# Stopping the timer manager

The detection thread tests `m_stop` before it locks the mutex, and waits without a predicate if the
queue is empty. If `stop` clears the queue, sets the flag and notifies between the two, the thread
waits for a notification that has already been issued.

## Main definitions

* `HkuUtils.TimerManager.Hung` — the thread waits, the manager is stopped, and no one will notify.
* `HkuUtils.TimerManager.Timely` — the condition on the locked sections of the thread.

## Main results

* `HkuUtils.TimerManager.step_hung_iff` — the step that leads to such a state.
* `HkuUtils.TimerManager.stop_never_hangs`, `stop_hangs` — the runs without such a state, and one
  that has it.
* `HkuUtils.TimerManager.hung_stays` — what the join waits for does not happen.
-/

namespace HkuUtils.TimerManager

open Transition

variable {F : Arith} {extended : Bool}

/-- A notification is still to be issued. -/
def Owed (s : State) : Prop :=
  s.control = .announcing ∨ s.control = .waking ∨ 0 < s.pending

instance (s : State) : Decidable (Owed s) := inferInstanceAs (Decidable (_ ∨ _ ∨ _))

/-- The detection thread is blocked in `m_cond.wait` although `m_stop` is set, and no notification
is still to be issued. -/
def Hung (s : State) : Prop := s.detect = .waiting ∧ s.stop = true ∧ ¬ Owed s

/-- If the detection thread enters its locked section when `m_stop` is set and the queue is empty,
then a notification is still to be issued. -/
def Timely (s : State) : Event → Prop
  | .examine _ _ => s.stop = true → s.queue = [] → Owed s
  | _ => True

instance (s : State) (e : Event) : Decidable (Timely s e) := by
  cases e <;> unfold Timely <;> infer_instance

/-- A thread that does not wait is not hung. -/
lemma not_hung_of_detect {s : State} (h : s.detect ≠ .waiting) : ¬ Hung s := fun hs => h hs.1

/-- Who owes a notification is not hung. -/
lemma not_hung_of_owed {s : State} (h : Owed s) : ¬ Hung s := fun hs => hs.2.2 h

/-- A step that keeps the thread and the flag, and settles no notification. -/
lemma not_hung_of_same {s t : State} (hs : ¬ Hung s) (hd : t.detect = s.detect)
    (hstop : t.stop = s.stop) (howed : Owed s → Owed t) : ¬ Hung t := by
  rintro ⟨h1, h2, h3⟩
  exact hs ⟨hd ▸ h1, hstop ▸ h2, fun h => h3 (howed h)⟩

/-- `removeTimer` changes only the table. -/
lemma removeTimer_same (s : State) (id : ℤ) :
    (removeTimer s id).detect = s.detect ∧ (removeTimer s id).stop = s.stop ∧
      (removeTimer s id).control = s.control ∧ (removeTimer s id).pending = s.pending ∧
      (removeTimer s id).queue = s.queue ∧ (removeTimer s id).pool = s.pool := by
  rw [removeTimer]
  split <;> exact ⟨rfl, rfl, rfl, rfl, rfl, rfl⟩

/-- A thread that dispatches tests the flag next. -/
lemma Dispatches.detect {s t : State} {e : IntervalS} {now : Clock} (h : Dispatches s e now t) :
    t.detect = .testing := by
  cases h <;> rfl

/-- The locked section leads to a wait exactly when the queue is empty. -/
lemma Examines.waiting_iff {s t : State} {now again : Clock} {i : ℕ}
    (h : Examines s now i again t) : t.detect = .waiting ↔ s.queue = [] := by
  cases h with
  | wait hq => exact iff_of_true rfl hq
  | finish hi _ => exact iff_of_false (by simp) (by rintro hq; simp [hq] at hi)
  | sleep hi _ => exact iff_of_false (by simp) (by rintro hq; simp [hq] at hi)
  | due hi _ _ hd => exact iff_of_false (by simp [hd.detect]) (by rintro hq; simp [hq] at hi)

/-- If the locked section leads to a wait, it changes nothing else. -/
lemma Examines.of_waiting {s t : State} {now again : Clock} {i : ℕ}
    (h : Examines s now i again t) (ht : t.detect = .waiting) :
    t = { s with detect := .waiting } := by
  have hq := h.waiting_iff.1 ht
  cases h with
  | wait _ => rfl
  | finish hi _ => simp [hq] at hi
  | sleep hi _ => simp [hq] at hi
  | due hi _ _ _ => simp [hq] at hi

/-- **A step leads to a hung thread exactly when it does not meet the condition.**

*Proof sketch.* A notification takes the thread out of its wait, the section of `stop` leaves a
notification to issue, and the other steps of the callers keep what there is. So only the locked
section of the thread is left, and it leads to a wait if the queue is empty. -/
theorem step_hung_iff {s t : State} {e : Event} (hs : ¬ Hung s)
    (hstep : step F extended s e = some t) : ¬ Hung t ↔ Timely s e := by
  cases moves_of_step hstep with
  | add => exact iff_of_true (not_hung_of_owed (.inr (.inr (Nat.succ_pos _)))) trivial
  | addNotify => exact iff_of_true (not_hung_of_detect s.notify_detect) trivial
  | remove =>
    obtain ⟨hd, hstop, hc, hp, -, -⟩ := removeTimer_same s _
    refine iff_of_true (not_hung_of_same hs hd hstop fun h => ?_) trivial
    rwa [Owed, hc, hp]
  | test hd =>
    refine iff_of_true (not_hung_of_detect ?_) trivial
    dsimp only
    split <;> simp
  | examine hd hex =>
    refine ⟨fun ht hstop hq => ?_, fun htime ht => ?_⟩
    · by_contra howed
      have hwait := hex.waiting_iff.2 hq
      rw [hex.of_waiting hwait] at ht
      exact ht ⟨rfl, hstop, howed⟩
    · have hq := hex.waiting_iff.1 ht.1
      have heq := hex.of_waiting ht.1
      rw [heq] at ht
      exact ht.2.2 (htime ht.2.1 hq)
  | wakeup => exact iff_of_true (not_hung_of_detect (by simp)) trivial
  | started => exact iff_of_true hs trivial
  | start => exact iff_of_true (fun h => by simpa using h.2.1) trivial
  | rebuild hc =>
    refine iff_of_true (not_hung_of_same hs ?_ ?_ ?_) trivial
    · rw [restart]
      split <;> rfl
    · rw [restart]
      split <;> rfl
    · rintro (h | h | h)
      · simp [hc] at h
      · simp [hc] at h
      · rw [restart]
        split <;> exact .inr (.inr h)
  | announce => exact iff_of_true (not_hung_of_detect s.notify_detect) trivial
  | spawn => exact iff_of_true (not_hung_of_detect (by simp)) trivial
  | stop hc =>
    refine iff_of_true (not_hung_of_same hs rfl rfl ?_) trivial
    rintro (h | h | h)
    · simp [hc] at h
    · simp [hc] at h
    · exact .inr (.inr h)
  | clear => exact iff_of_true (not_hung_of_owed (.inr (.inl rfl))) trivial
  | wake => exact iff_of_true (not_hung_of_detect s.notify_detect) trivial
  | join => exact iff_of_true (not_hung_of_detect (by simp)) trivial

/-- **`stop` never hangs** exactly in the runs in which the detection thread never enters its
locked section with the queue empty after `m_stop` was set and every notification was issued.

**Proof sketch.** A step leads to a state that hangs exactly if it does not meet the condition, by
`step_hung_iff`, so this is the rule for exact conditions. -/
theorem stop_never_hangs {s : State} {es : List Event}
    (hrun : (system F extended).run es = some s) :
    (system F extended).Always (fun s => ¬ Hung s) es ↔ (system F extended).Along Timely es :=
  System.always_iff_along (J := fun _ => True) trivial (fun h => nomatch h.1)
    (fun _ _ _ _ _ => trivial) (fun _ _ _ _ hs hstep => step_hung_iff hs hstep) hrun

/-- What the floating-point operations would give if they were exact. -/
def exactArith : Arith := ⟨fun gap duration => gap / duration, fun d x => some (d * x)⟩

/-- Midnight of 2025-01-01. -/
def newYear : Clock := ⟨228277 * day, by decide, by decide⟩

/-- The manager is constructed, and the detection thread has tested the flag. -/
def startup : List Event :=
  [.start, .rebuild fun _ => newYear, .announce, .spawn, .test newYear]

/-- A manager that is stopped while its detection thread waits. -/
theorem stop_never_hangs_waiting :
    (system exactArith false).Always (fun s => ¬ Hung s)
      (startup ++ [.examine 0 newYear, .stop, .clear, .wake, .test newYear, .join]) :=
  (stop_never_hangs
    (s := ⟨true, [], ∅, -1, false, .idle, .absent, 0, []⟩) rfl).2 (by decide)

/-- **A stop that hangs**: the thread enters its locked section after the notification. -/
theorem stop_hangs :
    ∃ es s, (system exactArith false).run es = some s ∧ s.control = .joining ∧ Hung s :=
  ⟨startup ++ [.stop, .clear, .wake, .examine 0 newYear],
    ⟨true, [], ∅, -1, true, .joining, .waiting, 0, []⟩, rfl, rfl, rfl, rfl, by decide⟩

/-- **The join goes on for ever**, unless a timer is added or the thread wakes up by itself.

**Proof sketch.** One case for each step. The thread sleeps without a notification on its way to
it, and whoever could send one is the one that joins. -/
theorem hung_stays {s t : State} {e : Event} (hs : Hung s) (hc : s.control = .joining)
    (hadd : ∀ call f before now, e ≠ .add call f before now) (hwake : e ≠ .wakeup)
    (hstep : step F extended s e = some t) : Hung t ∧ t.control = .joining := by
  obtain ⟨hd, hstop, howed⟩ := hs
  cases moves_of_step hstep with
  | add => exact absurd rfl (hadd _ _ _ _)
  | addNotify hp => exact absurd (.inr (.inr hp)) howed
  | remove =>
    obtain ⟨hd', hstop', hc', hp', -, -⟩ := removeTimer_same s _
    refine ⟨⟨hd'.trans hd, hstop'.trans hstop, ?_⟩, hc'.trans hc⟩
    rwa [Owed, hc', hp']
  | test hd' => simp [hd] at hd'
  | examine hd' _ => simp [hd] at hd'
  | wakeup => exact absurd rfl hwake
  | started hc' => simp [hc] at hc'
  | start hc' => simp [hc] at hc'
  | rebuild hc' => simp [hc] at hc'
  | announce hc' => simp [hc] at hc'
  | spawn hc' => simp [hc] at hc'
  | stop hc' => simp [hc] at hc'
  | clear hc' => simp [hc] at hc'
  | wake hc' => simp [hc] at hc'
  | join _ hd' => simp [hd] at hd'

end HkuUtils.TimerManager
