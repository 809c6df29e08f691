import HkuUtils.TimerManager.Queue

set_option relaxedAutoImplicit false
set_option autoImplicit false

/-!
# Removing a timer

`removeTimer` sets the repeat number of the timer to zero and leaves its entry in the queue. The
rebuilding of the queue drops such a timer, but the detection thread submits the function before it
looks at the repeat number, and so a removed timer runs once more.

## Main definitions

* `HkuUtils.TimerManager.removedIn` — whether an id was removed since it was last allocated.
* `HkuUtils.TimerManager.Effective` — no removed timer was submitted.
* `HkuUtils.TimerManager.Heeded` — the condition on what the detection thread dispatches.

## Main results

* `HkuUtils.TimerManager.kept_marked` — the removed timers of the table are those with nothing left.
* `HkuUtils.TimerManager.removal_effective`, `removed_runs` — the runs in which removals are
  effective, and a removed timer that runs.
* `HkuUtils.TimerManager.late_le_one` — a removed timer runs at most once more.
-/

namespace HkuUtils.TimerManager

open Transition

variable {F : Arith} {extended : Bool}

/-! ## Removals in the log -/

/-- `removeTimer` was called for the id since it was last allocated. -/
def removedIn (id : ℤ) : List Record → Bool
  | [] => false
  | .allocated id' _ _ :: log => if id' = id then false else removedIn id log
  | .removed id' :: log => if id' = id then true else removedIn id log
  | .submitted _ _ :: log => removedIn id log

/-- How often a function was submitted for the id after it was removed. -/
def late (id : ℤ) : List Record → ℕ
  | [] => 0
  | .allocated id' _ _ :: log => if id' = id then 0 else late id log
  | .removed _ :: log => late id log
  | .submitted id' _ :: log =>
    if id' = id ∧ removedIn id log = true then late id log + 1 else late id log

/-- Nothing was submitted for a removed id before it was allocated again. -/
def Effective : List Record → Prop
  | [] => True
  | .allocated _ _ _ :: log => Effective log
  | .removed _ :: log => Effective log
  | .submitted id _ :: log => removedIn id log = false ∧ Effective log

instance decidableEffective : ∀ log, Decidable (Effective log)
  | [] => isTrue trivial
  | .allocated _ _ _ :: log => decidableEffective log
  | .removed _ :: log => decidableEffective log
  | .submitted _ _ :: log =>
    have := decidableEffective log
    inferInstanceAs (Decidable (_ ∧ _))

/-- Records about other ids do not matter. -/
lemma removedIn_cons_of_ne {id : ℤ} {r : Record} (h : r.id ≠ id) (log : List Record) :
    removedIn id (r :: log) = removedIn id log := by
  cases r with
  | allocated id' call f => exact if_neg h
  | removed id' => exact if_neg h
  | submitted id' f => rfl

/-- Records about other ids do not matter. -/
lemma late_cons_of_ne {id : ℤ} {r : Record} (h : r.id ≠ id) (log : List Record) :
    late id (r :: log) = late id log := by
  cases r with
  | allocated id' call f => exact if_neg h
  | removed id' => rfl
  | submitted id' f => exact if_neg fun hid => h hid.1

/-- A new timer has not been removed. -/
@[simp] lemma removedIn_allocated (id : ℤ) (call : AddCall) (f : ℕ) (log : List Record) :
    removedIn id (.allocated id call f :: log) = false := if_pos rfl

/-- A removal is seen. -/
@[simp] lemma removedIn_removed (id : ℤ) (log : List Record) :
    removedIn id (.removed id :: log) = true := if_pos rfl

/-- A new timer has not been submitted after its removal. -/
@[simp] lemma late_allocated (id : ℤ) (call : AddCall) (f : ℕ) (log : List Record) :
    late id (.allocated id call f :: log) = 0 := if_pos rfl

/-! ## The mark -/

/-- A timer was removed exactly if it has nothing left, and has not run since. -/
def Marked (id : ℤ) (timer : Timer) (log : List Record) : Prop :=
  (removedIn id log = true ↔ timer.repeatNum ≤ 0) ∧ late id log = 0

/-- A timer that has something left was not removed. -/
lemma Marked.not_removed {id : ℤ} {timer : Timer} {log : List Record} (h : Marked id timer log)
    (hpos : 0 < timer.repeatNum) : removedIn id log = false :=
  Bool.eq_false_iff.2 fun hrem => absurd (h.1.1 hrem) (not_le.2 hpos)

/-- The mark stays with the timer. -/
lemma kept_marked : Kept Marked where
  frame hne h := by
    rwa [Marked, removedIn_cons_of_ne hne, late_cons_of_ne hne]
  add {call f before timer id log} h := by
    obtain ⟨hn, hpos, -⟩ := AddCall.repeatNum_of_timer h
    rw [Marked, removedIn_allocated, late_allocated, hn]
    exact ⟨iff_of_false (by simp) (not_le.2 hpos), rfl⟩
  remove {id timer log} h := by
    rw [Marked, removedIn_removed]
    exact ⟨iff_of_true rfl le_rfl, h.2⟩
  spend {id timer log} h hpos := by
    have hnot := h.not_removed (hpos.trans_le timer.spend_le)
    refine ⟨iff_of_false ?_ (not_le.2 hpos), ?_⟩
    · rw [removedIn, hnot]
      simp
    · rw [late, hnot, if_neg (by simp)]
      exact h.2

/-! ## What is dispatched -/

/-- The timer of an entry that the detection thread takes has something left to spend. -/
def Heeded (s : State) (e : Event) : Prop :=
  ∀ x ∈ taken s e, ∀ timer ∈ s.timers.lookup x.timerId, 0 < timer.repeatNum

instance (s : State) (e : Event) : Decidable (Heeded s e) :=
  inferInstanceAs (Decidable (∀ x ∈ taken s e, ∀ timer ∈ s.timers.lookup x.timerId,
    0 < timer.repeatNum))

/-- Events that take nothing meet the condition. -/
lemma heeded_of_taken {s : State} {e : Event} (h : taken s e = none) : Heeded s e := by
  simp [Heeded, h]

/-- A submission is effective exactly if the timer was not removed, which its repeat number says. -/
lemma effective_submitted_iff {id : ℤ} {timer : Timer} {log : List Record} (f : ℕ)
    (h : Effective log) (hmark : Marked id timer log) :
    Effective (.submitted id f :: log) ↔ 0 < timer.repeatNum := by
  rw [Effective, and_iff_left h, Bool.eq_false_iff, Ne, hmark.1, not_le]

/-- The submission of a dispatch. -/
lemma Dispatches.effective_iff {s t : State} {e : IntervalS} {now : Clock}
    (hmark : OfTable Marked s) (h : Effective s.log) (hd : Dispatches s e now t) :
    Effective t.log ↔ ∀ timer ∈ s.timers.lookup e.timerId, 0 < timer.repeatNum := by
  cases hd with
  | orphan ht => exact iff_of_true h (by simp [ht])
  | last ht _ =>
    rw [effective_submitted_iff _ h (hmark _ _ ht), ht]
    simp
  | again ht _ _ =>
    rw [effective_submitted_iff _ h (hmark _ _ ht), ht]
    simp

/-- **A step is effective exactly if it meets the condition.**

**Proof sketch.** One case for each move. Only an examination that takes a due timer out of the
queue submits one, and for it the condition is what `Dispatches.effective_iff` says; no other step
makes a submission late. -/
theorem step_effective_iff {s t : State} {e : Event} (hmark : OfTable Marked s)
    (h : Effective s.log) (hstep : step F extended s e = some t) :
    Effective t.log ↔ Heeded s e := by
  cases moves_of_step hstep with
  | add _ _ _ => exact iff_of_true h (heeded_of_taken rfl)
  | remove =>
    refine iff_of_true ?_ (heeded_of_taken rfl)
    rw [removeTimer]
    split <;> exact h
  | @examine i now again t hd hex =>
    cases hex with
    | wait hq => exact iff_of_true h (heeded_of_taken (by simp [taken, hd, hq]))
    | finish hi h0 => exact iff_of_true h (heeded_of_taken (by simp [taken, hd, hi, h0]))
    | sleep hi hlt =>
      exact iff_of_true h (heeded_of_taken (by simp [taken, hd, hi, hlt]))
    | @due x _ hi h0 hle hd' =>
      have htaken : taken s (.examine i again) = some x := by simp [taken, hd, hi, h0, hle]
      rw [hd'.effective_iff (s := { s with queue := s.queue.eraseIdx i }) hmark h, Heeded, htaken]
      simp
  | rebuild _ =>
    refine iff_of_true ?_ (heeded_of_taken rfl)
    rw [restart]
    split <;> exact h
  | addNotify _ => exact iff_of_true (s.notify_log.symm ▸ h) (heeded_of_taken rfl)
  | announce _ => exact iff_of_true (s.notify_log.symm ▸ h) (heeded_of_taken rfl)
  | wake _ => exact iff_of_true (s.notify_log.symm ▸ h) (heeded_of_taken rfl)
  | test _ => exact iff_of_true h (heeded_of_taken rfl)
  | wakeup _ => exact iff_of_true h (heeded_of_taken rfl)
  | started _ _ => exact iff_of_true h (heeded_of_taken rfl)
  | start _ _ => exact iff_of_true h (heeded_of_taken rfl)
  | spawn _ => exact iff_of_true h (heeded_of_taken rfl)
  | stop _ => exact iff_of_true h (heeded_of_taken rfl)
  | clear _ => exact iff_of_true h (heeded_of_taken rfl)
  | join _ _ => exact iff_of_true h (heeded_of_taken rfl)

/-- **Removals are effective** exactly in the runs in which the detection thread takes no due entry
of a timer whose repeat number is zero.

**Proof sketch.** A timer that is removed is marked in the table by its repeat number, so the log
shows a run behind the removal exactly if such an entry is taken; this is `step_effective_iff`
along the run. -/
theorem removal_effective {s : State} {es : List Event}
    (hrun : (system F extended).run es = some s) :
    (system F extended).Always (fun s => Effective s.log) es ↔
      (system F extended).Along Heeded es :=
  System.always_iff_along (J := OfTable Marked) (ofTable_init extended) trivial
    (fun _ _ _ h hstep => step_ofTable kept_marked h hstep)
    (fun _ _ _ hmark h hstep => step_effective_iff hmark h hstep) hrun

/-- A timer is removed, and the manager is stopped and started before it is due. -/
theorem removal_effective_restart :
    (system exactArith false).Always (fun s => Effective s.log)
      (startup ++ [.add (.addDelayFunc 2) 7 newYear newYear, .addNotify, .remove 0,
        .examine 0 newYear, .stop, .clear, .wake, .test newYear, .join] ++ startup ++
        [.examine 0 newYear]) :=
  (removal_effective (s := ⟨false, [], ∅, 0, true, .idle, .waiting, 0,
    [.removed 0, .allocated 0 (.addDelayFunc 2) 7]⟩) rfl).2 (by decide)

/-- **A removed timer runs at most once more**: its entry is taken, and then the timer is gone.

**Proof sketch.** By induction on the run. A run of a timer that was removed takes its only entry,
and afterwards there is none that could run again. -/
theorem late_le_one {s : State} {es : List Event} (hrun : (system F extended).run es = some s)
    (id : ℤ) : late id s.log ≤ 1 := by
  suffices h : OfTable Marked s ∧ ∀ id, late id s.log ≤ 1 from h.2 id
  refine System.run_invariant (S := system F extended)
    (I := fun s => OfTable Marked s ∧ ∀ id, late id s.log ≤ 1)
    ⟨ofTable_init extended, fun _ => Nat.zero_le 1⟩ (fun s e t h hstep => ?_) hrun
  refine ⟨step_ofTable kept_marked h.1 hstep,
    step_log (P := fun log => ∀ id, late id log ≤ 1) ?_ (fun h => h) ?_ h.1 h.2 hstep⟩
  · intro id call f log _ h id'
    by_cases hid : id = id'
    · rw [hid, late_allocated]
      exact Nat.zero_le 1
    · rw [late_cons_of_ne (r := .allocated id call f) hid]
      exact h id'
  · intro id timer log hmark h id'
    by_cases hid : id = id'
    · subst hid
      rw [late, hmark.2]
      split <;> omega
    · rw [late_cons_of_ne (r := .submitted id timer.func) hid]
      exact h id'

/-- The detection thread dispatches a removed timer, once. -/
theorem late_le_one_dispatched : ∃ s, (system exactArith false).run
    [.start, .rebuild fun _ => newYear, .announce, .spawn,
      .add (.addDelayFunc 1) 7 newYear newYear, .addNotify, .remove 0, .test tickLater,
      .examine 0 tickLater] = some s ∧ s.timers = ∅ ∧ 0 < late 0 s.log ∧ late 0 s.log ≤ 1 := by
  have hrun : (system exactArith false).run [.start, .rebuild fun _ => newYear, .announce, .spawn,
      .add (.addDelayFunc 1) 7 newYear newYear, .addNotify, .remove 0, .test tickLater,
      .examine 0 tickLater] = some _ := rfl
  exact ⟨_, hrun, rfl, by decide, late_le_one hrun 0⟩

/-- **A removed timer runs.** -/
theorem removed_runs :
    ∃ es s, (system exactArith false).run es = some s ∧
      s.log = [.submitted 0 7, .removed 0, .allocated 0 (.addDelayFunc 1) 7] ∧
      ¬ Effective s.log :=
  ⟨[.start, .rebuild fun _ => newYear, .announce, .spawn,
      .add (.addDelayFunc 1) 7 newYear newYear, .addNotify, .remove 0, .test tickLater,
      .examine 0 tickLater],
    ⟨false, [], ∅, 0, true, .idle, .testing, 0,
      [.submitted 0 7, .removed 0, .allocated 0 (.addDelayFunc 1) 7]⟩, rfl, rfl, by decide⟩

end HkuUtils.TimerManager
