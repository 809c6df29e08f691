import HkuUtils.BlockingPool.Accounting

set_option relaxedAutoImplicit false
set_option autoImplicit false

/-!
# Waking the waiters of a blocking pool

A thread waits in `getWaitFor` because there is neither an idle resource nor room for a new one.
Each of the two can change, but `m_cond` is notified by one branch of `returnResource` only, and
the predicate of the wait looks at the queue only. This file says exactly in which runs a thread
is left to sleep beside an idle resource or free room.

## Main definitions

* `HkuUtils.BlockingPool.NoLostWakeup` — who sleeps has nothing to wake up for.
* `HkuUtils.BlockingPool.State.accepts` — a returned resource goes to the queue.
* `HkuUtils.BlockingPool.FreesForNobody` — the condition on the steps.

## Main results

* `HkuUtils.BlockingPool.returned_noLostWakeup_iff` — what the return of a resource does.
* `HkuUtils.BlockingPool.no_lost_wakeup`, `lost_wakeup` — no wake-up is lost exactly along the
  condition, and one is lost in some run.
-/

namespace HkuUtils.BlockingPool

open Transition

variable {P N V : Type} {s t : State P} {c : ℕ}

/-- While a thread sleeps in `getWaitFor`, there is no idle resource and no room for a new one.
The threads with a pending notification are in `notified`, not in `sleeping`. -/
def NoLostWakeup (s : State P) : Prop :=
  s.sleeping ≠ [] → s.resourceList = [] ∧ ¬ s.count < s.maxPoolSize

instance (s : State P) : Decidable (NoLostWakeup s) :=
  inferInstanceAs (Decidable (s.sleeping ≠ [] → s.resourceList = [] ∧ _))

/-- `returnResource` pushes `p`; otherwise it deletes it. -/
def State.accepts (k : Kind) (s : State P) (p : Resource P) : Bool :=
  k.stale s.version p = false ∧ s.resourceList.length < s.maxIdelSize

/-- No step makes room while a thread sleeps, and none puts a thread to sleep beside room: a
resource is deleted on its return only when nobody sleeps, and a thread that was notified gets
the mutex only when there is an idle resource for it or the pool is full. -/
def FreesForNobody (k : Kind) (s : State P) : Event P N V → Prop
  | .release c => s.alive = true → s.sleeping ≠ [] →
    ∀ hd ∈ s.handles.find? (·.closer = c), s.accepts k hd.res = true
  | .resume c => (s.notified.find? (·.call = c)).isSome = true → s.resourceList = [] →
    s.full = true
  | _ => True

instance (k : Kind) (s : State P) : ∀ e : Event P N V, Decidable (FreesForNobody k s e)
  | .release _ => inferInstanceAs (Decidable (_ → _ → _))
  | .resume _ => inferInstanceAs (Decidable (_ → _ → _))
  | .get _ | .getWaitFor _ _ | .wakeUp _ | .timeout _ | .releaseIdleResource | .setParam _ _
  | .setParameter _ | .incVersion | .destroy => isTrue trivial

/-! ## What keeps the property -/

namespace NoLostWakeup

/-- Nobody sleeps. -/
lemma of_nil (h : s.sleeping = []) : NoLostWakeup s := fun hs => absurd h hs

/-- Nobody sleeps beside an idle resource. -/
lemma sleeping_eq_nil (h : NoLostWakeup s) {p : Resource P} {rest : List (Resource P)}
    (hs : s.resourceList = p :: rest) : s.sleeping = [] := by
  by_contra hne
  have := (h hne).1
  rw [hs] at this
  exact absurd this (List.cons_ne_nil p rest)

/-- Nobody sleeps beside room for a new resource. -/
lemma sleeping_eq_nil_of_room (h : NoLostWakeup s) (hmax : 0 < s.maxPoolSize)
    (hfull : ¬ s.full = true) : s.sleeping = [] := by
  by_contra hne
  have := (h hne).2
  simp only [State.full, decide_eq_true_eq] at hfull
  omega

/-- Some of the threads wake. -/
lemma mono (h : NoLostWakeup s) (hsleeping : t.sleeping ≠ [] → s.sleeping ≠ [])
    (hlist : t.resourceList = s.resourceList) (hcount : t.count = s.count)
    (hmax : t.maxPoolSize = s.maxPoolSize) : NoLostWakeup t := by
  intro ht
  rw [hlist, hcount, hmax]
  exact h (hsleeping ht)

end NoLostWakeup

/-- A list that is not empty without one of its elements is not empty with it. -/
lemma ne_nil_of_erase {l : List Waiter} {w : Waiter} (h : l.erase w ≠ []) : l ≠ [] := by
  rintro rfl
  simp at h

/-- A construction is tried only where nobody sleeps. -/
lemma create_noLostWakeup (h : s.sleeping = []) (how : Construction) :
    NoLostWakeup (create s how).1 := by
  cases how with
  | ok => exact .of_nil h
  | throws what => exact .of_nil h
  | throwsUnknown => exact .of_nil h

/-- A call of `get`. -/
lemma get_noLostWakeup (h : NoLostWakeup s) (hmax : 0 < s.maxPoolSize) (how : Construction) :
    NoLostWakeup (get s how).1 := by
  unfold get
  split
  · split
    · exact h
    · next hfull => exact create_noLostWakeup (h.sleeping_eq_nil_of_room hmax hfull) how
  · next hs => exact .of_nil (h.sleeping_eq_nil hs)

/-- A call of `getWaitFor` up to its wait: it waits only on a full pool. -/
lemma getWaitFor_noLostWakeup (h : NoLostWakeup s) (hmax : 0 < s.maxPoolSize) (ms_timeout : ℕ)
    (how : Construction) : NoLostWakeup (getWaitFor s ms_timeout how).1 := by
  unfold getWaitFor
  split
  · next hs =>
    split
    · next hfull =>
      simp only [State.full, decide_eq_true_eq] at hfull
      refine fun _ => ⟨hs, ?_⟩
      have := hfull.2
      show ¬ s.count < s.maxPoolSize
      omega
    · next hfull => exact create_noLostWakeup (h.sleeping_eq_nil_of_room hmax hfull) how
  · next hs => exact .of_nil (h.sleeping_eq_nil hs)

/-- A release of the idle resources makes room, but not where somebody sleeps. -/
lemma releaseIdleResource_noLostWakeup (h : NoLostWakeup s) :
    NoLostWakeup (releaseIdleResource s) := by
  rw [releaseIdleResource_eq]
  intro hs
  obtain ⟨hlist, hcount⟩ := h hs
  refine ⟨rfl, ?_⟩
  simpa [Stock.flush, hlist] using hcount

/-- So does a change of the parameters. -/
lemma replaceParam_noLostWakeup (h : NoLostWakeup s) (param : P) :
    NoLostWakeup (replaceParam s param) :=
  releaseIdleResource_noLostWakeup (h.mono id rfl rfl rfl)

/-- **The return of a resource** wakes everybody if the resource is accepted; a deleted resource
leaves room, so nobody may sleep.

**Proof sketch.** By cases on whether the resource is accepted. If it is not, it makes room without
a notification, so nobody may be asleep then. -/
lemma returned_noLostWakeup_iff (k : Kind) (hacc : Accounting s)
    (hmax : 0 < s.maxPoolSize) (p : Resource P) :
    NoLostWakeup (returnResource k (s.drop c) p c) ↔
      (s.sleeping ≠ [] → s.accepts k p = true) := by
  have hcount := hacc.count_le hmax
  unfold returnResource
  by_cases ha : s.accepts k p = true
  · have hif : k.stale (s.drop c).version p = false ∧
        (s.drop c).resourceList.length < (s.drop c).maxIdelSize := of_decide_eq_true ha
    rw [if_pos hif]
    exact iff_of_true (.of_nil rfl) fun _ => ha
  · have hif : ¬ (k.stale (s.drop c).version p = false ∧
        (s.drop c).resourceList.length < (s.drop c).maxIdelSize) :=
      fun hif => ha (decide_eq_true hif)
    rw [if_neg hif]
    refine ⟨fun hI hs => ?_, fun hC => .of_nil ?_⟩
    · have hroom := (hI hs).2
      simp only [State.unregister, State.discard, State.drop, Stock.discard, Stock.drop] at hroom
      omega
    · by_contra hs
      exact ha (hC hs)

/-- A call whose wait has timed out is not notified. -/
lemma Numbered.find_notified (h : Numbered s) (hc : c ∈ s.timedOut) :
    s.notified.find? (·.call = c) = none := by
  rw [List.find?_eq_none]
  intro w hw hcall
  have hmem : c ∈ s.notified.map (·.call) :=
    List.mem_map.mpr ⟨w, hw, by simpa using hcall⟩
  have h₁ := List.one_le_count_iff.mpr hmem
  have h₂ := List.one_le_count_iff.mpr hc
  have h₃ := h c
  simp only [State.callers, List.count_append] at h₃
  split at h₃ <;> omega

/-- The rest of a call of `getWaitFor`: it may sleep again only on a full pool.

**Proof sketch.** One case for each way to go on. A call that takes a resource or ends leaves
nobody asleep beside an idle one; a call that sleeps again must not do so while the pool has
room. -/
lemma resumes_noLostWakeup_iff {r : GetResult P} (h : NoLostWakeup s) (hn : Numbered s)
    (hmax : 0 < s.maxPoolSize) (hr : Resumes s c t r) :
    NoLostWakeup t ↔ ((s.notified.find? (·.call = c)).isSome = true → s.resourceList = [] →
      s.full = true) := by
  cases hr with
  | sleepsAgain hf hs =>
    simp only [hf, hs, NoLostWakeup, State.full, Option.isSome_some, decide_eq_true_eq, true_and,
      forall_const, ne_eq, reduceCtorEq, not_false_eq_true, hmax, not_lt]
  | notified hf hs =>
    refine iff_of_true (.of_nil (h.sleeping_eq_nil hs)) fun _ hnil => ?_
    rw [hs] at hnil
    exact absurd hnil (List.cons_ne_nil _ _)
  | timeout hc hs =>
    refine iff_of_true (h.mono id rfl rfl rfl) fun hsome => ?_
    simp [hn.find_notified hc] at hsome
  | late hc hs =>
    refine iff_of_true (.of_nil (h.sleeping_eq_nil hs)) fun hsome => ?_
    simp [hn.find_notified hc] at hsome

/-! ## Runs -/

/-- What the runs of a pool with a limit keep. -/
structure Limited (s : State P) : Prop where
  numbered : Numbered s
  accounting : s.alive = true → Accounting s
  max_pos : 0 < s.maxPoolSize

/-- The limit of the pool does not change. -/
lemma maxPoolSize_of_step [ParameterOps P N V] [BEq V] {k : Kind} {e : Event P N V}
    (hstep : step k s e = some t) : t.maxPoolSize = s.maxPoolSize := by
  cases fires_of_step hstep with
  | get how =>
    unfold get create take
    repeat' split
    all_goals rfl
  | getWaitFor ms_timeout how =>
    unfold getWaitFor create take
    repeat' split
    all_goals rfl
  | resume _ hr => cases hr <;> rfl
  | returned =>
    unfold returnResource
    split <;> rfl
  | releaseIdleResource => rw [releaseIdleResource_eq]
  | setParam | setParameter => rw [replaceParam, releaseIdleResource_eq]
  | _ => rfl

/-- One event keeps this. -/
lemma step_limited [ParameterOps P N V] [BEq V] {k : Kind} {e : Event P N V} (h : Limited s)
    (hstep : step k s e = some t) : Limited t where
  numbered := step_numbered h.numbered hstep
  accounting ht :=
    step_accounting (h.accounting (alive_of_step hstep ht)) h.numbered hstep ht
  max_pos := by
    rw [maxPoolSize_of_step hstep]
    exact h.max_pos

/-- **No wake-up is lost exactly along the runs in which no room is made for a sleeping thread**
without a notification: for both classes and every pair of limits.

**Proof sketch.** By `always_iff_along`. A resource goes to the queue together with a
notification of everybody, so nobody ever sleeps beside an idle resource; room is made by the
deletion of a returned resource and, for the threads that were notified before, by a release of
the idle resources, which they find when they get the mutex. -/
theorem no_lost_wakeup [ParameterOps P N V] [BEq V] (k : Kind) (param : P) {maxPoolSize : ℕ}
    (maxIdelSize : ℕ) (hmax : 0 < maxPoolSize) {es : List (Event P N V)}
    (hrun : (system k param maxPoolSize maxIdelSize).run es = some s) :
    (system k param maxPoolSize maxIdelSize).Always
        (fun s => s.alive = true → NoLostWakeup s) es ↔
      (system k param maxPoolSize maxIdelSize).Along (FreesForNobody k) es := by
  refine System.always_iff_along (J := Limited)
    ⟨fun d => by simp [State.callers, system, State.init, Stock.empty],
      fun _ => init_accounting param maxPoolSize maxIdelSize, hmax⟩
    (fun _ => .of_nil rfl) (fun s e t hJ hstep => step_limited hJ hstep) ?_ hrun
  intro s e t hJ h hstep
  cases fires_of_step hstep with
  | get how halive =>
    exact iff_of_true (fun _ => get_noLostWakeup (h halive) hJ.max_pos how) trivial
  | getWaitFor ms_timeout how halive =>
    exact iff_of_true (fun _ => getWaitFor_noLostWakeup (h halive) hJ.max_pos ms_timeout how)
      trivial
  | wakeUp halive | timeout halive =>
    exact iff_of_true (fun _ => (h halive).mono ne_nil_of_erase rfl rfl rfl) trivial
  | timeoutNotified halive =>
    exact iff_of_true (fun _ => (h halive).mono id rfl rfl rfl) trivial
  | resume halive hr =>
    have hiff := resumes_noLostWakeup_iff (h halive) hJ.numbered hJ.max_pos hr
    have halive' : t.alive = true := by
      cases hr <;> exact halive
    exact ⟨fun hI => hiff.mp (hI halive'), fun hC _ => hiff.mpr hC⟩
  | @returned c hd halive hf =>
    have hiff := returned_noLostWakeup_iff (c := c) k (hJ.accounting halive)
      hJ.max_pos hd.res
    have halive' : (returnResource k (s.drop c) hd.res c).alive = true := by
      unfold returnResource
      split <;> exact halive
    constructor
    · intro hI _ hs hd' hd'mem
      obtain rfl : hd = hd' := Option.some.inj (hf.symm.trans hd'mem)
      exact hiff.mp (hI halive') hs
    · exact fun hC _ => hiff.mpr fun hs => hC halive hs hd hf
  | @freed c hd hf hb =>
    have hdead : ¬ s.alive = true := by
      intro halive
      have := (hJ.accounting halive).balanced.bound _ (List.mem_of_find?_eq_some hf)
      simp [hb] at this
    exact iff_of_true (fun halive => absurd halive hdead) fun halive => absurd halive hdead
  | releaseIdleResource halive =>
    exact iff_of_true (fun _ => releaseIdleResource_noLostWakeup (h halive)) trivial
  | setParamKept => exact iff_of_true h trivial
  | setParam halive | setParameter _ halive =>
    exact iff_of_true (fun _ => replaceParam_noLostWakeup (h halive) _) trivial
  | incVersion halive => exact iff_of_true (fun _ => (h halive).mono id rfl rfl rfl) trivial
  | destroy => exact iff_of_true (fun ht => by simp [destroy] at ht) trivial

/-- A thread that waits is notified of the resource that is returned, and takes it. -/
theorem no_lost_wakeup_after_return :
    (ResourcePool.system ([] : IntParams) 1 1).Always (fun s => s.alive = true → NoLostWakeup s)
      [.get .ok, .getWaitFor 0 .ok, .release 0, .resume 1] :=
  (no_lost_wakeup .plain [] 1 (by decide) rfl).mpr (by decide)

/-- The resource is deleted on its return because no idle resource is allowed, and the thread
sleeps on beside an empty pool. -/
theorem lost_wakeup : ∃ s,
    (ResourcePool.system ([] : IntParams) 1 0).run
      [.get .ok, .getWaitFor 0 .ok, .release 0] = some s ∧ s.alive = true ∧
    s.sleeping = [⟨1, false⟩] ∧ s.notified = [] ∧ s.timedOut = [] ∧ s.count = 0 ∧
    ¬ NoLostWakeup s :=
  ⟨_, rfl, rfl, rfl, rfl, rfl, rfl, by decide⟩

end HkuUtils.BlockingPool
