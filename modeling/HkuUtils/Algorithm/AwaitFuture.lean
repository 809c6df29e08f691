import Mathlib.Data.List.Basic
import HkuUtils.Threads

set_option relaxedAutoImplicit false
set_option autoImplicit false

/-!
# Coroutines that wait for one future

`await_future` on a `std::shared_ptr<std::future<T>>` polls the future until it is ready and then
takes its result with `get`. Several coroutines may hold the same pointer, and the documentation
says that each of them receives the result; but `get` can be called once, and releases the state
that the other coroutines go on to ask for.

## Main definitions

* `HkuUtils.Algorithm.Future` — a `std::future`, with `waitFor` and `get`.
* `HkuUtils.Algorithm.Coroutine`, `resume` — where a coroutine is in `await_future`, and its next
  step.
* `HkuUtils.Algorithm.awaiting` — a number of coroutines that wait for one future.
* `HkuUtils.Algorithm.Broadcasts` — every one of them completes with the result.

## Main results

* `HkuUtils.Algorithm.step_awaits`, `step_effort_lt` — one step.
* `HkuUtils.Algorithm.one_receives` — of the coroutines that have ended one has the result.
* `HkuUtils.Algorithm.broadcasts_iff_one`, `second_fails` — how many coroutines can wait for a
  future, and two that do not both receive the result.

## Design

A coroutine is suspended between two polls and can be resumed at any time; a poll and the call of
`get` after the last one are two steps. The future becomes ready in a step of the environment. The
version for `void` is the one for the type with one value.
-/

namespace HkuUtils.Algorithm

open Threads Transition

variable {T E : Type}

/-! ## A future -/

/-- `std::future<T>`: the result of its task, once there is one, and `valid()`. -/
structure Future (T E : Type) where
  result : Option (Except E T)
  valid : Bool

/-- `wait_for(0s) == std::future_status::ready`; `none` is a `std::future_error`. -/
def Future.waitFor (f : Future T E) : Option Bool :=
  if f.valid then some f.result.isSome else none

/-- `get`, which waits for the result and releases it. -/
def Future.get (f : Future T E) : Option (Except E T × Future T E) :=
  f.result.map fun r => (r, { f with valid := false })

/-! ## The coroutines -/

/-- How a coroutine ends. -/
inductive Ending (T E : Type) where
  /-- With the value of the future or its exception. -/
  | result (r : Except E T)
  /-- With a `std::future_error`. -/
  | futureError

/-- Where a coroutine is in `await_future`. -/
inductive Coroutine (T E : Type) where
  /-- Before `wait_for` in the condition of the loop. -/
  | polling
  /-- In `co_await timer.async_wait`. -/
  | suspended
  /-- Before `get`. -/
  | ready
  | ended (how : Ending T E)

/-- The next step of a coroutine: it polls the future until this is ready and takes its result
then, or goes to sleep between two polls.

A future whose result was taken is not valid any more, which `wait_for` and `get` report by an
exception. -/
def resume (f : Future T E) : Coroutine T E → Option (Future T E × Coroutine T E)
  | .polling =>
    match f.waitFor with
    | none => some (f, .ended .futureError)
    | some true => some (f, .ready)
    | some false => some (f, .suspended)
  | .suspended => some (f, .polling)
  | .ready => if f.valid then f.get.map fun x => (x.2, .ended (.result x.1))
    else some (f, .ended .futureError)
  | .ended _ => none

/-- A future and the coroutines that wait for it. -/
structure Awaiting (T E : Type) where
  future : Future T E
  coroutines : List (Coroutine T E)

/-- What happens next. -/
inductive Wake where
  /-- The task of the future ends. -/
  | complete
  /-- A coroutine goes on. -/
  | resume (i : ℕ)

/-- The step of an event, for a task that ends with the result `r`. -/
def stepAwaiting (r : Except E T) (s : Awaiting T E) : Wake → Option (Awaiting T E)
  | .complete =>
    if s.future.result.isSome then none
    else some { s with future := { s.future with result := some r } }
  | .resume i =>
    s.coroutines[i]?.bind fun c =>
      (resume s.future c).map fun x => ⟨x.1, s.coroutines.set i x.2⟩

/-- `k` coroutines that call `await_future` on the same pointer. -/
def awaiting (k : ℕ) (r : Except E T) : System (Awaiting T E) Wake where
  init := ⟨⟨none, true⟩, List.replicate k .polling⟩
  step := stepAwaiting r

/-- The coroutine has ended with a result. -/
def Coroutine.received : Coroutine T E → Bool
  | .ended (.result _) => true
  | _ => false

/-- The coroutine has ended. -/
def Coroutine.isEnded : Coroutine T E → Bool
  | .ended _ => true
  | _ => false

/-- **What the documentation promises**: no coroutine ends with anything but the result of the
future; and once there is a result, the coroutines come to their ends, whatever the order is. -/
structure Broadcasts (k : ℕ) (r : Except E T) : Prop where
  right : ∀ es s, (awaiting k r).run es = some s →
    ∀ c ∈ s.coroutines, ∀ how, c = .ended how → how = .result r
  bounded : ∀ es s, (awaiting k r).run es = some s → s.future.result.isSome = true →
    ∃ n, ∀ fs t, (awaiting k r).runFrom s fs = some t → fs.length ≤ n
  progress : ∀ es s, (awaiting k r).run es = some s →
    (∃ c ∈ s.coroutines, c.isEnded = false) → ∃ e t, stepAwaiting r s e = some t

/-! ## What one step can do -/

variable {r : Except E T} {s t : Awaiting T E}

/-- What a coroutine can do. -/
inductive Resumes (f : Future T E) : Coroutine T E → Future T E → Coroutine T E → Prop where
  | fail {c : Coroutine T E} (hc : c = .polling ∨ c = .ready) (hv : f.valid = false) :
    Resumes f c f (.ended .futureError)
  | sleep (hr : f.result = none) : Resumes f .polling f .suspended
  | see {x : Except E T} (hv : f.valid = true) (hr : f.result = some x) :
    Resumes f .polling f .ready
  | wake : Resumes f .suspended f .polling
  | take {x : Except E T} (hv : f.valid = true) (hr : f.result = some x) :
    Resumes f .ready { f with valid := false } (.ended (.result x))

/-- Inversion of a step of a coroutine.

**Proof sketch.** One case for each place of the coroutine, and in each whether the future is valid
and has its result. -/
lemma resumes_of_resume {f f' : Future T E} {c c' : Coroutine T E}
    (h : resume f c = some (f', c')) : Resumes f c f' c' := by
  cases c with
  | polling =>
    cases hv : f.valid with
    | false =>
      simp only [resume, Future.waitFor, hv] at h
      cases h
      exact .fail (.inl rfl) hv
    | true =>
      cases hr : f.result with
      | none =>
        simp only [resume, Future.waitFor, hv, hr] at h
        cases h
        exact .sleep hr
      | some x =>
        simp only [resume, Future.waitFor, hv, hr] at h
        cases h
        exact .see hv hr
  | suspended =>
    cases h
    exact .wake
  | ready =>
    rw [resume] at h
    split at h
    · next hv =>
      obtain ⟨x, hx, heq⟩ := Option.map_eq_some_iff.1 h
      obtain ⟨y, hy, rfl⟩ := Option.map_eq_some_iff.1 hx
      cases heq
      exact .take hv hy
    · next hv =>
      cases h
      exact .fail (.inr rfl) (Bool.eq_false_iff.2 hv)
  | ended how => cases h

/-- What an event can do. -/
inductive Wakes (r : Except E T) (s : Awaiting T E) : Wake → Awaiting T E → Prop where
  | complete (hr : s.future.result = none) :
    Wakes r s .complete { s with future := { s.future with result := some r } }
  | resume {i : ℕ} {c c' : Coroutine T E} {f : Future T E} (hi : s.coroutines[i]? = some c)
    (hc : Resumes s.future c f c') : Wakes r s (.resume i) ⟨f, s.coroutines.set i c'⟩

/-- Inversion of a step. -/
theorem wakes_of_step {e : Wake} (h : stepAwaiting r s e = some t) : Wakes r s e t := by
  cases e with
  | complete =>
    obtain ⟨hr, h⟩ := Option.ite_none_left_eq_some.1 h
    cases h
    exact .complete (by simpa using hr)
  | resume i =>
    obtain ⟨c, hi, h⟩ := Option.bind_eq_some_iff.1 h
    obtain ⟨⟨f, c'⟩, hx, rfl⟩ := Option.map_eq_some_iff.1 h
    exact .resume hi (resumes_of_resume hx)

/-! ## What holds of the coroutines -/

/-- What holds of `k` coroutines: one has the result exactly when the future is not valid any
more. -/
structure Awaits (k : ℕ) (r : Except E T) (s : Awaiting T E) : Prop where
  length_eq : s.coroutines.length = k
  result : s.future.result = none ∨ s.future.result = some r
  released : s.future.valid = false → s.future.result.isSome = true
  ready : .ready ∈ s.coroutines → s.future.result.isSome = true
  taken : s.coroutines.countP Coroutine.received + (if s.future.valid then 1 else 0) = 1
  values : ∀ x, .ended (.result x) ∈ s.coroutines → x = r
  failed : .ended .futureError ∈ s.coroutines → s.future.valid = false

/-- At first all coroutines poll. -/
lemma awaits_init (k : ℕ) (r : Except E T) : Awaits k r (awaiting k r).init := by
  refine ⟨List.length_replicate .., .inl rfl, fun h => by simp [awaiting] at h, ?_, ?_, ?_, ?_⟩
  · intro h
    cases List.eq_of_mem_replicate h
  · have hzero : (List.replicate k (Coroutine.polling : Coroutine T E)).countP
        Coroutine.received = 0 := by
      rw [List.countP_eq_zero]
      intro c hc
      rw [List.eq_of_mem_replicate hc]
      simp [Coroutine.received]
    simp [awaiting, hzero]
  · intro x h
    cases List.eq_of_mem_replicate h
  · intro h
    cases List.eq_of_mem_replicate h

/-- A coroutine goes on.

**Proof sketch.** One case for each way to go on. The coroutine that takes the result is the one
that the count gains, and the future is not valid any more; every other way leaves both. -/
lemma Awaits.resume {k i : ℕ} {c c' : Coroutine T E} {f : Future T E} (h : Awaits k r s)
    (hi : s.coroutines[i]? = some c) (hc : Resumes s.future c f c') :
    Awaits k r ⟨f, s.coroutines.set i c'⟩ := by
  have hlength : (s.coroutines.set i c').length = k := by
    rw [List.length_set, h.length_eq]
  have hcount := countP_set_add Coroutine.received hi c'
  have htaken := h.taken
  have hsame : c.received = false → c'.received = false →
      (s.coroutines.set i c').countP Coroutine.received +
        (if s.future.valid then 1 else 0) = 1 := by
    intro hold hnew
    simp only [hold, hnew, Bool.false_eq_true, if_false, Nat.add_zero] at hcount
    rw [hcount, htaken]
  have hmem : ∀ d ∈ s.coroutines.set i c', d ≠ c' → d ∈ s.coroutines := fun d hd hne =>
    (List.mem_or_eq_of_mem_set hd).resolve_right hne
  cases hc with
  | fail hc hv =>
    have hold : c.received = false := by rcases hc with rfl | rfl <;> rfl
    exact ⟨hlength, h.result, h.released, fun _ => h.released hv, hsame hold rfl,
      fun x hx => h.values x (hmem _ hx nofun), fun _ => hv⟩
  | sleep hr =>
    exact ⟨hlength, h.result, h.released, fun hready => h.ready (hmem _ hready nofun),
      hsame rfl rfl, fun x hx => h.values x (hmem _ hx nofun), fun hx => h.failed (hmem _ hx nofun)⟩
  | see hv hr =>
    exact ⟨hlength, h.result, h.released, fun _ => by simp [hr], hsame rfl rfl,
      fun x hx => h.values x (hmem _ hx nofun), fun hx => h.failed (hmem _ hx nofun)⟩
  | wake =>
    exact ⟨hlength, h.result, h.released, fun hready => h.ready (hmem _ hready nofun),
      hsame rfl rfl, fun x hx => h.values x (hmem _ hx nofun), fun hx => h.failed (hmem _ hx nofun)⟩
  | @take x hv hr =>
    refine ⟨hlength, h.result, fun _ => by simp [hr], fun _ => by simp [hr], ?_, fun y hy => ?_,
      fun _ => rfl⟩
    · simp only [Coroutine.received, hv, if_true, Bool.false_eq_true, if_false] at hcount htaken ⊢
      omega
    · by_cases heq : y = x
      · rw [heq]
        rcases h.result with hnone | hsome
        · cases hnone.symm.trans hr
        · exact Option.some.inj (hr.symm.trans hsome)
      · refine h.values y (hmem _ hy fun hcoroutine => heq ?_)
        cases hcoroutine
        rfl

/-- **One step keeps what holds of the coroutines.** -/
theorem step_awaits {k : ℕ} {e : Wake} (h : Awaits k r s) (hstep : stepAwaiting r s e = some t) :
    Awaits k r t := by
  cases wakes_of_step hstep with
  | complete hr =>
    exact ⟨h.length_eq, .inr rfl, fun _ => rfl, fun _ => rfl, h.taken, h.values, h.failed⟩
  | resume hi hc => exact h.resume hi hc

/-- What holds of the coroutines holds after every run. -/
lemma awaits_of_run {k : ℕ} {es : List Wake} (hrun : (awaiting k r).run es = some s) :
    Awaits k r s :=
  System.run_invariant (awaits_init k r) (fun _ _ _ h hstep => step_awaits h hstep) hrun

/-- **One receives the result**: when all coroutines have ended, exactly one of them has it, and
the others have an error.

**Proof sketch.** A coroutine that failed has found the result taken, and at most one has it. There
is at least one coroutine, which has received the result or has failed. -/
theorem one_receives {k : ℕ} (hk : 1 ≤ k) (h : Awaits k r s)
    (hall : ∀ c ∈ s.coroutines, c.isEnded = true) :
    s.coroutines.countP Coroutine.received = 1 := by
  have htaken := h.taken
  obtain ⟨c, hc⟩ := List.exists_mem_of_length_pos (h.length_eq ▸ hk : 0 < s.coroutines.length)
  have hended := hall c hc
  cases c with
  | ended how =>
    cases how with
    | result x =>
      have hpos : 0 < s.coroutines.countP Coroutine.received :=
        List.countP_pos_iff.2 ⟨_, hc, rfl⟩
      omega
    | futureError =>
      rw [h.failed hc] at htaken
      simpa using htaken
  | _ => cases hended

/-- Among several coroutines that have ended, some have an error. -/
lemma not_right_of_two {k : ℕ} (hk : 2 ≤ k) (h : Awaits k r s)
    (hall : ∀ c ∈ s.coroutines, c.isEnded = true) :
    .ended .futureError ∈ s.coroutines := by
  by_contra hnone
  have hreceived : ∀ c ∈ s.coroutines, Coroutine.received c = true := by
    intro c hc
    have hended := hall c hc
    cases c with
    | ended how =>
      cases how with
      | result x => rfl
      | futureError => exact absurd hc hnone
    | _ => cases hended
  have hone := one_receives (by omega) h hall
  rw [List.countP_eq_length.2 hreceived, h.length_eq] at hone
  omega

/-- A single coroutine has no error. -/
lemma right_of_one (h : Awaits 1 r s) : ∀ c ∈ s.coroutines, ∀ how, c = .ended how →
    how = .result r := by
  obtain ⟨d, hd⟩ := List.length_eq_one_iff.1 h.length_eq
  intro c hc how heq
  cases how with
  | result x =>
    rw [h.values x (heq ▸ hc)]
  | futureError =>
    have htaken := h.taken
    have hfailed := h.failed (heq ▸ hc)
    rw [hd, List.mem_singleton] at hc
    rw [hd, ← hc, heq, hfailed] at htaken
    simp [Coroutine.received] at htaken

/-! ## The coroutines come to their ends -/

/-- A coroutine that has not ended can go on. -/
lemma exists_resume {k : ℕ} (h : Awaits k r s) {c : Coroutine T E} (hc : c ∈ s.coroutines)
    (hended : c.isEnded = false) : ∃ e t, stepAwaiting r s e = some t := by
  obtain ⟨i, hi⟩ := List.mem_iff_getElem?.1 hc
  suffices hgo : ∃ x, resume s.future c = some x by
    obtain ⟨x, hx⟩ := hgo
    refine ⟨.resume i, ⟨x.1, s.coroutines.set i x.2⟩, ?_⟩
    rw [stepAwaiting, hi, Option.bind_some, hx]
    rfl
  cases c with
  | polling =>
    rw [resume]
    split <;> exact ⟨_, rfl⟩
  | suspended => exact ⟨_, rfl⟩
  | ready =>
    obtain ⟨x, hx⟩ := Option.isSome_iff_exists.1 (h.ready hc)
    rw [resume, Future.get, hx]
    split <;> exact ⟨_, rfl⟩
  | ended how => cases hended

/-- How often a coroutine is resumed at most when the future is ready. -/
def Coroutine.effort : Coroutine T E → ℕ
  | .suspended => 3
  | .polling => 2
  | .ready => 1
  | .ended _ => 0

/-- **One step leaves less to do** when the future is ready.

**Proof sketch.** One case for each step of a coroutine: since the future is ready, none goes to
sleep, and each of the others is nearer to its end than before. -/
theorem step_effort_lt {e : Wake} (hready : s.future.result.isSome = true)
    (hstep : stepAwaiting r s e = some t) :
    t.future.result.isSome = true ∧
      (t.coroutines.map Coroutine.effort).sum < (s.coroutines.map Coroutine.effort).sum := by
  cases wakes_of_step hstep with
  | complete hr => simp [hr] at hready
  | @resume i c c' f hi hc =>
    have hsum := sum_map_set_add Coroutine.effort hi c'
    cases hc with
    | fail hc hv =>
      refine ⟨hready, ?_⟩
      rcases hc with rfl | rfl
      · simp only [Coroutine.effort] at hsum ⊢
        omega
      · simp only [Coroutine.effort] at hsum ⊢
        omega
    | sleep hr => simp [hr] at hready
    | see hv hr | wake | take hv hr =>
      refine ⟨hready, ?_⟩
      simp only [Coroutine.effort] at hsum ⊢
      omega

/-- **Once the future is ready the coroutines come to their ends.** -/
lemma exists_all_ended {k : ℕ} (h : Awaits k r s) (hready : s.future.result.isSome = true) :
    ∃ fs t, (awaiting k r).runFrom s fs = some t ∧ ∀ c ∈ t.coroutines, c.isEnded = true := by
  induction hn : (s.coroutines.map Coroutine.effort).sum using Nat.strong_induction_on
    generalizing s with
  | _ n ih =>
    by_cases hall : ∀ c ∈ s.coroutines, c.isEnded = true
    · exact ⟨[], s, rfl, hall⟩
    · push Not at hall
      obtain ⟨c, hc, hended⟩ := hall
      obtain ⟨e, t, hstep⟩ := exists_resume h hc (Bool.eq_false_iff.2 hended)
      obtain ⟨hready', hlt⟩ := step_effort_lt hready hstep
      obtain ⟨fs, u, hrun, hu⟩ := ih _ (hn ▸ hlt) (step_awaits h hstep) hready' rfl
      exact ⟨e :: fs, u, (awaiting k r).runFrom_cons_eq_some.2 ⟨t, hstep, hrun⟩, hu⟩

/-! ## How many can wait -/

/-- **How many coroutines can wait for one future.** Every one of `k` coroutines completes with the
result of the future, in every order of their polls and resumptions, if and only if `k` is one.

**Proof sketch.** `Awaits` counts the coroutines that have the result: there is one exactly when the
future is not valid any more. From the step after which the future is ready, every further step
leaves less to do, so every order comes to an end, where exactly one coroutine has the result. -/
theorem broadcasts_iff_one {k : ℕ} (hk : 1 ≤ k) (r : Except E T) :
    Broadcasts k r ↔ k = 1 := by
  constructor
  · intro h
    by_contra hne
    have hready : Awaits k r ⟨⟨some r, true⟩, (awaiting k r).init.coroutines⟩ :=
      step_awaits (e := .complete) (awaits_init k r) rfl
    obtain ⟨fs, t, hrun, hall⟩ := exists_all_ended hready rfl
    have hrun' : (awaiting k r).run (.complete :: fs) = some t :=
      (awaiting k r).runFrom_cons_eq_some.2 ⟨_, rfl, hrun⟩
    have hfailed := not_right_of_two (by omega) (awaits_of_run hrun') hall
    cases h.right _ _ hrun' _ hfailed _ rfl
  · rintro rfl
    refine ⟨fun es s hrun => right_of_one (awaits_of_run hrun), fun es s _ hready => ?_, ?_⟩
    · refine ⟨(s.coroutines.map Coroutine.effort).sum, fun fs t hrun => ?_⟩
      have hlength := (awaiting 1 r).runFrom_length_le
        (I := fun s => s.future.result.isSome = true)
        (μ := fun s => (s.coroutines.map Coroutine.effort).sum)
        (fun _ _ _ h hstep => step_effort_lt h hstep) hready hrun
      omega
    · rintro es s hrun ⟨c, hc, hended⟩
      exact exists_resume (awaits_of_run hrun) hc hended

/-- A single coroutine. -/
theorem broadcasts_iff_one_self : Broadcasts 1 (.ok 42 : Except String ℕ) :=
  (broadcasts_iff_one (Nat.le_refl 1) _).2 rfl

/-- **The second coroutine fails**: both poll, the future becomes ready, and the first takes the
result. -/
theorem second_fails :
    ∃ s, (awaiting 2 (.ok 42 : Except String ℕ)).run
        [.resume 0, .resume 1, .complete, .resume 0, .resume 1, .resume 0, .resume 0, .resume 1] =
          some s ∧
      s.coroutines = [.ended (.result (.ok 42)), .ended .futureError] ∧
      ¬ Broadcasts 2 (.ok 42 : Except String ℕ) := by
  have hrun : (awaiting 2 (.ok 42 : Except String ℕ)).run
      [.resume 0, .resume 1, .complete, .resume 0, .resume 1, .resume 0, .resume 0, .resume 1] =
        some ⟨⟨some (.ok 42), false⟩, [.ended (.result (.ok 42)), .ended .futureError]⟩ := rfl
  refine ⟨_, hrun, rfl, fun h => ?_⟩
  cases h.right _ _ hrun (.ended .futureError) (List.mem_cons_of_mem _ List.mem_cons_self) _ rfl

end HkuUtils.Algorithm
