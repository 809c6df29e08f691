import HkuUtils.AsioPool.Model

set_option relaxedAutoImplicit false
set_option autoImplicit false

/-!
# The accounting of the coroutine pools

In every reachable state the counters of a pool agree with its queue and with the handles of its
callers, the limit is kept, and each resource that was constructed is idle, held through one
handle, or deleted.

## Main definitions

* `HkuUtils.AsioPool.Accounting` — the counters and places are right.

## Main results

* `HkuUtils.AsioPool.step_accounting` — one event keeps the account.
* `HkuUtils.AsioPool.accounting` — every run of either class keeps it.
-/

namespace HkuUtils.AsioPool

open Transition Custody

variable {P N V : Type}

/-- The counters and places of a pool are right. -/
structure Accounting (s : State P) : Prop where
  /-- `m_count` counts the idle resources and the handles, and each resource is in one place. -/
  balanced : s.toStock.Balanced
  /-- `m_idleCount` is the length of the idle queue. -/
  idleCount_eq : s.idleCount = s.resourceList.length
  /-- The limit is kept, if there is one. -/
  count_le : 0 < s.maxCount → s.count ≤ s.maxCount

/-! ## What the small steps change -/

namespace State

/-- Cancelling a wait changes the lists of waiting calls only. -/
lemma cancel_eq (s : State P) (c : ℕ) :
    ∃ armed cancelled, s.cancel c = { s with armed := armed, cancelled := cancelled } := by
  unfold cancel
  split
  · exact ⟨_, _, rfl⟩
  · exact ⟨s.armed, s.cancelled, rfl⟩

/-- Waking the front waiter changes the waiter queue and the lists of waiting calls only. -/
lemma wake_eq (s : State P) : ∃ waiters armed cancelled,
    s.wake = { s with waiters := waiters, armed := armed, cancelled := cancelled } := by
  unfold wake
  split
  · exact ⟨s.waiters, s.armed, s.cancelled, rfl⟩
  · next w rest _ =>
    obtain ⟨armed, cancelled, h⟩ := cancel_eq { s with waiters := rest } w
    exact ⟨rest, armed, cancelled, h⟩

end State

/-- `releaseIdleResource` empties the queue, deletes what was in it and takes its length off
both counters. -/
lemma releaseIdleResource_eq (s : State P) :
    releaseIdleResource s =
      { s with toStock := s.toStock.flush, idleCount := s.idleCount - s.resourceList.length } := by
  suffices h : ∀ (l : List (Resource P)) (t : State P), t.resourceList = l →
      releaseLoop l t =
        { t with toStock := t.toStock.flush, idleCount := t.idleCount - l.length } from h _ s rfl
  intro l
  induction l with
  | nil =>
    intro t ht
    rw [releaseLoop, Stock.flush_of_nil ht, List.length_nil, Nat.cast_zero, sub_zero]
  | cons p rest ih =>
    intro t ht
    rw [releaseLoop, ih _ rfl, ← Stock.flush_of_cons ht]
    simp only [State.pop, State.discard, List.length_cons, Nat.cast_add, Nat.cast_one,
      State.mk.injEq, true_and, and_true]
    omega

namespace Accounting

variable {s : State P} {p : Resource P} {rest : List (Resource P)} {c : ℕ}

/-- The idle resource at the front is lent. -/
lemma pop_lend (h : Accounting s) (hs : s.resourceList = p :: rest) :
    Accounting ((s.pop rest).lend c p) := by
  obtain ⟨hbalanced, hidle, hle⟩ := h
  rw [hs, List.length_cons, Nat.cast_add, Nat.cast_one] at hidle
  refine ⟨hbalanced.pop_lend hs, ?_, hle⟩
  simp only [State.lend, State.pop, Stock.lend, Stock.pop]
  omega

/-- The idle resource at the front is deleted. -/
lemma pop_discard (h : Accounting s) (hs : s.resourceList = p :: rest) :
    Accounting ((s.pop rest).discard p) := by
  obtain ⟨hbalanced, hidle, hle⟩ := h
  rw [hs, List.length_cons, Nat.cast_add, Nat.cast_one] at hidle
  refine ⟨hbalanced.pop_discard hs, ?_, fun hpos => ?_⟩
  · simp only [State.discard, State.pop, Stock.discard, Stock.pop]
    omega
  · have := hle hpos
    simp only [State.discard, State.pop, Stock.discard, Stock.pop]
    omega

/-- A new resource is made and lent. -/
lemma construct_lend (h : Accounting s) (hlt : s.maxCount = 0 ∨ s.count < s.maxCount) :
    Accounting (s.construct.lend c s.fresh) := by
  refine ⟨h.balanced.construct_lend rfl, h.idleCount_eq, fun hpos => ?_⟩
  simp only [State.lend, State.construct, Stock.lend, Stock.construct] at hpos ⊢
  omega

/-- A handle is dropped and its resource goes to the back of the queue. -/
lemma drop_push (h : Accounting s) {hd : Handle P}
    (hf : s.handles.find? (·.closer = c) = some hd) : Accounting ((s.drop c).push hd.res) := by
  refine ⟨h.balanced.drop_push hf, ?_, h.count_le⟩
  have hidle := h.idleCount_eq
  simp only [State.push, State.drop, List.length_append, List.length_singleton, Nat.cast_add,
    Nat.cast_one, Stock.push, Stock.drop]
  omega

/-- A handle is dropped and its resource deleted. -/
lemma drop_discard (h : Accounting s) {hd : Handle P}
    (hf : s.handles.find? (·.closer = c) = some hd) : Accounting ((s.drop c).discard hd.res) := by
  refine ⟨h.balanced.drop_discard hf, h.idleCount_eq, fun hpos => ?_⟩
  have := h.count_le hpos
  simp only [State.discard, State.drop, Stock.discard, Stock.drop]
  omega

/-- The whole queue is released. -/
lemma releaseIdleResource (h : Accounting s) : Accounting (releaseIdleResource s) := by
  rw [releaseIdleResource_eq]
  obtain ⟨hbalanced, hidle, hle⟩ := h
  refine ⟨hbalanced.flush, ?_, fun hpos => ?_⟩
  · simp only [Stock.flush, List.length_nil, Nat.cast_zero]
    omega
  · have := hle hpos
    simp only [Stock.flush]
    omega

/-- Only the stock, the count of the idle resources and the limit are accounted. -/
lemma congr {t : State P} (h : Accounting s) (hstock : t.toStock = s.toStock)
    (hidle : t.idleCount = s.idleCount) (hmax : t.maxCount = s.maxCount) : Accounting t := by
  refine ⟨?_, ?_, ?_⟩
  · rw [hstock]
    exact h.balanced
  · rw [hidle, hstock, h.idleCount_eq]
  · rw [hmax, hstock]
    exact h.count_le

/-- Waking a waiter does not touch what is accounted. -/
lemma wake (h : Accounting s) : Accounting s.wake := by
  obtain ⟨_, _, _, hw⟩ := s.wake_eq
  exact h.congr (by rw [hw]) (by rw [hw]) (by rw [hw])

end Accounting

/-! ## Steps and runs -/

variable {s t : State P} {c : ℕ}

/-- A new resource or a wait keeps the account. -/
lemma createOrWait_accounting (h : Accounting s) (how : Construction) :
    Accounting (createOrWait s c how).1 := by
  unfold createOrWait
  split
  · next hlt =>
    cases how with
    | ok => exact (h.construct_lend (c := c) hlt).congr rfl rfl rfl
    | throws what => exact h
    | throwsUnknown => exact h
  · exact h.congr rfl rfl rfl

/-- A call of `get` up to its suspension keeps the account. -/
lemma get_accounting (k : Kind) (h : Accounting s) (how : Construction) :
    Accounting (get k s how).1 := by
  have h' : Accounting { s with gets := s.gets + 1 } := h.congr rfl rfl rfl
  simp only [get]
  split
  · exact createOrWait_accounting h' how
  · next p rest hs =>
    split
    · exact createOrWait_accounting (h'.pop_discard hs) how
    · exact h'.pop_lend hs

/-- The rest of a call of `get` after its wait keeps the account. -/
lemma resumes_accounting {k : Kind} (h : Accounting s) {r : GetResult P}
    (hr : Resumes k s c t r) : Accounting t := by
  have hl : Accounting (s.leave c) := h.congr rfl rfl rfl
  cases hr with
  | timedOut => exact hl
  | empty => exact hl
  | mismatch _ _ hs => exact hl.pop_discard hs
  | lent _ _ hs => exact hl.pop_lend hs

/-- `returnResource` keeps the account. -/
lemma returnResource_accounting (k : Kind) (h : Accounting s) (pushed : Bool) {hd : Handle P}
    (hf : s.handles.find? (·.closer = c) = some hd) :
    Accounting (returnResource k (s.drop c) hd.res c pushed) := by
  unfold returnResource
  split
  · exact (h.drop_discard hf).congr rfl rfl rfl
  split
  · exact (h.drop_push hf).wake.congr rfl rfl rfl
  · exact (h.drop_discard hf).wake.congr rfl rfl rfl

/-- New parameters keep the account. -/
lemma replaceParam_accounting (h : Accounting s) (param : P) :
    Accounting (replaceParam s param) :=
  Accounting.releaseIdleResource (h.congr rfl rfl rfl)

/-- A step out of a destroyed pool leaves it destroyed. -/
lemma alive_of_step [ParameterOps P N V] [BEq V] {k : Kind} {e : Event P N V}
    (hstep : step k s e = some t) (halive : t.alive = true) : s.alive = true := by
  cases fires_of_step hstep <;> assumption

/-- A new resource or a wait does not end the life of a pool. -/
lemma createOrWait_alive (s : State P) (c : ℕ) (how : Construction) :
    (createOrWait s c how).1.alive = s.alive := by
  unfold createOrWait
  split
  · cases how <;> rfl
  · rfl

/-- Nor does a call of `get`. -/
lemma get_alive (k : Kind) (s : State P) (how : Construction) :
    (get k s how).1.alive = s.alive := by
  simp only [get]
  split
  · rw [createOrWait_alive]
  split
  · rw [createOrWait_alive]
    rfl
  · rfl

/-- Nor does a call that resumes. -/
lemma Resumes.alive {k : Kind} {r : GetResult P} (hr : Resumes k s c t r) :
    t.alive = s.alive := by
  cases hr <;> rfl

/-- Nor does a return. -/
lemma returnResource_alive (k : Kind) (s : State P) (p : Resource P) (c : ℕ) (pushed : Bool) :
    (returnResource k s p c pushed).alive = s.alive := by
  obtain ⟨_, _, _, hpush⟩ := (s.push p).wake_eq
  obtain ⟨_, _, _, hdiscard⟩ := (s.discard p).wake_eq
  rw [returnResource, hpush, hdiscard]
  split
  · rfl
  split <;> rfl

/-- No step but the destructor ends the life of a pool. -/
lemma alive_step [ParameterOps P N V] [BEq V] {k : Kind} {e : Event P N V}
    (hstep : step k s e = some t) (halive : s.alive = true) :
    t.alive = true ∨ e = .destroy ∧ t = destroy s := by
  cases fires_of_step hstep with
  | get how => exact Or.inl ((get_alive k s how).trans halive)
  | resume _ hr => exact Or.inl (hr.alive.trans halive)
  | returned pushed => exact Or.inl ((returnResource_alive k _ _ _ pushed).trans halive)
  | releaseIdleResource =>
    rw [releaseIdleResource_eq]
    exact Or.inl halive
  | setParam | setParameter =>
    rw [replaceParam, releaseIdleResource_eq]
    exact Or.inl halive
  | expire | interrupt | freed | setParamKept | incVersion => exact Or.inl halive
  | destroy => exact Or.inr ⟨rfl, rfl⟩

/-- **One event keeps the account** of a pool that it does not destroy.

**Proof sketch.** One case for each way in which the event changes the pool, with the lemma for
this way. -/
theorem step_accounting [ParameterOps P N V] [BEq V] {k : Kind} {e : Event P N V}
    (h : Accounting s) (hstep : step k s e = some t) (halive : t.alive = true) :
    Accounting t := by
  cases fires_of_step hstep with
  | get how => exact get_accounting k h how
  | expire => exact h.congr rfl rfl rfl
  | interrupt => exact h.congr rfl rfl rfl
  | resume _ hr => exact resumes_accounting h hr
  | returned pushed _ hf => exact returnResource_accounting k h pushed hf
  | freed _ hf hb =>
    have := h.balanced.bound _ (List.mem_of_find?_eq_some hf)
    simp [hb] at this
  | releaseIdleResource => exact h.releaseIdleResource
  | setParamKept => exact h
  | setParam => exact replaceParam_accounting h _
  | setParameter param => exact replaceParam_accounting h param
  | incVersion => exact h.congr rfl rfl rfl
  | destroy => simp [destroy] at halive

/-- A new pool has nothing to account for. -/
lemma init_accounting (param : P) (maxCount : ℕ) : Accounting (State.init param maxCount) :=
  ⟨Stock.Balanced.empty, rfl, fun _ => Int.natCast_nonneg _⟩

/-- **The account is kept by every run** of either class: constructors that throw, waits that end
in any way, failing pushes and version changes included.

**Proof sketch.** By induction on the run, with `step_accounting`; a pool that lives has lived
before. -/
theorem accounting [ParameterOps P N V] [BEq V] (k : Kind) (param : P) (maxCount : ℕ)
    {es : List (Event P N V)} (hrun : (system k param maxCount).run es = some s)
    (halive : s.alive = true) : Accounting s := by
  exact System.run_invariant (I := fun s => s.alive = true → Accounting s)
    (fun _ => init_accounting param maxCount)
    (fun s e t hI hstep ht => step_accounting (hI (alive_of_step hstep ht)) hstep ht) hrun halive

/-- The account after a wait, a change of the parameters and a construction that throws. -/
theorem accounting_after_change : ∃ s,
    (system .versioned ([] : IntParams) 1).run
      [.get .ok, .get .ok, .release 0 true, .setParam "port" 1, .get (.throws "refused"),
        .resume 1] = some s ∧ Accounting s := by
  have hrun : (system .versioned ([] : IntParams) 1).run
      [.get .ok, .get .ok, .release 0 true, .setParam "port" 1, .get (.throws "refused"),
        .resume 1] = some _ := rfl
  exact ⟨_, hrun, accounting .versioned [] 1 hrun rfl⟩

end HkuUtils.AsioPool
