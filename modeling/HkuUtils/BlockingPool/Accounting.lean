import HkuUtils.BlockingPool.Model

set_option relaxedAutoImplicit false
set_option autoImplicit false

/-!
# The accounting of the blocking pools

In every reachable state the count of a pool agrees with its queue and with the handles of its
callers, the limit is kept, each resource that was constructed is idle, held through one handle or
deleted, and the set of closers is that of the handles. A call whose construction fails changes
nothing.

## Main definitions

* `HkuUtils.BlockingPool.Accounting` — the count, the places and the closers are right.
* `HkuUtils.BlockingPool.Numbered` — each call is at one place at most.

## Main results

* `HkuUtils.BlockingPool.step_accounting` — one event keeps the account.
* `HkuUtils.BlockingPool.pool_accounting` — every run of either class keeps it.
-/

namespace HkuUtils.BlockingPool

open Transition

variable {P N V : Type} {s t : State P} {c : ℕ}

/-- The count, the places and the closers of a pool are right. -/
structure Accounting (s : State P) : Prop where
  /-- `m_count` counts the idle resources and the handles, and each resource is in one place. -/
  balanced : s.toStock.Balanced
  /-- The limit is kept, if there is one. -/
  count_le : 0 < s.maxPoolSize → s.count ≤ s.maxPoolSize
  /-- `m_closer_set` is the set of the closers of the handles. -/
  tracked : s.toStock.Tracks s.closerSet

/-! ## The numbers of the calls -/

/-- The calls that wait or have a handle. -/
def State.callers (s : State P) : List ℕ :=
  s.sleeping.map (·.call) ++ s.notified.map (·.call) ++ s.timedOut ++ s.handles.map (·.closer)

/-- Each call is at one place at most, and only after it has started. -/
def Numbered (s : State P) : Prop :=
  ∀ c, s.callers.count c ≤ if c < s.calls then 1 else 0

namespace Numbered

/-- Fewer callers. -/
lemma mono (h : Numbered s) (hle : ∀ d, t.callers.count d ≤ s.callers.count d)
    (hcalls : t.calls = s.calls) : Numbered t := by
  intro d
  rw [hcalls]
  exact (hle d).trans (h d)

/-- One caller more, with the next number. -/
lemma next (h : Numbered s)
    (hle : ∀ d, t.callers.count d ≤ s.callers.count d + if s.calls = d then 1 else 0)
    (hcalls : t.calls = s.calls + 1) : Numbered t := by
  intro d
  have h₁ := hle d
  have h₂ := h d
  rw [hcalls]
  split at h₁ <;> split at h₂ <;> split <;> omega

/-- The closers of the handles are distinct. -/
lemma closers_nodup (h : Numbered s) : (s.handles.map (·.closer)).Nodup := by
  rw [List.nodup_iff_count_le_one]
  intro d
  have := h d
  simp only [State.callers, List.count_append] at this
  split at this <;> omega

end Numbered

/-- What is taken out of a list of waiters is counted once less there. -/
lemma count_erase_call {l : List Waiter} {w : Waiter} (hw : w ∈ l) (d : ℕ) :
    ((l.erase w).map (·.call)).count d + (if w.call = d then 1 else 0) =
      (l.map (·.call)).count d := by
  have := ((List.perm_cons_erase hw).map (·.call)).count_eq d
  simp only [List.map_cons, List.count_cons, beq_iff_eq] at this
  exact this.symm

/-- So is what is taken out of a list of calls. -/
lemma count_erase_timedOut {l : List ℕ} (hc : c ∈ l) (d : ℕ) :
    (l.erase c).count d + (if c = d then 1 else 0) = l.count d := by
  have := (List.perm_cons_erase hc).count_eq d
  simp only [List.count_cons, beq_iff_eq] at this
  exact this.symm

namespace State

/-- A caller with a handle. -/
lemma count_callers_lend (s : State P) (c d : ℕ) (p : Resource P) :
    (s.lend c p).callers.count d = s.callers.count d + if c = d then 1 else 0 := by
  simp only [callers, lend, Stock.lend, List.map_cons, List.count_append, List.count_cons,
    beq_iff_eq]
  omega

/-- A handle that is dropped. -/
lemma count_callers_drop (s : State P) (c d : ℕ) :
    (s.drop c).callers.count d ≤ s.callers.count d := by
  have := (List.erase_sublist (a := c) (l := s.handles.map (·.closer))).count_le d
  rw [← Stock.closers_drop] at this
  simp only [callers, List.count_append]
  exact Nat.add_le_add_left this _

/-- A notification moves the callers. -/
lemma count_callers_notifyAll (s : State P) (d : ℕ) :
    s.notifyAll.callers.count d = s.callers.count d := by
  simp only [callers, notifyAll, List.map_append, List.map_nil, List.count_append,
    List.count_nil]
  omega

end State

/-- A new resource is made for a new caller. -/
lemma create_numbered (h : Numbered s) (how : Construction) : Numbered (create s how).1 := by
  cases how with
  | ok => exact h.next (fun d => (s.construct.count_callers_lend s.calls d s.fresh).le) rfl
  | throws what => exact h
  | throwsUnknown => exact h

/-- The front resource goes to a new caller. -/
lemma take_numbered (h : Numbered s) (p : Resource P) (rest : List (Resource P)) :
    Numbered (take s p rest).1 :=
  h.next (fun d => ((s.pop rest).count_callers_lend s.calls d p).le) rfl

/-- A call of `get`. -/
lemma get_numbered (h : Numbered s) (how : Construction) : Numbered (get s how).1 := by
  unfold get
  split
  · split
    · exact h
    · exact create_numbered h how
  · exact take_numbered h _ _

/-- A call of `getWaitFor` up to its wait. -/
lemma getWaitFor_numbered (h : Numbered s) (ms_timeout : ℕ) (how : Construction) :
    Numbered (getWaitFor s ms_timeout how).1 := by
  unfold getWaitFor
  split
  · split
    · refine h.next (fun d => ?_) rfl
      simp only [State.callers, List.map_cons, List.count_append, List.count_cons, beq_iff_eq]
      omega
    · exact create_numbered h how
  · exact take_numbered h _ _

/-- The rest of a call of `getWaitFor`.

**Proof sketch.** One case for each way to resume. The call leaves the list it was in and is in one
of the others, or has returned with a handle or without one. -/
lemma resumes_numbered {r : GetResult P} (h : Numbered s) (hr : Resumes s c t r) :
    Numbered t := by
  cases hr with
  | @sleepsAgain w hf =>
    refine h.mono (fun d => ?_) rfl
    have := count_erase_call (List.mem_of_find?_eq_some hf) d
    simp only [State.callers, List.map_cons, List.count_append, List.count_cons, beq_iff_eq]
    omega
  | @notified w p rest hf =>
    refine h.mono (fun d => ?_) rfl
    have hcall : w.call = c := by simpa using List.find?_some hf
    have := count_erase_call (List.mem_of_find?_eq_some hf) d
    rw [State.count_callers_lend, ← hcall]
    simp only [State.callers, State.pop, Stock.pop, List.count_append]
    omega
  | timeout hc =>
    refine h.mono (fun d => ?_) rfl
    have := count_erase_timedOut hc d
    simp only [State.callers, List.count_append]
    omega
  | @late p rest hc =>
    refine h.mono (fun d => ?_) rfl
    have := count_erase_timedOut hc d
    rw [State.count_callers_lend]
    simp only [State.callers, State.pop, Stock.pop, List.count_append]
    omega

/-- A resource is returned. -/
lemma returnResource_numbered (k : Kind) (h : Numbered s) (p : Resource P) :
    Numbered (returnResource k (s.drop c) p c) := by
  unfold returnResource
  split
  · refine h.mono (fun d => ?_) rfl
    exact ((((s.drop c).push p).count_callers_notifyAll d).le).trans (s.count_callers_drop c d)
  · exact h.mono (s.count_callers_drop c) rfl

/-! ## Steps -/

/-- `releaseIdleResource` deletes the whole queue. -/
lemma releaseIdleResource_eq (s : State P) :
    releaseIdleResource s = { s with toStock := s.toStock.flush } := by
  suffices h : ∀ (l : List (Resource P)) (t : State P), t.resourceList = l →
      releaseLoop l t = { t with toStock := t.toStock.flush } from h _ s rfl
  intro l
  induction l with
  | nil =>
    intro t ht
    rw [releaseLoop, Stock.flush_of_nil ht]
  | cons p rest ih =>
    intro t ht
    rw [releaseLoop, ih _ rfl, ← Stock.flush_of_cons ht]
    rfl

/-- The destructor unbinds closers and does not move them. -/
lemma closers_destroy (s : State P) :
    (destroy s).handles.map (·.closer) = s.handles.map (·.closer) :=
  Stock.closers_unbind s.closerSet s.handles

/-- **One event keeps each call at one place.**

**Proof sketch.** One case for each event. A call that waits is in one list at a time, and returns
leave all of them. -/
theorem step_numbered [ParameterOps P N V] [BEq V] {k : Kind} {e : Event P N V}
    (h : Numbered s) (hstep : step k s e = some t) : Numbered t := by
  cases fires_of_step hstep with
  | get how => exact get_numbered h how
  | getWaitFor ms_timeout how => exact getWaitFor_numbered h ms_timeout how
  | wakeUp _ hw =>
    refine h.mono (fun d => ?_) rfl
    have := count_erase_call hw d
    simp only [State.callers, List.map_cons, List.count_append, List.count_cons, beq_iff_eq]
    omega
  | timeout _ _ hw | timeoutNotified _ _ hw =>
    refine h.mono (fun d => ?_) rfl
    have := count_erase_call hw d
    simp only [State.callers, List.count_append, List.count_cons, beq_iff_eq]
    omega
  | resume _ hr => exact resumes_numbered h hr
  | returned => exact returnResource_numbered k h _
  | @freed c => exact h.mono (s.count_callers_drop c) rfl
  | releaseIdleResource =>
    rw [releaseIdleResource_eq]
    exact h
  | setParamKept => exact h
  | setParam | setParameter =>
    rw [replaceParam, releaseIdleResource_eq]
    exact h
  | incVersion => exact h
  | destroy =>
    refine h.mono (fun d => ?_) rfl
    simp only [State.callers, closers_destroy]
    exact le_rfl

namespace Accounting

variable {p : Resource P} {rest : List (Resource P)}

/-- The front resource is lent. -/
lemma pop_lend (h : Accounting s) (hs : s.resourceList = p :: rest) :
    Accounting ((s.pop rest).lend c p) :=
  ⟨h.balanced.pop_lend hs, h.count_le, Stock.Tracks.lend (s := s.toStock.pop rest) h.tracked c p⟩

/-- A new resource is made and lent. -/
lemma construct_lend (h : Accounting s) (hfull : s.full = false) :
    Accounting (s.construct.lend c s.fresh) := by
  refine ⟨h.balanced.construct_lend rfl, fun hpos => ?_,
    Stock.Tracks.lend (s := s.toStock.construct) h.tracked c _⟩
  simp only [State.full, decide_eq_false_iff_not, not_and] at hfull
  have := hfull hpos
  simp only [State.lend, State.construct, Stock.lend, Stock.construct] at hpos ⊢
  omega

/-- A handle is dropped and its resource goes to the queue. -/
lemma drop_push (h : Accounting s) (hn : Numbered s) {hd : Handle P}
    (hf : s.handles.find? (·.closer = c) = some hd) :
    Accounting (((s.drop c).push hd.res).unregister c) :=
  ⟨h.balanced.drop_push hf, h.count_le, h.tracked.drop hn.closers_nodup c⟩

/-- A handle is dropped and its resource deleted. -/
lemma drop_discard (h : Accounting s) (hn : Numbered s) {hd : Handle P}
    (hf : s.handles.find? (·.closer = c) = some hd) :
    Accounting (((s.drop c).discard hd.res).unregister c) := by
  refine ⟨h.balanced.drop_discard hf, fun hpos => ?_, h.tracked.drop hn.closers_nodup c⟩
  have := h.count_le hpos
  simp only [State.unregister, State.discard, State.drop, Stock.discard, Stock.drop]
  omega

/-- The whole queue is released. -/
lemma releaseIdleResource (h : Accounting s) : Accounting (releaseIdleResource s) := by
  rw [releaseIdleResource_eq]
  refine ⟨h.balanced.flush, fun hpos => ?_, h.tracked⟩
  have := h.count_le hpos
  simp only [Stock.flush]
  omega

/-- Waiting threads are not accounted. -/
lemma congr (h : Accounting s) (hstock : t.toStock = s.toStock)
    (hmax : t.maxPoolSize = s.maxPoolSize) (hset : t.closerSet = s.closerSet) : Accounting t := by
  refine ⟨?_, ?_, ?_⟩
  · rw [hstock]
    exact h.balanced
  · rw [hmax, hstock]
    exact h.count_le
  · rw [hstock, hset]
    exact h.tracked

end Accounting

/-- A new resource is made, or the construction fails. -/
lemma create_accounting (h : Accounting s) (hfull : s.full = false) (how : Construction) :
    Accounting (create s how).1 := by
  cases how with
  | ok => exact (h.construct_lend (c := s.calls) hfull).congr rfl rfl rfl
  | throws what => exact h
  | throwsUnknown => exact h

/-- A call of `get`. -/
lemma get_accounting (h : Accounting s) (how : Construction) : Accounting (get s how).1 := by
  unfold get
  split
  · split
    · exact h
    · next hfull => exact create_accounting h (by simpa using hfull) how
  · next hs => exact (h.pop_lend (c := s.calls) hs).congr rfl rfl rfl

/-- A call of `getWaitFor` up to its wait. -/
lemma getWaitFor_accounting (h : Accounting s) (ms_timeout : ℕ) (how : Construction) :
    Accounting (getWaitFor s ms_timeout how).1 := by
  unfold getWaitFor
  split
  · split
    · exact h.congr rfl rfl rfl
    · next hfull => exact create_accounting h (by simpa using hfull) how
  · next hs => exact (h.pop_lend (c := s.calls) hs).congr rfl rfl rfl

/-- The rest of a call of `getWaitFor`. -/
lemma resumes_accounting {r : GetResult P} (h : Accounting s) (hr : Resumes s c t r) :
    Accounting t := by
  cases hr with
  | sleepsAgain => exact h.congr rfl rfl rfl
  | @notified w p rest _ hs =>
    exact Accounting.pop_lend (s := { s with notified := s.notified.erase w })
      (h.congr rfl rfl rfl) hs
  | timeout => exact h.congr rfl rfl rfl
  | late _ hs =>
    exact Accounting.pop_lend (s := { s with timedOut := s.timedOut.erase c })
      (h.congr rfl rfl rfl) hs

/-- A resource is returned. -/
lemma returnResource_accounting (k : Kind) (h : Accounting s) (hn : Numbered s) {hd : Handle P}
    (hf : s.handles.find? (·.closer = c) = some hd) :
    Accounting (returnResource k (s.drop c) hd.res c) := by
  unfold returnResource
  split
  · exact (h.drop_push hn hf).congr rfl rfl rfl
  · exact h.drop_discard hn hf

/-- New parameters. -/
lemma replaceParam_accounting (h : Accounting s) (param : P) :
    Accounting (replaceParam s param) :=
  Accounting.releaseIdleResource (h.congr rfl rfl rfl)

/-- A step out of a destroyed pool leaves it destroyed. -/
lemma alive_of_step [ParameterOps P N V] [BEq V] {k : Kind} {e : Event P N V}
    (hstep : step k s e = some t) (halive : t.alive = true) : s.alive = true := by
  cases fires_of_step hstep <;> assumption

/-- **One event keeps the account** of a pool that it does not destroy.

**Proof sketch.** One case for each event, by its own lemma; waking up and waiting touch none of
the numbers. -/
theorem step_accounting [ParameterOps P N V] [BEq V] {k : Kind} {e : Event P N V}
    (h : Accounting s) (hn : Numbered s) (hstep : step k s e = some t)
    (halive : t.alive = true) : Accounting t := by
  cases fires_of_step hstep with
  | get how => exact get_accounting h how
  | getWaitFor ms_timeout how => exact getWaitFor_accounting h ms_timeout how
  | wakeUp => exact h.congr rfl rfl rfl
  | timeout => exact h.congr rfl rfl rfl
  | timeoutNotified => exact h.congr rfl rfl rfl
  | resume _ hr => exact resumes_accounting h hr
  | returned _ hf => exact returnResource_accounting k h hn hf
  | freed hf hb =>
    have := h.balanced.bound _ (List.mem_of_find?_eq_some hf)
    simp [hb] at this
  | releaseIdleResource => exact h.releaseIdleResource
  | setParamKept => exact h
  | setParam => exact replaceParam_accounting h _
  | setParameter param => exact replaceParam_accounting h param
  | incVersion => exact h.congr rfl rfl rfl
  | destroy => simp [destroy] at halive

/-- A new pool has nothing to account for. -/
lemma init_accounting (param : P) (maxPoolSize maxIdelSize : ℕ) :
    Accounting (State.init param maxPoolSize maxIdelSize) :=
  ⟨Stock.Balanced.empty, fun _ => Int.natCast_nonneg _,
    by simp [Stock.Tracks, State.init, Stock.empty]⟩

/-- A call whose construction fails leaves the pool as it was. -/
lemma create_threw {how : Construction} {e : GetError} (h : (create s how).2 = .threw e) :
    (create s how).1 = s := by
  cases how with
  | ok => simp [create] at h
  | throws what => rfl
  | throwsUnknown => rfl

/-- So does a call of `get` that throws. -/
lemma get_threw {how : Construction} {e : GetError} (h : (get s how).2 = .threw e) :
    (get s how).1 = s := by
  cases hs : s.resourceList with
  | nil =>
    by_cases hfull : s.full = true
    · simp [get, hs, hfull] at h
    · simp only [get, hs, if_neg hfull] at h ⊢
      exact create_threw h
  | cons p rest => simp [get, hs, take] at h

/-- And one of `getWaitFor` that throws before it waits. -/
lemma getWaitFor_threw {ms_timeout : ℕ} {how : Construction} {e : GetError}
    (h : (getWaitFor s ms_timeout how).2 = .threw e) : (getWaitFor s ms_timeout how).1 = s := by
  cases hs : s.resourceList with
  | nil =>
    by_cases hfull : s.full = true
    · simp [getWaitFor, hs, hfull] at h
    · simp only [getWaitFor, hs, if_neg hfull] at h ⊢
      exact create_threw h
  | cons p rest => simp [getWaitFor, hs, take] at h

/-- **The account is kept by every run** of either class, and a call of `get` or `getWaitFor` that
throws at once leaves the pool as it was.

**Proof sketch.** By induction on the run, with `step_accounting`; the calls are numbered, which
says whose handles are returned. A call that throws at once has changed nothing. -/
theorem pool_accounting [ParameterOps P N V] [BEq V] (k : Kind) (param : P)
    (maxPoolSize maxIdelSize : ℕ) {es : List (Event P N V)}
    (hrun : (system k param maxPoolSize maxIdelSize).run es = some s) (halive : s.alive = true) :
    Accounting s ∧ (∀ how e, (get s how).2 = .threw e → (get s how).1 = s) ∧
      ∀ ms_timeout how e, (getWaitFor s ms_timeout how).2 = .threw e →
        (getWaitFor s ms_timeout how).1 = s := by
  have hinv : Numbered s ∧ (s.alive = true → Accounting s) := by
    refine System.run_invariant (I := fun s => Numbered s ∧ (s.alive = true → Accounting s))
      ⟨fun d => by simp [State.callers, system, State.init, Stock.empty],
        fun _ => init_accounting param maxPoolSize maxIdelSize⟩ ?_ hrun
    rintro s e t ⟨hn, h⟩ hstep
    exact ⟨step_numbered hn hstep,
      fun ht => step_accounting (h (alive_of_step hstep ht)) hn hstep ht⟩
  exact ⟨hinv.2 halive, fun how e => get_threw, fun ms_timeout how e => getWaitFor_threw⟩

/-- The account after a wait, a change of the parameters and a construction that throws. -/
theorem pool_accounting_after_change : ∃ s,
    (ResourceVersionPool.system ([] : IntParams) 1 1).run
      [.get .ok, .getWaitFor 0 .ok, .release 0, .resume 1, .setParam "port" 1, .release 1,
        .get (.throws "refused")] = some s ∧ Accounting s := by
  have hrun : (ResourceVersionPool.system ([] : IntParams) 1 1).run
      [.get .ok, .getWaitFor 0 .ok, .release 0, .resume 1, .setParam "port" 1, .release 1,
        .get (.throws "refused")] = some _ := rfl
  exact ⟨_, hrun, (pool_accounting .versioned [] 1 1 hrun rfl).1⟩

end HkuUtils.BlockingPool
