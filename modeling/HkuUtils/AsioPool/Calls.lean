import HkuUtils.AsioPool.Accounting

set_option relaxedAutoImplicit false
set_option autoImplicit false

/-!
# The calls of `get` and where they are

A call of `get` that has not ended waits, or its wait has ended and it has not resumed, or it has
returned a handle that is still held. This file shows that it is at one of these places only, and
that every call whose wait goes on is in the waiter queue.

## Main definitions

* `HkuUtils.AsioPool.State.uses` — how often a call occurs at these places.
* `HkuUtils.AsioPool.Calls` — each call occurs once, and waiting calls are queued.
* `HkuUtils.AsioPool.Sound` — this and the account together.

## Main results

* `HkuUtils.AsioPool.step_calls`, `step_sound` — one event keeps this.
-/

namespace HkuUtils.AsioPool

open Transition Custody

variable {P N V : Type}

/-- How often the call `c` occurs among the waiting calls, the calls whose wait has ended and the
closers of the handles. -/
def State.uses (s : State P) (c : ℕ) : ℕ :=
  s.armed.count c + s.cancelled.count c + s.expired.count c + s.interrupted.count c +
    (s.handles.map (·.closer)).count c

/-- Each call of `get` is at one place at most, and the waiting ones are in the queue. -/
structure Calls (s : State P) : Prop where
  /-- A call occurs once at most, and only after it has started. -/
  once : ∀ c, s.uses c ≤ if c < s.gets then 1 else 0
  /-- A call whose wait goes on is in the waiter queue. -/
  queued : ∀ c ∈ s.armed, c ∈ s.waiters

namespace State

/-- A call that is taken out of a list is counted once less there. -/
lemma count_erase_add {l : List ℕ} {c : ℕ} (h : c ∈ l) (d : ℕ) :
    (l.erase c).count d + (if c = d then 1 else 0) = l.count d := by
  have := (List.perm_cons_erase h).count_eq d
  simpa [List.count_cons] using this.symm

/-- Cancelling a wait moves the call. -/
lemma uses_cancel (s : State P) (c d : ℕ) : (s.cancel c).uses d = s.uses d := by
  unfold cancel
  split
  · next h =>
    have := count_erase_add h d
    simp only [uses, List.count_cons, beq_iff_eq]
    omega
  · rfl

/-- Waking the front waiter moves the call. -/
lemma uses_wake (s : State P) (d : ℕ) : s.wake.uses d = s.uses d := by
  unfold wake
  split
  · rfl
  · exact uses_cancel _ _ d

/-- A handle is a place for its call. -/
lemma uses_lend (s : State P) (c d : ℕ) (p : Resource P) :
    (s.lend c p).uses d = s.uses d + if c = d then 1 else 0 := by
  simp only [uses, lend, Stock.lend, List.map_cons, List.count_cons, beq_iff_eq]
  omega

/-- So is the waiter queue. -/
lemma uses_park (s : State P) (c d : ℕ) :
    (s.park c).uses d = s.uses d + if c = d then 1 else 0 := by
  simp only [uses, park, List.count_cons, beq_iff_eq]
  omega

/-- A call that resumes has left its place. -/
lemma uses_leave (s : State P) {c : ℕ} (h : c ∈ s.cancelled ∨ c ∈ s.expired ∨ c ∈ s.interrupted)
    (d : ℕ) : (s.leave c).uses d + (if c = d then 1 else 0) ≤ s.uses d := by
  have h₁ := (List.erase_sublist (a := c) (l := s.cancelled)).count_le d
  have h₂ := (List.erase_sublist (a := c) (l := s.expired)).count_le d
  have h₃ := (List.erase_sublist (a := c) (l := s.interrupted)).count_le d
  simp only [uses, leave]
  rcases h with h | h | h <;> have := count_erase_add h d <;> omega

/-- A dropped handle is no place any more. -/
lemma uses_drop_le (s : State P) (c d : ℕ) : (s.drop c).uses d ≤ s.uses d := by
  have := (List.erase_sublist (a := c) (l := s.handles.map (·.closer))).count_le d
  rw [← Stock.closers_drop] at this
  simp only [uses]
  exact Nat.add_le_add_left this _

end State

namespace Calls

variable {s t : State P} {c d : ℕ}

/-- A waiting call occurs nowhere else. -/
lemma armed_count_le (h : Calls s) (c : ℕ) : s.armed.count c ≤ 1 := by
  have := h.once c
  simp only [State.uses] at this
  split at this <;> omega

/-- A call whose wait has ended is nowhere else. -/
lemma count_ended (h : Calls s)
    (hc : c ∈ s.cancelled ∨ c ∈ s.expired ∨ c ∈ s.interrupted) :
    s.armed.count c = 0 ∧ (s.handles.map (·.closer)).count c = 0 := by
  have honce := h.once c
  simp only [State.uses] at honce
  rcases hc with hc | hc | hc <;> have := List.count_pos_iff.mpr hc <;> split at honce <;> omega

/-- A call whose wait has ended does not wait. -/
lemma not_mem_armed (h : Calls s)
    (hc : c ∈ s.cancelled ∨ c ∈ s.expired ∨ c ∈ s.interrupted) : c ∉ s.armed :=
  List.count_eq_zero.mp (h.count_ended hc).1

/-- A woken call has not timed out. -/
lemma not_mem_expired (h : Calls s) (hc : c ∈ s.cancelled) : c ∉ s.expired := by
  intro he
  have honce := h.once c
  have hc := List.count_pos_iff.mpr hc
  have he := List.count_pos_iff.mpr he
  simp only [State.uses] at honce
  split at honce <;> omega

/-- A call that has not ended has no handle. -/
lemma not_mem_closers (h : Calls s)
    (hc : c ∈ s.cancelled ∨ c ∈ s.expired ∨ c ∈ s.interrupted) :
    c ∉ s.handles.map (·.closer) :=
  List.count_eq_zero.mp (h.count_ended hc).2

/-- The closers of the handles are distinct. -/
lemma closers_nodup (h : Calls s) : (s.handles.map (·.closer)).Nodup := by
  rw [List.nodup_iff_count_le_one]
  intro c
  have := h.once c
  simp only [State.uses] at this
  split at this <;> omega

/-- A handle is found by its closer. -/
lemma find_closer (h : Calls s) {hd : Handle P} (hmem : hd ∈ s.handles) :
    s.handles.find? (·.closer = hd.closer) = some hd := by
  obtain ⟨hd', hf⟩ := Option.isSome_iff_exists.mp
    (List.find?_isSome.mpr ⟨hd, hmem, by simp⟩ : (s.handles.find? (·.closer = hd.closer)).isSome)
  have hcloser : hd'.closer = hd.closer := by simpa using List.find?_some hf
  have hmem' := List.mem_of_find?_eq_some hf
  rw [hf, List.inj_on_of_nodup_map h.closers_nodup hmem' hmem hcloser]

/-- The closer of a handle is a call that was made. -/
lemma closer_lt (h : Calls s) {hd : Handle P} (hmem : hd ∈ s.handles) : hd.closer < s.gets := by
  have honce := h.once hd.closer
  have := List.count_pos_iff.mpr (List.mem_map_of_mem (f := (·.closer)) hmem)
  simp only [State.uses] at honce
  by_contra hlt
  rw [if_neg hlt] at honce
  omega

/-- Fewer places and the same queue. -/
lemma congr (h : Calls s) (huses : ∀ d, t.uses d ≤ s.uses d) (hgets : t.gets = s.gets)
    (hqueue : ∀ d ∈ t.armed, d ∈ t.waiters) : Calls t :=
  ⟨fun d => by rw [hgets]; exact (huses d).trans (h.once d), hqueue⟩

/-- Waking the front waiter takes it out of the queue and out of the waiting calls at once.

**Proof sketch.** If the waiter in front is armed, it leaves both; otherwise it had been cancelled
before and leaves the queue only. -/
lemma wake (h : Calls s) : Calls s.wake := by
  obtain ⟨waiters, armed, cancelled, hw⟩ := s.wake_eq
  refine h.congr (fun d => (s.uses_wake d).le) (by rw [hw]) ?_
  clear hw
  intro d hd
  unfold State.wake at hd ⊢
  split at hd
  · exact h.queued d hd
  · next w rest hwait =>
    have hmem : d ∈ s.armed → d ≠ w → d ∈ rest := fun ha hne => by
      have := h.queued d ha
      rw [hwait] at this
      exact (List.mem_cons.mp this).resolve_left hne
    simp only [State.cancel] at hd ⊢
    split at hd
    · next harmed =>
      rw [if_pos harmed]
      have hnodup : s.armed.Nodup := List.nodup_iff_count_le_one.mpr h.armed_count_le
      have hd' := (hnodup.mem_erase_iff).mp hd
      exact hmem hd'.2 hd'.1
    · next harmed =>
      rw [if_neg harmed]
      exact hmem hd (by rintro rfl; exact harmed hd)

/-- A call that does not wait stays in the queue when another one leaves it. -/
lemma mem_removeTimer {l : List ℕ} (hd : d ∈ l) (hne : d ≠ c) : d ∈ State.removeTimer c l := by
  unfold State.removeTimer
  split
  · simp at hd
  · next w rest =>
    split
    · next hw => exact (List.mem_cons.mp hd).resolve_left (by rw [hw]; exact hne)
    · exact List.mem_filter.mpr ⟨hd, by simpa using hne⟩

/-- A call that resumes. -/
lemma leave (h : Calls s) (hc : c ∈ s.cancelled ∨ c ∈ s.expired ∨ c ∈ s.interrupted) :
    Calls (s.leave c) := by
  refine h.congr (fun d => ?_) rfl fun d hd => ?_
  · have := s.uses_leave hc d
    omega
  · exact mem_removeTimer (h.queued d hd) (by rintro rfl; exact h.not_mem_armed hc hd)

/-- A call that resumes and returns a handle. -/
lemma leave_lend (h : Calls s) (hc : c ∈ s.cancelled ∨ c ∈ s.expired ∨ c ∈ s.interrupted)
    (p : Resource P) : Calls ((s.leave c).lend c p) := by
  refine h.congr (fun d => ?_) rfl (h.leave hc).queued
  rw [State.uses_lend]
  exact s.uses_leave hc d

/-- A handle that is dropped. -/
lemma drop (h : Calls s) (c : ℕ) : Calls (s.drop c) :=
  h.congr (s.uses_drop_le c) rfl h.queued

end Calls

/-! ## Steps -/

variable {s t : State P} {c : ℕ}

/-- A new call returns a handle, waits, or throws.

**Proof sketch.** One case for each way out. The number of the call is new, so it occurs nowhere
yet, and once afterwards at most. -/
lemma createOrWait_calls (h : Calls s) (how : Construction) :
    Calls (createOrWait { s with gets := s.gets + 1 } s.gets how).1 := by
  have hone : ∀ d, s.uses d + (if s.gets = d then 1 else 0) ≤ if d < s.gets + 1 then 1 else 0 := by
    intro d
    have := h.once d
    split at this <;> split <;> split <;> omega
  have hthrow : Calls { s with gets := s.gets + 1 } :=
    ⟨fun d => (Nat.le_add_right _ _).trans (hone d), h.queued⟩
  unfold createOrWait
  split
  · cases how with
    | ok =>
      refine ⟨fun d => ?_, h.queued⟩
      have := State.uses_lend (State.construct { s with gets := s.gets + 1 }) s.gets d
        (State.fresh { s with gets := s.gets + 1 })
      exact this.le.trans (hone d)
    | throws what => exact hthrow
    | throwsUnknown => exact hthrow
  · refine ⟨fun d => ?_, fun d hd => ?_⟩
    · exact (State.uses_park { s with gets := s.gets + 1 } s.gets d).le.trans (hone d)
    · simp only [State.park, List.mem_cons, List.mem_append, List.not_mem_nil, or_false] at hd ⊢
      exact hd.elim Or.inr fun hd => Or.inl (h.queued d hd)

/-- A call of `get` up to its suspension. -/
lemma get_calls (k : Kind) (h : Calls s) (how : Construction) : Calls (get k s how).1 := by
  simp only [get]
  split
  · exact createOrWait_calls h how
  · next p rest hs =>
    split
    · exact createOrWait_calls (s := (s.pop rest).discard p) ⟨h.once, h.queued⟩ how
    · refine ⟨fun d => ?_, h.queued⟩
      rw [State.uses_lend]
      have := h.once d
      show s.uses d + _ ≤ if d < s.gets + 1 then 1 else 0
      split at this <;> split <;> split <;> omega

/-- The rest of a call of `get` after its wait. -/
lemma resumes_calls {k : Kind} (h : Calls s) {r : GetResult P} (hr : Resumes k s c t r) :
    Calls t := by
  have hwoken : c ∈ s.cancelled ∨ c ∈ s.interrupted →
      c ∈ s.cancelled ∨ c ∈ s.expired ∨ c ∈ s.interrupted :=
    fun hc => hc.elim Or.inl fun hc => Or.inr (Or.inr hc)
  cases hr with
  | timedOut hc => exact h.leave (Or.inr (Or.inl hc))
  | empty hc => exact h.leave (hwoken hc)
  | mismatch hc =>
    have hl := h.leave (hwoken hc)
    exact ⟨hl.once, hl.queued⟩
  | @lent p rest hc =>
    have hl := h.leave_lend (hwoken hc) p
    exact ⟨hl.once, hl.queued⟩

/-- A handle is returned to the pool. -/
lemma returnResource_calls (k : Kind) (h : Calls s) (pushed : Bool) (p : Resource P) :
    Calls (returnResource k (s.drop c) p c pushed) := by
  have hd := h.drop c
  unfold returnResource
  split
  · exact ⟨hd.once, hd.queued⟩
  split
  · have hw : Calls ((s.drop c).push p).wake := Calls.wake ⟨hd.once, hd.queued⟩
    exact ⟨hw.once, hw.queued⟩
  · have hw : Calls ((s.drop c).discard p).wake := Calls.wake ⟨hd.once, hd.queued⟩
    exact ⟨hw.once, hw.queued⟩

/-- New parameters do not move calls. -/
lemma replaceParam_calls (h : Calls s) (param : P) : Calls (replaceParam s param) := by
  rw [replaceParam, releaseIdleResource_eq]
  exact ⟨h.once, h.queued⟩

/-- A wait that ends moves the call. -/
lemma uses_endWait {s : State P} {c : ℕ} (hc : c ∈ s.armed) (d : ℕ) :
    State.uses { s with armed := s.armed.erase c, expired := c :: s.expired } d = s.uses d ∧
    State.uses { s with armed := s.armed.erase c, interrupted := c :: s.interrupted } d =
      s.uses d := by
  have := State.count_erase_add hc d
  simp only [State.uses, List.count_cons, beq_iff_eq]
  omega

/-- The destructor unbinds closers and does not move them. -/
lemma closers_destroy (s : State P) :
    (destroy s).handles.map (·.closer) = s.handles.map (·.closer) :=
  Stock.closers_unbind s.closerSet s.handles

/-- **One event keeps each call at one place.**

**Proof sketch.** One case for each event. A call moves from waiting to resuming or returns, and
the events that concern no call leave all of them. -/
theorem step_calls [ParameterOps P N V] [BEq V] {k : Kind} {e : Event P N V}
    (h : Calls s) (hstep : step k s e = some t) : Calls t := by
  cases fires_of_step hstep with
  | get how => exact get_calls k h how
  | expire _ hc =>
    exact h.congr (fun d => (uses_endWait hc d).1.le) rfl
      fun d hd => h.queued d (List.mem_of_mem_erase hd)
  | interrupt _ hc =>
    exact h.congr (fun d => (uses_endWait hc d).2.le) rfl
      fun d hd => h.queued d (List.mem_of_mem_erase hd)
  | resume _ hr => exact resumes_calls h hr
  | returned pushed => exact returnResource_calls k h pushed _
  | @freed c => exact ⟨(h.drop c).once, (h.drop c).queued⟩
  | releaseIdleResource =>
    rw [releaseIdleResource_eq]
    exact ⟨h.once, h.queued⟩
  | setParamKept => exact h
  | setParam => exact replaceParam_calls h _
  | setParameter param => exact replaceParam_calls h param
  | incVersion => exact ⟨h.once, h.queued⟩
  | destroy =>
    refine ⟨fun d => ?_, h.queued⟩
    have := h.once d
    simp only [State.uses, closers_destroy] at this ⊢
    exact this

/-- A new pool has no calls. -/
lemma init_calls (param : P) (maxCount : ℕ) : Calls (State.init param maxCount) :=
  ⟨fun c => by simp [State.uses, State.init], by simp [State.init]⟩

/-- What holds in every state that a pool reaches: each call is at one place and, until the pool
is destroyed, the account is right. -/
structure Sound (s : State P) : Prop where
  calls : Calls s
  account : s.alive = true → Accounting s

/-- A handle of a pool that exists is bound to it. -/
lemma Sound.not_alive_of_unbound (h : Sound s) {hd : Handle P}
    (hf : s.handles.find? (·.closer = c) = some hd) (hb : hd.bound = false) : s.alive = false := by
  by_contra halive
  have := (h.account (by simpa using halive)).balanced.bound hd (List.mem_of_find?_eq_some hf)
  simp [hb] at this

/-- One event keeps a pool sound. -/
theorem step_sound [ParameterOps P N V] [BEq V] {k : Kind} {e : Event P N V}
    (h : Sound s) (hstep : step k s e = some t) : Sound t :=
  ⟨step_calls h.calls hstep,
    fun ht => step_accounting (h.account (alive_of_step hstep ht)) hstep ht⟩

/-- A new pool is sound. -/
lemma init_sound (param : P) (maxCount : ℕ) : Sound (State.init param maxCount) :=
  ⟨init_calls param maxCount, fun _ => init_accounting param maxCount⟩

end HkuUtils.AsioPool
