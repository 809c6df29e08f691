import HkuUtils.AsioPool.Wakeup

set_option relaxedAutoImplicit false
set_option autoImplicit false

/-!
# The free capacity of a coroutine pool

Capacity becomes free in several ways: a resource is returned to the queue, a returned one is
deleted because its version is old, a stale one is deleted inside `get`, or the idle ones are
released. A waiter has to be told of each of them, and `returnResource` of the pool with versions
does so only for a resource that is not stale.

## Main definitions

* `HkuUtils.AsioPool.CapacityAnnounced` — free capacity is announced to the waiters.
* `HkuUtils.AsioPool.FreesWithNotice` — the condition on the steps.

## Main results

* `HkuUtils.AsioPool.capacity_announced`, `capacity_not_announced` — free capacity is announced
  along the condition, and not in every run.
-/

namespace HkuUtils.AsioPool

open Transition

variable {P N V : Type} {s t : State P} {c : ℕ}

/-- While a waiter sleeps, what a new call could obtain has been announced to woken calls. -/
structure CapacityAnnounced (k : Kind) (s : State P) : Prop where
  /-- There are no more current idle resources and free places than woken calls. -/
  announced : s.armed ≠ [] →
    ((s.resourceList.countP fun p => !k.stale s.version p : ℕ) : ℤ) + (s.maxCount - s.count) ≤
      s.cancelled.length
  /-- When no woken call is left, a new call could obtain nothing. -/
  none_obtainable : s.armed ≠ [] → s.cancelled = [] →
    (∀ p ∈ s.resourceList, k.stale s.version p = true) ∧ s.maxCount ≤ s.count

/-- There are more woken calls than idle resources and free places. -/
def State.hasSpare (s : State P) : Bool :=
  s.resourceList.length + (s.maxCount - s.count) < s.cancelled.length

/-- The resource of the handle with the closer `c` is not stale. -/
def State.heldCurrent (k : Kind) (s : State P) (c : ℕ) : Bool :=
  (s.handles.find? (·.closer = c)).any fun hd => !k.stale s.version hd.res

/-- If a waiter sleeps, and the step frees capacity or uses up a wake-up, then there are woken
calls to spare, or the front waiter is woken for the freed capacity, or the wake-up is used up
for a resource: the return of a stale resource wakes nobody, and a woken call that finds no
current resource throws. -/
def FreesWithNotice (k : Kind) (s : State P) : Event P N V → Prop
  | .release c _ => s.armed ≠ [] →
      s.hasSpare = true ∨ (s.heldCurrent k c = true ∧ s.frontSleeps = true)
  | .resume c => s.armed ≠ [] → c ∈ s.cancelled →
      s.hasSpare = true ∨ s.frontCurrent k = true
  | _ => True

instance (k : Kind) (s : State P) : DecidablePred (FreesWithNotice (N := N) (V := V) k s)
  | .release _ _ => inferInstanceAs (Decidable (s.armed ≠ [] → _ ∨ _))
  | .resume c => inferInstanceAs (Decidable (s.armed ≠ [] → c ∈ s.cancelled → _ ∨ _))
  | .get _ | .expire _ | .interrupt _ | .releaseIdleResource | .setParam .. | .setParameter _
  | .incVersion | .destroy => isTrue trivial

/-- While a waiter sleeps, there are no more idle resources, stale ones included, and free places
than woken calls. -/
def Announced (s : State P) : Prop :=
  s.armed ≠ [] →
    0 < s.maxCount ∧ s.resourceList.length + (s.maxCount - s.count) ≤ s.cancelled.length

/-- Stale idle resources do not matter once they are announced as well. -/
lemma Announced.capacityAnnounced {k : Kind} (h : Announced s) (hacc : Accounting s) :
    CapacityAnnounced k s := by
  refine ⟨fun ha => ?_, fun ha hnil => ?_⟩
  · have hle : s.resourceList.countP (fun p => !k.stale s.version p) ≤ s.resourceList.length :=
      List.countP_le_length
    have := (h ha).2
    omega
  · obtain ⟨hpos, hle⟩ := h ha
    have hmax := hacc.count_le hpos
    rw [hnil, List.length_nil] at hle
    have hempty : s.resourceList = [] := List.eq_nil_of_length_eq_zero (by omega)
    refine ⟨by simp [hempty], ?_⟩
    omega

/-- A call that makes a resource or waits, if the queue is empty whenever it waits.

**Proof sketch.** By cases on whether there is room and whether the construction succeeds. A
resource that is made takes the room that was announced, and a call that waits does so when nothing
is idle. -/
lemma createOrWait_notice (h : Announced s) (how : Construction)
    (hempty : s.maxCount ≤ s.count → 0 < s.maxCount → s.resourceList = []) :
    Announced (createOrWait s c how).1 := by
  unfold createOrWait
  split
  · cases how with
    | ok =>
      intro ha
      obtain ⟨hpos, hle⟩ := h ha
      refine ⟨hpos, ?_⟩
      simp only [State.register, State.lend, State.construct, Stock.lend, Stock.construct]
      omega
    | throws what => exact h
    | throwsUnknown => exact h
  · next hfull =>
    obtain ⟨hpos, hge⟩ := not_or.mp hfull
    have hnil := hempty (not_lt.mp hge) (Nat.pos_of_ne_zero hpos)
    refine fun _ => ⟨Nat.pos_of_ne_zero hpos, ?_⟩
    simp only [State.park, hnil, List.length_nil]
    omega

/-- A new call.

**Proof sketch.** By cases on the front of the queue: there is none, it is stale and deleted, or it
is lent. In the last two cases the queue is shorter by one, and in the first it stays empty. -/
lemma get_notice (k : Kind) (h : Announced s) (hacc : Accounting s) (how : Construction) :
    Announced (get k s how).1 := by
  simp only [get]
  split
  · next hs => exact createOrWait_notice (s := { s with gets := s.gets + 1 }) h how fun _ _ => hs
  · next p rest hs =>
    rw [Announced, hs, List.length_cons] at h
    split
    · refine createOrWait_notice (fun ha => ?_) how fun hge hpos => ?_
      · obtain ⟨hpos, hle⟩ := h ha
        refine ⟨hpos, ?_⟩
        simp only [State.discard, State.pop, Stock.discard, Stock.pop]
        omega
      · have := hacc.count_le hpos
        simp only [State.discard, State.pop, Stock.discard, Stock.pop] at hge
        omega
    · intro ha
      obtain ⟨hpos, hle⟩ := h ha
      refine ⟨hpos, ?_⟩
      simp only [State.lend, State.pop, Stock.lend, Stock.pop]
      omega

/-- A call that resumes.

**Proof sketch.** One case for each way to resume. A call that was woken and finds nothing to take
leaves its announcement to nobody; the condition excludes this while another call waits. -/
lemma resumes_notice {k : Kind} {r : GetResult P} (hr : Resumes k s c t r) (hcalls : Calls s)
    (h : Announced s) (hC : FreesWithNotice (N := N) (V := V) k s (.resume c)) :
    Announced t := by
  obtain ⟨hone, _, hwoken, hsame⟩ := cancelled_leave s c
  have hlen : s.armed ≠ [] → s.hasSpare = true ∨ s.frontCurrent k = true ∨ c ∉ s.cancelled := by
    intro ha
    by_cases hc : c ∈ s.cancelled
    · exact (hC ha hc).imp id Or.inl
    · exact Or.inr (Or.inr hc)
  simp only [State.hasSpare, decide_eq_true_eq, State.frontCurrent] at hlen
  cases hr with
  | timedOut hc =>
    have hsame := hsame fun hmem => hcalls.not_mem_expired hmem hc
    intro ha
    have := h ha
    rw [← hsame] at this
    exact this
  | empty _ _ hs =>
    intro ha
    obtain ⟨hpos, hle⟩ := h ha
    refine ⟨hpos, ?_⟩
    show (s.resourceList.length : ℤ) + (s.maxCount - s.count) ≤ _
    rcases hlen ha with hspare | hcur | hc
    · omega
    · simp [hs] at hcur
    · have := hsame hc
      omega
  | mismatch _ _ hs hp =>
    intro ha
    obtain ⟨hpos, hle⟩ := h ha
    refine ⟨hpos, ?_⟩
    show _ ≤ ((s.leave c).cancelled.length : ℤ)
    rw [hs, List.length_cons] at hle hlen
    simp only [State.discard, State.pop, State.leave, Stock.discard, Stock.pop] at hone ⊢
    rcases hlen ha with hspare | hcur | hc
    · omega
    · simp [hp] at hcur
    · have := hsame hc
      simp only [State.leave] at this
      omega
  | lent _ _ hs =>
    intro ha
    obtain ⟨hpos, hle⟩ := h ha
    refine ⟨hpos, ?_⟩
    rw [hs, List.length_cons] at hle
    show _ ≤ ((s.leave c).cancelled.length : ℤ)
    simp only [State.lend, State.pop, State.leave, Stock.lend, Stock.pop] at hone ⊢
    omega

/-- Idle resources become free places. -/
lemma releaseIdleResource_notice (h : Announced s) : Announced (releaseIdleResource s) := by
  rw [releaseIdleResource_eq]
  intro ha
  obtain ⟨hpos, hle⟩ := h ha
  refine ⟨hpos, ?_⟩
  simp only [Stock.flush, List.length_nil, Nat.cast_zero]
  omega

/-- A return.

**Proof sketch.** A stale resource is deleted without a notification, which leaves room that nobody
is told of unless there was some before. One that is current is announced, to the first call that
waits. -/
lemma returnResource_notice {k : Kind} {hd : Handle P} (h : Announced s)
    (hf : s.handles.find? (·.closer = c) = some hd) {pushed : Bool}
    (hC : FreesWithNotice (N := N) (V := V) k s (.release c pushed)) :
    Announced (returnResource k (s.drop c) hd.res c pushed) := by
  simp only [FreesWithNotice, State.hasSpare, decide_eq_true_eq, State.heldCurrent, hf,
    Option.any_some, Bool.not_eq_true'] at hC
  by_cases hp : k.stale s.version hd.res = true
  · intro ha
    rw [returnResource, if_pos (by exact hp)] at ha ⊢
    obtain ⟨hpos, _⟩ := h ha
    refine ⟨hpos, ?_⟩
    rcases hC ha with hspare | ⟨hcur, _⟩
    · simp only [State.unregister, State.discard, State.drop, Stock.discard, Stock.drop]
      omega
    · simp [hp] at hcur
  · obtain ⟨hwakes, hlist, hcount, hmax, _, _⟩ :=
      returned_spec (s := s) (c := c) (by simpa using hp : k.stale s.version hd.res = false) pushed
    intro ha
    obtain ⟨hle, _, harmed⟩ := hwakes.bounds
    obtain ⟨hpos, hsum⟩ := h (harmed ha)
    -- the queue grows or a place becomes free, one of both
    have hone : ((s.resourceList ++ if pushed then [hd.res] else []).length : ℤ) +
        (s.maxCount - (s.count - if pushed then 0 else 1)) =
          s.resourceList.length + (s.maxCount - s.count) + 1 := by
      cases pushed <;> simp <;> omega
    rw [hmax, hlist, hcount, hone]
    refine ⟨hpos, ?_⟩
    rcases hC (harmed ha) with hspare | ⟨_, hfront⟩
    · omega
    · have := (hwakes.taken hfront).1
      omega

/-- **Free capacity is announced** along the runs that free none without notice.

**Proof sketch.** While a waiter sleeps, the idle resources, stale ones included, and the free
places together are no more than the woken calls. A new call lowers the sum or finds it zero;
`releaseIdleResource` turns idle resources into free places; the other steps that raise it or
that use up a wake-up are those of the condition. -/
theorem capacity_announced [ParameterOps P N V] [BEq V] (param : P) (maxCount : ℕ)
    {es : List (Event P N V)}
    (hC : (ResourceAsioVersionPool.system param maxCount).Along (FreesWithNotice .versioned) es)
    (hrun : (ResourceAsioVersionPool.system param maxCount).run es = some s)
    (halive : s.alive = true) : CapacityAnnounced .versioned s := by
  have hinv : Sound s ∧ (s.alive = true → Announced s) := by
    refine System.run_invariant_along (I := fun s => Sound s ∧ (s.alive = true → Announced s))
      ⟨init_sound param maxCount, fun _ ha => absurd rfl ha⟩ ?_ hC hrun
    rintro s e t ⟨hsound, h⟩ hC hstep
    refine ⟨step_sound hsound hstep, fun ht => ?_⟩
    have halive := alive_of_step hstep ht
    replace h := h halive
    cases fires_of_step hstep with
    | get how => exact get_notice .versioned h (hsound.account halive) how
    | expire _ hc => exact fun _ => h (List.ne_nil_of_mem hc)
    | interrupt _ hc => exact fun _ => h (List.ne_nil_of_mem hc)
    | resume _ hr => exact resumes_notice hr hsound.calls h hC
    | returned pushed _ hf => exact returnResource_notice h hf hC
    | freed _ hf hb => exact absurd halive (by simp [hsound.not_alive_of_unbound hf hb])
    | releaseIdleResource => exact releaseIdleResource_notice h
    | setParamKept => exact h
    | setParam => exact releaseIdleResource_notice h
    | setParameter => exact releaseIdleResource_notice h
    | incVersion => exact h
    | destroy => simp [destroy] at ht
  exact (hinv.2 halive).capacityAnnounced (hinv.1.account halive)

/-- A run in which a call that sleeps is woken for each resource that is returned. -/
theorem capacity_announced_after_return : ∃ s,
    (ResourceAsioVersionPool.system ([] : IntParams) 1).run
      [.get .ok, .get .ok, .get .ok, .release 0 true] = some s ∧
    CapacityAnnounced .versioned s := by
  have hC : (ResourceAsioVersionPool.system ([] : IntParams) 1).Along (FreesWithNotice .versioned)
      [.get .ok, .get .ok, .get .ok, .release 0 true] := by decide
  exact ⟨_, rfl, capacity_announced [] 1 hC rfl rfl⟩

/-- The only resource is returned after a change of the version, and the second call sleeps on
beside a free place. -/
theorem capacity_not_announced : ∃ s,
    (ResourceAsioVersionPool.system ([] : IntParams) 1).run
      [.get .ok, .get .ok, .incVersion, .release 0 true] = some s ∧ s.alive = true ∧
    s.armed = [1] ∧ s.cancelled = [] ∧ s.count < s.maxCount ∧ ¬ CapacityAnnounced .versioned s := by
  refine ⟨_, rfl, rfl, rfl, rfl, by decide, fun h => ?_⟩
  have := (h.none_obtainable (by decide) rfl).2
  exact absurd this (by decide)

end HkuUtils.AsioPool
