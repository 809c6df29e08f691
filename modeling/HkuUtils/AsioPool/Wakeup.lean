import HkuUtils.AsioPool.Calls

set_option relaxedAutoImplicit false
set_option autoImplicit false

/-!
# Waking the waiters of a coroutine pool

`returnResource` pops one waiter and cancels its timer. Two things are expected of this: a woken
waiter finds a resource, and no resource stays idle while a waiter sleeps on. Each of them fails
in some run; each holds in the runs that avoid one kind of step, which is stated as a condition
on the state that the step is taken from.

## Main definitions

* `HkuUtils.AsioPool.Wakes` — what a wake-up does to the waiting calls.
* `HkuUtils.AsioPool.WokenServed`, `SparesWoken` — woken waiters find a resource; the condition.
* `HkuUtils.AsioPool.IdleAnnounced`, `WakesSleeper` — idle resources are announced; the condition.

## Main results

* `HkuUtils.AsioPool.returned_spec` — the return of a resource that is not stale.
* `HkuUtils.AsioPool.woken_served`, `woken_not_served` — woken waiters find a resource along the
  condition, and not in every run.
* `HkuUtils.AsioPool.idle_announced`, `idle_not_announced` — idle resources are announced exactly
  along the condition, and not in every run.
-/

namespace HkuUtils.AsioPool

open Transition

variable {P N V : Type} {s t : State P} {c : ℕ}

/-! ## What a wake-up does -/

/-- The waiter at the front of the queue still sleeps: a wake-up takes effect. -/
def State.frontSleeps (s : State P) : Bool := s.waiters.head?.any (· ∈ s.armed)

/-- What a wake-up in `s` does to the waiting calls. -/
structure Wakes (s t : State P) : Prop where
  /-- If the front waiter sleeps, it is woken. -/
  taken : s.frontSleeps = true →
    t.cancelled.length = s.cancelled.length + 1 ∧ (t.armed ≠ [] → s.armed ≠ [])
  /-- Otherwise nobody is. -/
  missed : ¬ s.frontSleeps = true → t.cancelled = s.cancelled ∧ t.armed = s.armed

/-- `wake` is a wake-up. -/
lemma wakes_wake (s : State P) : Wakes s s.wake := by
  unfold State.wake
  cases hw : s.waiters with
  | nil =>
    refine ⟨fun h => ?_, fun _ => ⟨rfl, rfl⟩⟩
    simp [State.frontSleeps, hw] at h
  | cons w rest =>
    have hfront : s.frontSleeps = true ↔ w ∈ s.armed := by simp [State.frontSleeps, hw]
    refine ⟨fun h => ?_, fun h => ?_⟩
    · have ha := hfront.mp h
      simp only [State.cancel, if_pos ha, List.length_cons, true_and]
      exact fun _ => List.ne_nil_of_mem ha
    · have ha : w ∉ s.armed := fun ha => h (hfront.mpr ha)
      simp only [State.cancel, if_neg ha, and_self]

/-- A wake-up wakes at most one waiter and none goes back to sleep. -/
lemma Wakes.bounds (h : Wakes s t) :
    s.cancelled.length ≤ t.cancelled.length ∧ t.cancelled.length ≤ s.cancelled.length + 1 ∧
      (t.armed ≠ [] → s.armed ≠ []) := by
  by_cases hfront : s.frontSleeps = true
  · obtain ⟨hlen, harmed⟩ := h.taken hfront
    exact ⟨by omega, by omega, harmed⟩
  · obtain ⟨hcancelled, harmed⟩ := h.missed hfront
    rw [hcancelled, harmed]
    exact ⟨le_rfl, by omega, id⟩

/-- The return of a resource that is not stale: it goes to the back of the queue or is deleted, and
there is a wake-up.

**Proof sketch.** Both branches unregister the handle and wake a call; they differ in the queue and
the count only. -/
lemma returned_spec {k : Kind} {p : Resource P} (hp : k.stale s.version p = false)
    (pushed : Bool) :
    Wakes s (returnResource k (s.drop c) p c pushed) ∧
      (returnResource k (s.drop c) p c pushed).resourceList =
        s.resourceList ++ (if pushed then [p] else []) ∧
      (returnResource k (s.drop c) p c pushed).count = s.count - (if pushed then 0 else 1) ∧
      (returnResource k (s.drop c) p c pushed).maxCount = s.maxCount ∧
      (returnResource k (s.drop c) p c pushed).version = s.version ∧
      (returnResource k (s.drop c) p c pushed).alive = s.alive := by
  have hp' : ¬ k.stale (s.drop c).version p = true := by simpa [State.drop, Stock.drop] using hp
  rw [returnResource, if_neg hp']
  cases pushed with
  | true =>
    have hwakes := wakes_wake ((s.drop c).push p)
    obtain ⟨_, _, _, hw⟩ := ((s.drop c).push p).wake_eq
    rw [hw] at hwakes
    rw [if_pos rfl, hw]
    exact ⟨⟨hwakes.taken, hwakes.missed⟩, rfl,
      by simp [State.unregister, State.push, State.drop, Stock.push, Stock.drop], rfl, rfl, rfl⟩
  | false =>
    have hwakes := wakes_wake ((s.drop c).discard p)
    obtain ⟨_, _, _, hw⟩ := ((s.drop c).discard p).wake_eq
    rw [hw] at hwakes
    rw [if_neg (by decide), hw]
    refine ⟨⟨hwakes.taken, hwakes.missed⟩, ?_, rfl, rfl, rfl, rfl⟩
    simp [State.unregister, State.discard, State.drop, Stock.discard, Stock.drop]

/-- Resuming takes at most one call off the woken ones. -/
lemma cancelled_leave (s : State P) (c : ℕ) :
    s.cancelled.length ≤ (s.leave c).cancelled.length + 1 ∧
      (s.leave c).cancelled.length ≤ s.cancelled.length ∧
      (c ∈ s.cancelled → (s.leave c).cancelled.length + 1 = s.cancelled.length) ∧
      (c ∉ s.cancelled → (s.leave c).cancelled.length = s.cancelled.length) := by
  show s.cancelled.length ≤ (s.cancelled.erase c).length + 1 ∧
    (s.cancelled.erase c).length ≤ s.cancelled.length ∧
      (c ∈ s.cancelled → (s.cancelled.erase c).length + 1 = s.cancelled.length) ∧
      (c ∉ s.cancelled → (s.cancelled.erase c).length = s.cancelled.length)
  by_cases hc : c ∈ s.cancelled
  · have hlen := List.length_erase_add_one hc
    exact ⟨by omega, by omega, fun _ => hlen, fun hne => absurd hc hne⟩
  · rw [List.erase_of_not_mem hc]
    exact ⟨by omega, le_rfl, fun hmem => absurd hmem hc, fun _ => rfl⟩

/-! ## A woken waiter finds a resource -/

/-- Every woken call would return a resource if it resumed now. -/
def WokenServed (s : State P) : Prop :=
  ∀ c ∈ s.cancelled, ∃ t h, resume .plain s c = some (t, .lent h)

/-- The step leaves an idle resource for each woken call: a new call of `get`, or one whose wait
was ended from outside, takes one only if there are more, `releaseIdleResource` finds no woken
call, and a failing push wakes nobody or there are more. -/
def SparesWoken (s : State P) : Event P N V → Prop
  | .get _ => s.resourceList ≠ [] → s.cancelled.length < s.resourceList.length
  | .resume c => c ∈ s.interrupted → s.resourceList ≠ [] →
      s.cancelled.length < s.resourceList.length
  | .releaseIdleResource => s.cancelled = []
  | .release _ pushed => pushed = true ∨ s.cancelled.length < s.resourceList.length ∨
      ¬ s.frontSleeps = true
  | _ => True

instance (s : State P) : DecidablePred (SparesWoken (N := N) (V := V) s)
  | .get _ => inferInstanceAs (Decidable (s.resourceList ≠ [] → _ < _))
  | .resume c => inferInstanceAs (Decidable (c ∈ s.interrupted → s.resourceList ≠ [] → _ < _))
  | .releaseIdleResource => inferInstanceAs (Decidable (s.cancelled = []))
  | .release _ pushed =>
    inferInstanceAs (Decidable (pushed = true ∨ _ < _ ∨ ¬ s.frontSleeps = true))
  | .expire _ | .interrupt _ | .setParam .. | .setParameter _ | .incVersion | .destroy =>
    isTrue trivial

/-- A call of `get` leaves the resources of the woken calls. -/
lemma get_spares (how : Construction) (h : s.cancelled.length ≤ s.resourceList.length)
    (hC : s.resourceList ≠ [] → s.cancelled.length < s.resourceList.length) :
    (get .plain s how).1.cancelled.length ≤ (get .plain s how).1.resourceList.length := by
  simp only [get, Kind.stale_plain]
  split
  · unfold createOrWait
    split
    · cases how <;> exact h
    · exact h
  · next p rest hs =>
    have := hC (by simp [hs])
    rw [hs] at this
    simp only [State.lend, State.pop, Stock.lend, Stock.pop, Bool.false_eq_true, ↓reduceIte,
      List.length_cons] at this ⊢
    omega

/-- A call that resumes leaves the resources of the other woken calls.

**Proof sketch.** A call that was cancelled by a return takes the place of one resource and of one
cancelled call. One that was interrupted takes a resource only, which the hypothesis allows for. -/
lemma resumes_spares {r : GetResult P} (hr : Resumes .plain s c t r)
    (h : s.cancelled.length ≤ s.resourceList.length)
    (hC : c ∈ s.interrupted → s.resourceList ≠ [] → s.cancelled.length < s.resourceList.length) :
    t.cancelled.length ≤ t.resourceList.length := by
  obtain ⟨_, hle, hwoken, _⟩ := cancelled_leave s c
  cases hr with
  | timedOut => exact hle.trans h
  | empty => exact hle.trans h
  | mismatch _ _ _ hp => simp at hp
  | lent hc _ hs =>
    rw [hs] at h hC
    simp only [List.length_cons, ne_eq, reduceCtorEq, not_false_eq_true, forall_const] at h hC
    show (s.leave c).cancelled.length ≤ _
    simp only [State.lend, State.pop, Stock.lend, Stock.pop]
    rcases hc with hc | hc
    · have := hwoken hc
      omega
    · have := hC hc
      omega

/-- **A woken call is never without a resource** in the runs whose steps leave one for each.

**Proof sketch.** There are never fewer idle resources than woken calls: a return adds one of
each, a woken call that resumes takes one of each, and the other steps that take resources are
those of the condition. -/
theorem woken_served [ParameterOps P N V] [BEq V] (param : P) (maxCount : ℕ)
    {es : List (Event P N V)}
    (hC : (ResourceAsioPool.system param maxCount).Along SparesWoken es)
    (hrun : (ResourceAsioPool.system param maxCount).run es = some s) (halive : s.alive = true) :
    WokenServed s := by
  have hinv : (s.alive = true → s.cancelled.length ≤ s.resourceList.length) ∧ Calls s := by
    refine System.run_invariant_along
      (I := fun s => (s.alive = true → s.cancelled.length ≤ s.resourceList.length) ∧ Calls s)
      ⟨fun _ => Nat.zero_le _, init_calls param maxCount⟩ ?_ hC hrun
    rintro s e t ⟨h, hcalls⟩ hC hstep
    refine ⟨fun ht => ?_, step_calls hcalls hstep⟩
    replace h := h (alive_of_step hstep ht)
    cases fires_of_step hstep with
    | get how => exact get_spares how h hC
    | expire => exact h
    | interrupt => exact h
    | resume _ hr => exact resumes_spares hr h hC
    | @returned c hd pushed =>
      obtain ⟨hwakes, hlist, -⟩ := returned_spec (s := s) (c := c)
        (Kind.stale_plain s.version hd.res) pushed
      obtain ⟨_, hle, _⟩ := hwakes.bounds
      rw [hlist, List.length_append]
      cases pushed with
      | true =>
        simp only [↓reduceIte, List.length_singleton]
        omega
      | false =>
        simp only [Bool.false_eq_true, ↓reduceIte, List.length_nil]
        rcases hC.resolve_left (by decide) with hmore | hfront
        · omega
        · rw [(hwakes.missed hfront).1]
          exact h
    | freed => exact h
    | releaseIdleResource =>
      rw [releaseIdleResource_eq]
      exact (congrArg List.length (show s.cancelled = [] from hC)).le
    | setParamKept _ _ _ hk => exact absurd hk (by decide)
    | setParam _ hk => exact absurd hk (by decide)
    | setParameter _ _ hk => exact absurd hk (by decide)
    | incVersion _ hk => exact absurd hk (by decide)
    | destroy => simp [destroy] at ht
  intro c hc
  have hexp := hinv.2.not_mem_expired hc
  have hlen := hinv.1 halive
  cases hs : s.resourceList with
  | nil =>
    rw [hs] at hlen
    exact absurd (List.length_pos_of_mem hc) (by simpa using hlen)
  | cons p rest =>
    refine ⟨((s.leave c).pop rest).lend c p, ⟨c, p, true⟩, ?_⟩
    rw [resume, if_neg hexp, if_pos (Or.inl hc), afterWakeup, show (s.leave c).resourceList =
      p :: rest from hs]
    rfl

/-- A run in which a woken call finds its resource. -/
theorem woken_served_after_return : ∃ s,
    (ResourceAsioPool.system ([] : IntParams) 1).run
      [.get .ok, .get .ok, .release 0 true] = some s ∧ WokenServed s := by
  have hC : (ResourceAsioPool.system ([] : IntParams) 1).Along SparesWoken
      [.get .ok, .get .ok, .release 0 true] := by decide
  exact ⟨_, rfl, woken_served [] 1 hC rfl rfl⟩

/-- A third call takes the resource that was returned for the woken second one. -/
theorem woken_not_served : ∃ s,
    (ResourceAsioPool.system ([] : IntParams) 1).run
      [.get .ok, .get .ok, .release 0 true, .get .ok] = some s ∧ s.alive = true ∧
    (resume .plain s 1).map Prod.snd = some (.threw .noResourceAfterWakeup) ∧
    ¬ WokenServed s := by
  refine ⟨_, rfl, rfl, rfl, fun h => ?_⟩
  obtain ⟨t, hd, hr⟩ := h 1 (by decide)
  cases hr

/-! ## An idle resource is announced -/

/-- While a waiter sleeps, there are no more idle resources than woken calls. -/
def IdleAnnounced (s : State P) : Prop :=
  s.armed ≠ [] → s.resourceList.length ≤ s.cancelled.length

/-- If the step returns a resource and a waiter sleeps, the front waiter does or there are
woken calls to spare. -/
def WakesSleeper (s : State P) : Event P N V → Prop
  | .release _ pushed => s.alive = true → pushed = true → s.armed ≠ [] →
      s.frontSleeps = true ∨ s.resourceList.length < s.cancelled.length
  | _ => True

instance (s : State P) : DecidablePred (WakesSleeper (N := N) (V := V) s)
  | .release _ pushed => inferInstanceAs (Decidable (_ → pushed = true → s.armed ≠ [] → _ ∨ _))
  | .get _ | .resume _ | .expire _ | .interrupt _ | .releaseIdleResource | .setParam ..
  | .setParameter _ | .incVersion | .destroy => isTrue trivial

/-- A call that takes a resource or waits leaves the others announced. -/
lemma get_announced (how : Construction) (h : IdleAnnounced s) :
    IdleAnnounced (get .plain s how).1 := by
  simp only [get, Kind.stale_plain]
  split
  · next hs =>
    intro _
    suffices hnil : (createOrWait { s with gets := s.gets + 1 } s.gets how).1.resourceList = [] by
      rw [hnil]
      exact Nat.zero_le _
    unfold createOrWait
    split
    · cases how <;> exact hs
    · exact hs
  · next p rest hs =>
    intro ha
    have := h ha
    rw [hs, List.length_cons] at this
    exact Nat.le_of_succ_le this

/-- A call that resumes takes at most what was announced to it. -/
lemma resumes_announced (hcalls : Calls s) {r : GetResult P} (hr : Resumes .plain s c t r)
    (h : IdleAnnounced s) : IdleAnnounced t := by
  obtain ⟨hone, _, _, hsame⟩ := cancelled_leave s c
  intro ha
  cases hr with
  | timedOut hc =>
    have hlen := hsame fun hmem => hcalls.not_mem_expired hmem hc
    exact (h ha).trans hlen.ge
  | empty _ _ hs => exact (congrArg List.length hs).le.trans (Nat.zero_le _)
  | mismatch _ _ _ hp => simp at hp
  | lent hc _ hs =>
    have := h ha
    rw [hs, List.length_cons] at this
    show _ ≤ (s.leave c).cancelled.length
    simp only [State.lend, State.pop, Stock.lend, Stock.pop]
    omega

/-- A return keeps the idle resources announced exactly when it meets the condition.

**Proof sketch.** By cases on whether the resource is kept and whether the waiter in front sleeps.
If it is kept and the notification goes to one that does not sleep, it is idle without being
announced. -/
lemma returned_announced_iff {p : Resource P} {pushed : Bool} (halive : s.alive = true)
    (h : IdleAnnounced s) :
    IdleAnnounced (returnResource .plain (s.drop c) p c pushed) ↔
      WakesSleeper (N := N) (V := V) s (.release c pushed) := by
  obtain ⟨hwakes, hlist, -⟩ := returned_spec (s := s) (c := c) (Kind.stale_plain s.version p) pushed
  rw [IdleAnnounced, hlist, List.length_append]
  cases pushed with
  | false =>
    obtain ⟨hle, _, harmed⟩ := hwakes.bounds
    refine iff_of_true (fun ha => ?_) fun _ hp => absurd hp (by decide)
    exact (h (harmed ha)).trans hle
  | true =>
    simp only [↓reduceIte, List.length_singleton]
    by_cases hfront : s.frontSleeps = true
    · obtain ⟨hlen, harmed⟩ := hwakes.taken hfront
      refine iff_of_true (fun ha => ?_) fun _ _ _ => Or.inl hfront
      have := h (harmed ha)
      omega
    · obtain ⟨hcancelled, harmed⟩ := hwakes.missed hfront
      rw [hcancelled, harmed]
      refine ⟨fun hI _ _ ha => Or.inr (hI ha), fun hC ha => ?_⟩
      exact (hC halive rfl ha).resolve_left hfront

/-- **Idle resources are announced exactly along the runs in which no return wakes a call that
does not sleep** while another one does.

**Proof sketch.** By `always_iff_along`: a return of the second kind breaks the property at once,
and every other step keeps it, as it takes an idle resource for each woken call that it
resumes. -/
theorem idle_announced [ParameterOps P N V] [BEq V] (param : P) (maxCount : ℕ)
    {es : List (Event P N V)} (hrun : (ResourceAsioPool.system param maxCount).run es = some s) :
    (ResourceAsioPool.system param maxCount).Always (fun s => s.alive = true → IdleAnnounced s) es ↔
      (ResourceAsioPool.system param maxCount).Along WakesSleeper es := by
  refine System.always_iff_along (J := Sound) (init_sound param maxCount)
    (fun _ ha => absurd rfl ha) (fun s e t hsound hstep => step_sound hsound hstep) ?_ hrun
  intro s e t hsound h hstep
  cases fires_of_step hstep with
  | get how halive => exact iff_of_true (fun _ => get_announced how (h halive)) trivial
  | expire halive hc =>
    exact iff_of_true (fun _ _ => h halive (List.ne_nil_of_mem hc)) trivial
  | interrupt halive hc =>
    exact iff_of_true (fun _ _ => h halive (List.ne_nil_of_mem hc)) trivial
  | resume halive hr =>
    exact iff_of_true (fun _ => resumes_announced hsound.calls hr (h halive)) trivial
  | @returned c hd pushed halive =>
    obtain ⟨_, _, _, _, _, halive'⟩ := returned_spec (s := s) (c := c)
      (Kind.stale_plain s.version hd.res) pushed
    rw [← returned_announced_iff halive (h halive)]
    exact ⟨fun hI => hI (halive'.trans halive), fun hI _ => hI⟩
  | freed pushed hf hb =>
    have hdead := hsound.not_alive_of_unbound hf hb
    refine iff_of_true (fun halive => ?_) fun halive => ?_
    · exact absurd halive (by simp [State.drop, hdead, Stock.drop])
    · simp [hdead] at halive
  | releaseIdleResource =>
    refine iff_of_true (fun _ _ => ?_) trivial
    rw [releaseIdleResource_eq]
    exact Nat.zero_le _
  | setParamKept _ _ _ hk => exact absurd hk (by decide)
  | setParam _ hk => exact absurd hk (by decide)
  | setParameter _ _ hk => exact absurd hk (by decide)
  | incVersion _ hk => exact absurd hk (by decide)
  | destroy => exact iff_of_true (fun ht => by simp [destroy] at ht) trivial

/-- A run in which each return wakes a call that sleeps. -/
theorem idle_announced_after_return :
    (ResourceAsioPool.system ([] : IntParams) 1).Always (fun s => s.alive = true → IdleAnnounced s)
      [.get .ok, .get .ok, .get .ok, .release 0 true] :=
  (idle_announced [] 1 rfl).mpr (by decide)

/-- The notification is spent on a call whose timer has expired, and the third call sleeps on
beside an idle resource. -/
theorem idle_not_announced : ∃ s,
    (ResourceAsioPool.system ([] : IntParams) 1).run
      [.get .ok, .get .ok, .get .ok, .expire 1, .release 0 true] = some s ∧ s.alive = true ∧
    s.armed = [2] ∧ s.cancelled = [] ∧ s.resourceList.length = 1 ∧ ¬ IdleAnnounced s :=
  ⟨_, rfl, rfl, rfl, rfl, rfl, by unfold IdleAnnounced; decide⟩

end HkuUtils.AsioPool
