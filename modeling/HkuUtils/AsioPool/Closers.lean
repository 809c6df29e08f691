import HkuUtils.AsioPool.Calls

set_option relaxedAutoImplicit false
set_option autoImplicit false

/-!
# The closers that a coroutine pool keeps track of

The destructor of a pool unbinds the closers in `m_closer_set`, so that handles can outlive the
pool. This needs the set to hold the closer of each handle. `get` puts a closer there when it has
made a new resource and not when it takes one from the idle queue.

## Main definitions

* `HkuUtils.AsioPool.ClosersTracked` — the set is right, and handles survive the pool.
* `HkuUtils.AsioPool.LendsFresh` — the condition: no resource from the idle queue is lent.

## Main results

* `HkuUtils.AsioPool.closers_tracked` — the set is right exactly along the condition.
* `HkuUtils.AsioPool.closers_not_tracked` — a run in which a handle stays bound to a pool that
  does not exist any more.
-/

namespace HkuUtils.AsioPool

open Transition Custody

variable {P N V : Type} {k : Kind} {s t : State P} {c : ℕ}

/-- `m_closer_set` is the set of the closers of the handles. -/
def State.Tracked (s : State P) : Prop := s.toStock.Tracks s.closerSet

/-- The pool knows its handles, and they survive it. -/
structure ClosersTracked (k : Kind) (s : State P) : Prop where
  /-- Until the pool is destroyed, `m_closer_set` is right. -/
  tracked : s.alive = true → s.Tracked
  /-- No handle is bound to a destroyed pool. -/
  unbound : s.alive = false → ∀ hd ∈ s.handles, hd.bound = false
  /-- Releasing the handle of a destroyed pool deletes its resource and does nothing else. -/
  freed : s.alive = false → ∀ hd ∈ s.handles, ∀ pushed, release k s hd.closer pushed =
    some { s.drop hd.closer with deleted := hd.res.ptr :: s.deleted }

/-- The step lends no resource from the idle queue. -/
def LendsFresh (k : Kind) (s : State P) : Event P N V → Prop
  | .get _ => s.frontCurrent k = false
  | .resume c => c ∈ s.expired ∨ s.frontCurrent k = false
  | _ => True

instance (k : Kind) (s : State P) : DecidablePred (LendsFresh (N := N) (V := V) k s)
  | .get _ => inferInstanceAs (Decidable (s.frontCurrent k = false))
  | .resume c => inferInstanceAs (Decidable (c ∈ s.expired ∨ s.frontCurrent k = false))
  | .release .. | .expire _ | .interrupt _ | .releaseIdleResource | .setParam ..
  | .setParameter _ | .incVersion | .destroy => isTrue trivial

/-- In a pool that exists it is the set that counts. -/
lemma closersTracked_alive (halive : s.alive = true) : ClosersTracked k s ↔ s.Tracked := by
  refine ⟨fun h => h.tracked halive, fun h => ⟨fun _ => h, fun hdead => ?_, fun hdead => ?_⟩⟩
  · simp [halive] at hdead
  · simp [halive] at hdead

/-- After the destructor it is the binding of the handles that counts. -/
lemma closersTracked_dead (hcalls : Calls s) (hdead : s.alive = false) :
    ClosersTracked k s ↔ ∀ hd ∈ s.handles, hd.bound = false := by
  refine ⟨fun h => h.unbound hdead, fun h => ⟨fun halive => ?_, fun _ => h, ?_⟩⟩
  · simp [hdead] at halive
  · intro _ hd hmem pushed
    simp only [release, hcalls.find_closer hmem, h hd hmem, Bool.false_eq_true, ↓reduceIte]

/-! ## Steps and runs -/

/-- A new resource is registered. -/
lemma createOrWait_tracked (h : s.Tracked) (how : Construction) :
    (createOrWait s c how).1.Tracked := by
  unfold createOrWait
  split
  · cases how with
    | ok => exact Stock.Tracks.lend (s := s.toStock.construct) h c _
    | throws what => exact h
    | throwsUnknown => exact h
  · exact h

/-- A call of `get` keeps the set right exactly when it takes no resource from the queue.

**Proof sketch.** By cases on the front of the queue. A resource that is made is entered into the
set, and one that is taken from the queue is not. -/
lemma get_tracked_iff (h : s.Tracked) (hcalls : Calls s) (how : Construction) :
    (get k s how).1.Tracked ↔ s.frontCurrent k = false := by
  simp only [get, State.frontCurrent]
  split
  · next hs =>
    refine iff_of_true ?_ (by simp [hs])
    exact createOrWait_tracked (s := { s with gets := s.gets + 1 }) h how
  · next p rest hs =>
    split
    · next hp =>
      refine iff_of_true ?_ (by simp [hs, hp])
      exact createOrWait_tracked
        (s := (State.pop { s with gets := s.gets + 1 } rest).discard p) h how
    · next hp =>
      refine iff_of_false ?_ (by simp [hs, hp])
      refine Stock.Tracks.not_lend (s := s.toStock.pop rest) h ?_ p
      intro hmem
      obtain ⟨hd, hmem, hcloser⟩ := List.mem_map.mp hmem
      have := hcalls.closer_lt hmem
      omega

/-- So does a call that resumes. -/
lemma resumes_tracked_iff {r : GetResult P} (hr : Resumes k s c t r) (h : s.Tracked)
    (hcalls : Calls s) : t.Tracked ↔ c ∈ s.expired ∨ s.frontCurrent k = false := by
  simp only [State.frontCurrent]
  cases hr with
  | timedOut hc => exact iff_of_true h (Or.inl hc)
  | empty _ _ hs => exact iff_of_true h (Or.inr (by simp [hs]))
  | mismatch _ _ hs hp => exact iff_of_true h (Or.inr (by simp [hs, hp]))
  | @lent p rest hc hne hs hp =>
    refine iff_of_false ?_ (by simp [hne, hs, hp])
    refine Stock.Tracks.not_lend (s := s.toStock.pop rest) h (hcalls.not_mem_closers ?_) p
    exact hc.imp id Or.inr

/-- A return takes the closer out of the set. -/
lemma returnResource_tracked (h : s.Tracked) (hcalls : Calls s) (p : Resource P)
    (pushed : Bool) : (returnResource k (s.drop c) p c pushed).Tracked := by
  have hdrop := h.drop hcalls.closers_nodup c
  unfold returnResource
  split
  · exact hdrop
  split
  · obtain ⟨_, _, _, hw⟩ := ((s.drop c).push p).wake_eq
    rw [hw]
    exact hdrop
  · obtain ⟨_, _, _, hw⟩ := ((s.drop c).discard p).wake_eq
    rw [hw]
    exact hdrop

/-- The destructor unbinds every handle that is tracked. -/
lemma unbound_destroy (h : s.Tracked) : ∀ hd ∈ (destroy s).handles, hd.bound = false := by
  intro hd hmem
  obtain ⟨hd', hmem', rfl⟩ := List.mem_map.mp hmem
  rw [if_pos ((h hd'.closer).mpr (List.mem_map_of_mem hmem'))]

/-- A step of a pool that lives on keeps the set right exactly when it meets the condition.

**Proof sketch.** One case for each step. `get` and the resumption of a waiter have lemmas of their
own, and the others keep the set. -/
lemma step_tracked_iff [ParameterOps P N V] [BEq V] {e : Event P N V} (hsound : Sound s)
    (hstep : step k s e = some t) (halive : t.alive = true) (h : s.Tracked) :
    t.Tracked ↔ LendsFresh k s e := by
  have hcalls := hsound.calls
  cases fires_of_step hstep with
  | get how => exact get_tracked_iff h hcalls how
  | resume _ hr => exact resumes_tracked_iff hr h hcalls
  | returned pushed => exact iff_of_true (returnResource_tracked h hcalls _ pushed) trivial
  | freed _ hf hb =>
    have hdead := hsound.not_alive_of_unbound hf hb
    exact absurd halive (by simp [State.drop, Stock.drop, hdead])
  | releaseIdleResource =>
    rw [releaseIdleResource_eq]
    exact iff_of_true h trivial
  | setParam =>
    rw [replaceParam, releaseIdleResource_eq]
    exact iff_of_true h trivial
  | setParameter =>
    rw [replaceParam, releaseIdleResource_eq]
    exact iff_of_true h trivial
  | expire | interrupt | setParamKept | incVersion => exact iff_of_true h trivial
  | destroy => simp [destroy] at halive

/-- **The set of closers is right exactly along the runs that lend no resource from the idle
queue**, and then handles survive the pool.

**Proof sketch.** By `always_iff_along`: a handle for a resource from the queue is not in the set,
as its closer is new; the other steps change the set and the handles together. What the destructor
finds in the set it unbinds. -/
theorem closers_tracked [ParameterOps P N V] [BEq V] (k : Kind) (param : P) (maxCount : ℕ)
    {es : List (Event P N V)} (hrun : (system k param maxCount).run es = some s) :
    (system k param maxCount).Always (ClosersTracked k) es ↔
      (system k param maxCount).Along (LendsFresh k) es := by
  refine System.always_iff_along (J := Sound) (init_sound param maxCount) ?_
    (fun s e t hsound hstep => step_sound hsound hstep) ?_ hrun
  · exact (closersTracked_alive rfl).mpr fun c => by simp [system, State.init]
  intro s e t hsound h hstep
  have hcalls : Calls t := (step_sound hsound hstep).calls
  by_cases halive : s.alive = true
  · rcases alive_step hstep halive with halive' | ⟨rfl, rfl⟩
    · rw [closersTracked_alive halive']
      exact step_tracked_iff hsound hstep halive' (h.tracked halive)
    · rw [closersTracked_dead hcalls rfl]
      exact iff_of_true (unbound_destroy (h.tracked halive)) trivial
  · have hdead : s.alive = false := by simpa using halive
    cases fires_of_step hstep with
    | freed =>
      rw [closersTracked_dead hcalls hdead]
      refine iff_of_true (fun hd hmem => ?_) trivial
      exact h.unbound hdead hd (List.mem_of_mem_eraseP hmem)
    | _ => contradiction

/-- A run of fresh resources only, whose last handle survives the pool. -/
theorem closers_tracked_of_fresh :
    (ResourceAsioPool.system ([] : IntParams) 2).Always (ClosersTracked .plain)
      [.get .ok, .get .ok, .release 0 true, .destroy, .release 1 true] :=
  (closers_tracked .plain [] 2 rfl).mpr (by decide)

/-- The resource of the first handle is lent again and the set stays empty; after the destructor
the second handle is still bound to the pool, and there is no way to release it. -/
theorem closers_not_tracked : ∃ s t,
    (ResourceAsioPool.system ([] : IntParams) 1).run
      [.get .ok, .release 0 true, .get .ok] = some s ∧
    s.closerSet = ∅ ∧ s.handles.map (·.closer) = [1] ∧ ¬ ClosersTracked .plain s ∧
    (ResourceAsioPool.system ([] : IntParams) 1).run
      [.get .ok, .release 0 true, .get .ok, .destroy] = some t ∧
    t.handles.map (·.bound) = [true] ∧ release .plain t 1 true = none := by
  refine ⟨_, _, rfl, rfl, rfl, fun h => ?_, rfl, rfl, rfl⟩
  have := (h.tracked rfl 1).mpr (by decide)
  exact absurd this (by decide)

end HkuUtils.AsioPool
