import Mathlib.Data.Finset.Card
import HkuUtils.HttpClient.Client

set_option relaxedAutoImplicit false
set_option autoImplicit false

/-!
# The calls of a client that run at once

The coroutine of a call waits in the pool, then holds a connection to its end. However many calls
there are and however they end, where a call is decides what the pool knows of it.

## Main definitions

* `HkuUtils.AsioPool.State.pending`, `held` — where the pool has a call.
* `HkuUtils.HttpClient.Phase.waits`, `holds` — where the coroutine of a call is.
* `HkuUtils.HttpClient.Served` — they agree, and the limit is kept.

## Main results

* `HkuUtils.HttpClient.step_placed` — the step lemma.
* `HkuUtils.HttpClient.calls_served` — **every run serves its calls within the limit**.
-/

namespace HkuUtils.AsioPool

open State

variable {P N V : Type} {k : Kind} {s t : State P} {c : ℕ} {r : GetResult P}

/-! ## Calls in the pool -/

/-- How often the call `c` occurs among the waiting calls and those whose wait has ended. -/
def State.pending (s : State P) (c : ℕ) : ℕ :=
  s.armed.count c + s.cancelled.count c + s.expired.count c + s.interrupted.count c

/-- How many handles the call `c` has. -/
def State.held (s : State P) (c : ℕ) : ℕ := (s.handles.map (·.closer)).count c

/-- How often a segment of `get` has put its call into the waiter queue. -/
def GetResult.parked : GetResult P → ℕ
  | .suspended => 1
  | .lent _ | .threw _ => 0

/-- A call that pends is not served, and the other way round. -/
lemma State.uses_eq (s : State P) (d : ℕ) : s.uses d = s.pending d + s.held d := rfl

/-- A call that has not been made is nowhere. -/
lemma Calls.nowhere (h : Calls s) {d : ℕ} (hd : s.gets ≤ d) : s.pending d = 0 ∧ s.held d = 0 := by
  have honce := h.once d
  rw [if_neg (Nat.not_lt.2 hd), State.uses_eq] at honce
  omega

/-- Waking the front waiter leaves it pending. -/
lemma State.pending_wake (s : State P) (d : ℕ) : s.wake.pending d = s.pending d := by
  have huses := s.uses_wake d
  obtain ⟨_, _, _, hwake⟩ := s.wake_eq
  have hheld : s.wake.held d = s.held d := by
    rw [hwake]
    rfl
  rw [uses_eq, uses_eq, hheld] at huses
  exact Nat.add_right_cancel huses

/-- A call is at the end of the queue if it has to wait. -/
lemma createOrWait_pending (s : State P) (how : Construction) (d : ℕ) :
    (createOrWait s c how).1.pending d =
      s.pending d + if c = d then (createOrWait s c how).2.parked else 0 := by
  unfold createOrWait
  split
  · cases how <;> simp [GetResult.parked, State.pending, State.register, State.lend,
      State.construct]
  · simp only [GetResult.parked, State.pending, State.park, List.count_cons, beq_iff_eq]
    omega

/-- So it is in `get`. -/
lemma get_pending (k : Kind) (s : State P) (how : Construction) (d : ℕ) :
    (get k s how).1.pending d =
      s.pending d + if s.gets = d then (get k s how).2.parked else 0 := by
  simp only [get]
  split
  · exact createOrWait_pending { s with gets := s.gets + 1 } how d
  · next p rest hs =>
    split
    · exact createOrWait_pending ((State.pop { s with gets := s.gets + 1 } rest).discard p) how d
    · simp [GetResult.parked, State.pending, State.lend, State.pop]

/-- A call whose wait has ended pends once, and no more when it has left. -/
lemma Calls.pending_leave (h : Calls s)
    (hc : c ∈ s.cancelled ∨ c ∈ s.expired ∨ c ∈ s.interrupted) (d : ℕ) :
    s.pending d = (s.leave c).pending d + if c = d then 1 else 0 := by
  by_cases hcd : c = d
  · subst hcd
    have honce := h.once c
    have hpos : 0 < s.cancelled.count c + s.expired.count c + s.interrupted.count c := by
      rcases hc with hc | hc | hc <;> have := List.count_pos_iff.2 hc <;> omega
    simp only [State.uses] at honce
    simp only [State.pending, State.leave, List.count_erase_self, if_true]
    split at honce <;> omega
  · simp [State.pending, State.leave, List.count_erase_of_ne (Ne.symm hcd), hcd]

/-- A call that resumes leaves the queue. -/
lemma Resumes.pending_eq (h : Calls s) (hr : Resumes k s c t r) (d : ℕ) :
    s.pending d = t.pending d + if c = d then 1 else 0 := by
  rw [h.pending_leave hr.ended d]
  cases hr <;> rfl

/-- A call that resumes does not wait again. -/
lemma Resumes.parked_eq (hr : Resumes k s c t r) : r.parked = 0 := by
  cases hr <;> rfl

/-- A segment of `get` gives its call a handle, if it lends. -/
lemma Lends.held_eq {source : Resource P → Prop} (h : Lends s t c source r) (d : ℕ) :
    t.held d = s.held d + if c = d then r.handles.length else 0 := by
  rw [State.held, State.held, h.handles, List.map_append, List.count_append, Nat.add_comm]
  cases r with
  | lent hd =>
    obtain ⟨hcloser, -⟩ := h.lent hd List.mem_cons_self
    simp [GetResult.handles, hcloser, List.count_singleton]
  | suspended | threw e => simp [GetResult.handles]

/-- A return moves no call that pends. -/
lemma returnResource_pending (k : Kind) (s : State P) (p : Resource P) (pushed : Bool) (d : ℕ) :
    (returnResource k s p c pushed).pending d = s.pending d := by
  unfold returnResource
  split
  · rfl
  split
  · exact (s.push p).pending_wake d
  · exact (s.discard p).pending_wake d

/-- A handle that is dropped is one less for its call. -/
lemma State.held_drop {hd : Handle P} (hmem : hd ∈ s.handles) (d : ℕ) :
    s.held d = (s.drop hd.closer).held d + if hd.closer = d then 1 else 0 := by
  have hcloser : hd.closer ∈ s.handles.map (·.closer) := List.mem_map_of_mem hmem
  have := State.count_erase_add hcloser d
  rw [← Stock.closers_drop] at this
  exact this.symm

/-- The limit of a pool stays as it is.

**Proof sketch.** One case for each step; none of them sets the limit. -/
lemma maxCount_step [ParameterOps P N V] [BEq V] {e : Event P N V} (hstep : step k s e = some t) :
    t.maxCount = s.maxCount := by
  cases fires_of_step hstep with
  | get how =>
    simp only [AsioPool.get, createOrWait]
    repeat' split
    all_goals rfl
  | resume _ hr => cases hr <;> rfl
  | returned pushed halive hf hb =>
    unfold returnResource
    split
    · rfl
    split
    · obtain ⟨_, _, _, hwake⟩ := State.wake_eq (State.push (s.drop _) _)
      rw [hwake]
      rfl
    · obtain ⟨_, _, _, hwake⟩ := State.wake_eq (State.discard (s.drop _) _)
      rw [hwake]
      rfl
  | releaseIdleResource =>
    rw [releaseIdleResource_eq]
  | setParam | setParameter =>
    rw [replaceParam, releaseIdleResource_eq]
  | _ => rfl

end HkuUtils.AsioPool

namespace HkuUtils.HttpClient

open Transition AsioPool

/-! ## Where a call is -/

/-- The call waits in the pool, or has been woken and not resumed yet. -/
def Phase.waits : Phase → Bool
  | .waiting _ => true
  | _ => false

/-- The call has come back from the pool with a connection and has not ended. -/
def Phase.holds : Phase → Bool
  | .connecting _ | .writing _ | .reading | .readingHeader | .readingBody _ => true
  | .unmade | .waiting _ | .returned _ | .threw _ => false

/-- The pool has each call where its coroutine is. -/
structure Placed (s : State) : Prop where
  held : ∀ c, s.pool.held c = (s.phase c).holds.toNat
  pending : ∀ c, s.pool.pending c = (s.phase c).waits.toNat

/-- **What a client guarantees for its calls**: each has its connection for itself, and there are
not more of them than the limit. -/
structure Served (maxConcurrency : ℕ) (s : State) : Prop extends Placed s where
  /-- The connection of a call is its own. -/
  own : ∀ hd ∈ s.pool.handles, ∀ hd' ∈ s.pool.handles, hd.closer ≠ hd'.closer →
    hd.res.ptr ≠ hd'.res.ptr
  /-- It is not idle. -/
  busy : ∀ hd ∈ s.pool.handles, ∀ p ∈ s.pool.resourceList, p.ptr ≠ hd.res.ptr
  /-- The connections are the idle ones and those of the calls. -/
  count_eq : s.pool.count = s.pool.resourceList.length + s.pool.handles.length
  /-- The calls that have a connection at once are within the limit. -/
  limit : 0 < maxConcurrency → ∀ cs : Finset ℕ, (∀ c ∈ cs, (s.phase c).holds = true) →
    cs.card ≤ maxConcurrency

/-! ## Steps -/

variable {target : Target} {s t : State} {c : ℕ}

/-- A segment of `get` leaves the coroutine where the pool has it. -/
lemma enter_place (stream : Bool) (r : GetResult IntParams) :
    (enter stream r).holds.toNat = r.handles.length ∧
      (enter stream r).waits.toNat = r.parked := by
  cases r <;> exact ⟨rfl, rfl⟩

/-- A call that takes a step on its connection has one, and has none exactly if it ends. -/
lemma holds_of_act {conn conn' : HttpConnection} {phase phase' : Phase} {outcome : Outcome}
    (h : act target c conn phase outcome = some (conn', phase')) :
    phase.holds = true ∧ phase.waits = false ∧ phase'.holds = !phase'.over ∧
      phase'.waits = false := by
  cases acts_of_act h with
  | @written stream => cases stream <;> exact ⟨rfl, rfl, rfl, rfl⟩
  | _ => exact ⟨rfl, rfl, rfl, rfl⟩

namespace Placed

/-- The pool and the coroutine agree on the calls that do not move, and on the one that does. -/
lemma agree_update {inPool inPool' : ℕ → ℕ} {place : Phase → Bool} {phase : Phase}
    (h : ∀ d, inPool d = (place (s.phase d)).toNat) (hother : ∀ d ≠ c, inPool' d = inPool d)
    (hc : inPool' c = (place phase).toNat) (d : ℕ) :
    inPool' d = (place (Function.update s.phase c phase d)).toNat := by
  by_cases hdc : d = c
  · subst hdc
    rwa [Function.update_self]
  · rw [Function.update_of_ne hdc]
    exact (hother d hdc).trans (h d)

/-- The call `c` and the pool move together, and nothing else moves. -/
lemma update (h : Placed s) {pool : AsioPool.State IntParams} {conns : ℕ → HttpConnection}
    {phase : Phase} (hother : ∀ d ≠ c, pool.held d = s.pool.held d ∧
      pool.pending d = s.pool.pending d) (hheld : pool.held c = phase.holds.toNat)
    (hpending : pool.pending c = phase.waits.toNat) :
    Placed { s with pool := pool, conns := conns, phase := Function.update s.phase c phase } where
  held := agree_update h.held (fun d hd => (hother d hd).1) hheld
  pending := agree_update h.pending (fun d hd => (hother d hd).2) hpending

/-- The pool moves no call. -/
lemma congr (h : Placed s) {pool : AsioPool.State IntParams} {timeout : ℤ}
    (hheld : ∀ d, pool.held d = s.pool.held d)
    (hpending : ∀ d, pool.pending d = s.pool.pending d) :
    Placed { s with pool := pool, timeout := timeout } :=
  ⟨fun d => (hheld d).trans (h.held d), fun d => (hpending d).trans (h.pending d)⟩

/-- A call is made. -/
lemma call (h : Placed s) (hsound : Sound s.pool) (stream : Bool) (how : Construction)
    (conns : ℕ → HttpConnection) :
    Placed { s with
      pool := (get .versioned s.pool how).1
      conns := conns
      phase := Function.update s.phase s.pool.gets
        (enter stream (get .versioned s.pool how).2) } := by
  have hheld := (get_lends .versioned s.pool how).held_eq
  have hpending := get_pending .versioned s.pool how
  obtain ⟨hnone, hnone'⟩ := hsound.calls.nowhere le_rfl
  obtain ⟨hholds, hwaits⟩ := enter_place stream (get .versioned s.pool how).2
  refine h.update (fun d hd => ?_) ?_ ?_
  · rw [hheld, hpending, if_neg hd.symm, if_neg hd.symm]
    exact ⟨rfl, rfl⟩
  · rw [hheld, hnone', if_pos rfl, hholds, Nat.zero_add]
  · rw [hpending, hnone, if_pos rfl, hwaits, Nat.zero_add]

/-- A call resumes.

**Proof sketch.** The call that resumes waits no more, and it holds a connection exactly if it was
lent one; the other calls are where they were. -/
lemma resume (h : Placed s) (hsound : Sound s.pool) (stream : Bool)
    {pool : AsioPool.State IntParams} {r : GetResult IntParams}
    (hr : Resumes .versioned s.pool c pool r) :
    Placed { s with pool := pool, phase := Function.update s.phase c (enter stream r) } := by
  have hheld := (resumes_lends hr).held_eq
  have hpending := hr.pending_eq hsound.calls
  obtain ⟨hholds, hwaits⟩ := enter_place stream r
  obtain ⟨-, hnone⟩ := hsound.calls.count_ended hr.ended
  have honce := hsound.calls.once c
  refine h.update (fun d hd => ?_) ?_ ?_
  · have := hpending d
    rw [if_neg hd.symm] at this
    rw [hheld, if_neg hd.symm]
    exact ⟨rfl, this.symm⟩
  · rw [hheld, if_pos rfl, hholds, State.held, hnone, Nat.zero_add]
  · rw [hwaits, hr.parked_eq]
    have := hpending c
    rw [if_pos rfl] at this
    rw [State.uses_eq] at honce
    split at honce <;> omega

/-- A call ends and drops its connection.

**Proof sketch.** The call has its handle until it ends and is counted as a holder until then.
Returning the resource drops this handle and no other, and wakes calls that wait without moving
them. -/
lemma ends (h : Placed s) (hsound : Sound s.pool) (halive : s.pool.alive = true)
    {hd : Handle IntParams} {pool : AsioPool.State IntParams} {pushed : Bool} {phase : Phase}
    (hf : s.pool.handles.find? (·.closer = c) = some hd)
    (hrel : release .versioned s.pool c pushed = some pool) (hphase : (s.phase c).holds = true)
    (hwaits : (s.phase c).waits = false) (hends : phase.holds = false)
    (hends' : phase.waits = false) (conns : ℕ → HttpConnection) :
    Placed { s with pool := pool, conns := conns, phase := Function.update s.phase c phase } := by
  rw [hsound.release_eq _ halive hf] at hrel
  obtain rfl := Option.some.inj hrel
  have hmem := List.mem_of_find?_eq_some hf
  obtain rfl : hd.closer = c := by simpa using List.find?_some hf
  obtain ⟨hhandles, -⟩ :=
    returnResource_places .versioned (s.pool.drop hd.closer) hd.res hd.closer pushed
  have hheld : ∀ d, (returnResource .versioned (s.pool.drop hd.closer) hd.res hd.closer
      pushed).held d = (s.pool.drop hd.closer).held d := by
    intro d
    rw [State.held, hhandles, State.held]
  have hpending := returnResource_pending (c := hd.closer) .versioned (s.pool.drop hd.closer)
    hd.res pushed
  have hdrop := State.held_drop hmem
  refine h.update (fun d hne => ?_) ?_ ?_
  · have := hdrop d
    rw [if_neg hne.symm] at this
    rw [hheld, hpending]
    exact ⟨this.symm, rfl⟩
  · have := hdrop hd.closer
    rw [h.held, hphase, if_pos rfl, Bool.toNat_true] at this
    rw [hheld, hends, Bool.toNat_false]
    omega
  · rw [hpending, hends']
    exact (h.pending hd.closer).trans (by rw [hwaits])

end Placed

/-- **One step keeps each call at its place.**

**Proof sketch.** One case for each step. A call is at the place that its phase tells: among those
that wait, among those that hold, or nowhere; a step of the pool moves it as its own lemma says. -/
theorem step_placed (h : Placed s) (hsound : Sound s.pool) (halive : s.pool.alive = true)
    {e : Event} (hstep : step target s e = some t) : Placed t := by
  cases steps_of_step hstep with
  | call stream how now => exact h.call hsound stream how _
  | expire hexp =>
    obtain ⟨hc, hexp⟩ := Option.ite_none_right_eq_some.mp hexp
    obtain rfl := Option.some.inj hexp
    refine h.congr (fun _ => rfl) fun d => ?_
    exact Nat.add_right_cancel (uses_endWait hc d).1
  | interrupt hint =>
    obtain ⟨hc, hint⟩ := Option.ite_none_right_eq_some.mp hint
    obtain rfl := Option.some.inj hint
    refine h.congr (fun _ => rfl) fun d => ?_
    exact Nat.add_right_cancel (uses_endWait hc d).2
  | resume hres => exact h.resume hsound _ (resumes_of_resume hres)
  | @goesOn c outcome hd conn phase _ hf hact hover =>
    obtain ⟨hphase, hwaits, hholds, hwaits'⟩ := holds_of_act hact
    refine h.update (fun _ _ => ⟨rfl, rfl⟩) ?_ ?_
    · rw [h.held, hphase, hholds, hover]
      rfl
    · rw [h.pending, hwaits, hwaits']
  | ends hf hact hover hrel =>
    obtain ⟨hphase, hwaits, hholds, hwaits'⟩ := holds_of_act hact
    exact h.ends hsound halive hf hrel hphase hwaits (by rw [hholds, hover]; rfl) hwaits' _
  | setTimeoutKept => exact h
  | setTimeout =>
    obtain ⟨hhandles, -⟩ := replaceParam_places s.pool []
    refine h.congr (fun d => ?_) fun d => ?_
    · rw [State.held, hhandles, State.held]
    · rw [replaceParam, releaseIdleResource_eq]
      rfl

/-- The pool of a client is there, and sound, and its limit is the one it was made with. -/
structure Pooled (maxConcurrency : ℕ) (s : State) : Prop extends Placed s where
  alive : s.pool.alive = true
  sound : Sound s.pool
  maxCount_eq : s.pool.maxCount = maxConcurrency

/-- A step of a client is at most one of its pool. -/
lemma Pooled.step {maxConcurrency : ℕ} (h : Pooled maxConcurrency s) {e : Event}
    (hstep : step target s e = some t) : Pooled maxConcurrency t := by
  obtain ⟨halive, ds, hrun⟩ := pool_step 0 h.alive hstep
  have hpool : Sound t.pool ∧ t.pool.maxCount = maxConcurrency :=
    System.runFrom_invariant_along
      (I := fun pool => Sound pool ∧ pool.maxCount = maxConcurrency) (C := fun _ _ => True)
      (fun _ _ _ hs _ hd => ⟨step_sound hs.1 hd, (maxCount_step hd).trans hs.2⟩)
      ⟨h.sound, h.maxCount_eq⟩ (System.alongFrom_true _ _ _) hrun
  exact ⟨step_placed h.toPlaced h.sound h.alive hstep, halive, hpool.1, hpool.2⟩

/-- A new client. -/
lemma pooled_init (timeout : ℤ) (maxConcurrency : ℕ) :
    Pooled maxConcurrency (State.init timeout maxConcurrency) :=
  ⟨⟨fun _ => rfl, fun _ => rfl⟩, rfl, init_sound _ _, rfl⟩

/-- **The calls of a client** on an executor with one thread: in every run, a call holds one
connection of its own from the end of `get` to its own end, and none before or behind, and the
calls that hold one at once are never more than the limit.

**Proof sketch.** The places of the calls are an invariant of the run, and the account of the pool
gives the rest: a connection has one handle, and the handles are at most as many as the limit
allows. -/
theorem calls_served {timeout : ℤ} {maxConcurrency : ℕ} {es : List Event}
    (hrun : (system target timeout maxConcurrency).run es = some s) :
    Served maxConcurrency s := by
  have h : Pooled maxConcurrency s := System.run_invariant
    (S := system target timeout maxConcurrency) (I := Pooled maxConcurrency)
    (pooled_init timeout maxConcurrency) (fun s e t h hstep => h.step hstep) hrun
  have haccount := h.sound.account h.alive
  refine ⟨h.toPlaced, fun hd hmem hd' hmem' hne heq => ?_, fun hd hmem p hp => ?_,
    haccount.balanced.count_eq, fun hpos cs hcs => ?_⟩
  · exact hne (congrArg _ (haccount.eq_of_ptr_eq hmem hmem' heq))
  · exact haccount.ptr_ne_of_idle hp hmem
  · -- the calls are closers of the handles
    have hsub : cs ⊆ (s.pool.handles.map (·.closer)).toFinset := by
      intro c hc
      have hheld : 0 < s.pool.held c := by
        rw [h.held, hcs c hc]
        exact Nat.zero_lt_one
      exact List.mem_toFinset.2 (List.count_pos_iff.1 hheld)
    have hcard : cs.card ≤ s.pool.handles.length := by
      refine (Finset.card_le_card hsub).trans ((List.toFinset_card_le _).trans ?_)
      rw [List.length_map]
    have hcount := haccount.count_le (h.maxCount_eq.symm ▸ hpos)
    rw [haccount.balanced.count_eq, h.maxCount_eq] at hcount
    omega

/-- Two calls of a client with one connection: the second one waits, and is woken when the first
one fails. -/
def waitEvents : List Event :=
  [.call false .ok 0, .call true .ok 1,
    .act 0 (.setUp ⟨0, .endpoints [1], [.failed], none, .success⟩) true]

/-- The second call still pends when the first one has dropped the connection. -/
theorem calls_served_failed : ∃ s,
    (system ⟨false, "localhost", "80"⟩ 1000 1).run waitEvents = some s ∧
      s.pool.held 0 = 0 ∧ s.pool.pending 1 = 1 ∧ Served 1 s := by
  have hrun : (system ⟨false, "localhost", "80"⟩ 1000 1).run waitEvents = some _ := rfl
  exact ⟨_, hrun, rfl, rfl, calls_served hrun⟩

end HkuUtils.HttpClient
