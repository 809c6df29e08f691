import HkuUtils.Algorithm.Loops
import HkuUtils.ThreadPool.Joining

set_option relaxedAutoImplicit false
set_option autoImplicit false

/-!
# Parallel loops without results

`parallel_for_index_void` and `parallel_for_index_void_single` submit their tasks like the loops
with results, but drop the futures and only join the pool. What the function throws is caught by
the task that called it and is left in a future that nobody has; the other indices of that task are
left out, and the loop returns as if nothing had happened.

## Main definitions

* `HkuUtils.Algorithm.VoidLoop`, `voidLoop` — a call of one of the functions with its pool.
* `HkuUtils.Algorithm.parallelForIndexVoid`, `parallelForIndexVoidSingle` — the two functions.
* `HkuUtils.Algorithm.calls` — the indices for which a task calls the function.
* `HkuUtils.Algorithm.Reported` — what a call that returns should say about the function.
* `HkuUtils.Algorithm.VoidCoherent`, `VoidLoop.measure` — what holds of a call, and how many steps
  are left.

## Main results

* `HkuUtils.Algorithm.stepVoid_coherent`, `stepVoid_measure_lt`, `exists_stepVoid` — one step.
* `HkuUtils.Algorithm.voidLoop_invoked` — which indices were called when a call has returned.
* `HkuUtils.Algorithm.void_loops_report`, `void_loop_hides` — when a call reports its failures, and
  one that does not.

## Design

A task calls the function in one step for each index, and ends in another one. The function throws
for an index or not.
-/

namespace HkuUtils.Algorithm

open Threads Transition ThreadPool

/-! ## A call -/

/-- Where the thread is that calls the function. There are no results to collect: it submits its
tasks and joins the pool. -/
inductive VoidCaller where
  /-- In the loop over the ranges, with range `i` in `submit`. -/
  | submitting (i : ℕ) (stage : Stage)
  /-- `submit` has thrown. -/
  | thrown
  /-- In `tg.join()`. -/
  | joining (stage : Stage)
  /-- In the destructor of the pool. -/
  | closing (stage : Stage)
  | returned

/-- A call and its pool. -/
structure VoidLoop where
  memory : Memory
  /-- The indices that a task has not come to. The tasks are numbered in the order in which they
  were submitted. -/
  rest : ℕ → List ℕ
  /-- The indices for which the function was called, the last one first. -/
  invoked : List ℕ
  caller : VoidCaller

/-- The next step of the caller. As before, the calls of `submit` and `join` are those of the pool;
the futures that `submit` returns are dropped. -/
def stepVoidCaller (p : Pool) (tasks : List (List ℕ)) (s : VoidLoop) : Option VoidLoop :=
  match s.caller with
  | .submitting i stage =>
    if tasks.length ≤ i then some { s with caller := .joining .start }
    else if stage = .submit ∧ s.memory.done = true then some { s with caller := .thrown }
    else
      (act p s.memory stage (if stage = .start then .submit else .go)).map fun r =>
        { s with
          memory := r.1
          caller := if r.2 = .returned 0 then .submitting (i + 1) .start else .submitting i r.2 }
  | .joining (.returned _) => some { s with caller := .closing .start }
  | .joining stage =>
    (act p s.memory stage (if stage = .start then .join else .go)).map fun r =>
      { s with memory := r.1, caller := .joining r.2 }
  | .closing (.returned _) => some { s with caller := .returned }
  | .closing stage =>
    if stage = .start ∧ s.memory.done = true then some { s with caller := .returned }
    else
      (act p s.memory stage (if stage = .start then .join else .go)).map fun r =>
        { s with memory := r.1, caller := .closing r.2 }
  | .thrown => none
  | .returned => none

/-- A worker in a task calls the function for the next index. After an exception the task does not
go on; `std::packaged_task` has caught it. -/
def invoke (throws : ℕ → Bool) (s : VoidLoop) (t ix : ℕ) (ixs : List ℕ) : VoidLoop :=
  { s with
    rest := Function.update s.rest t (if throws ix then [] else ixs)
    invoked := ix :: s.invoked }

/-- The next step of a worker. -/
def stepVoidWorker (p : Pool) (throws : ℕ → Bool) (s : VoidLoop) (i : ℕ) : Option VoidLoop :=
  let go := (work p s.memory i).map fun m => { s with memory := m }
  match s.memory.worker i with
  | .running t =>
    match s.rest t with
    | ix :: ixs => if p.workerNum ≤ i then none else some (invoke throws s t ix ixs)
    | [] => go
  | _ => go

/-- A step of a call. -/
def stepVoid (p : Pool) (throws : ℕ → Bool) (tasks : List (List ℕ)) (s : VoidLoop) :
    Turn → Option VoidLoop
  | .caller => stepVoidCaller p tasks s
  | .worker i => stepVoidWorker p throws s i

/-- A call with the indices of its tasks. Without a task it returns at once. -/
def voidLoop (p : Pool) (throws : ℕ → Bool) (tasks : List (List ℕ)) : System VoidLoop Turn where
  init := ⟨Memory.init, fun t => tasks.getD t [], [],
    if tasks.isEmpty then .returned else .submitting 0 .start⟩
  step := stepVoid p throws tasks

/-- A call has returned. -/
def VoidLoop.result (s : VoidLoop) : Option Unit :=
  match s.caller with
  | .returned => some ()
  | _ => none

/-! ## The functions -/

section Functions

variable (kind : ThreadPool.Kind) {hardware : ℕ} (hhw : 1 ≤ hardware)

/-- `parallel_for_index_void`. -/
def parallelForIndexVoid (throws : ℕ → Bool) (start stop cpuNum : ℕ) : System VoidLoop Turn :=
  voidLoop (taskGroup kind hhw cpuNum) throws
    ((parallelIndexRange hardware start stop cpuNum).map fun r => indices r.1 r.2)

/-- `parallel_for_index_void_single`. -/
def parallelForIndexVoidSingle (throws : ℕ → Bool) (start stop cpuNum : ℕ) :
    System VoidLoop Turn :=
  voidLoop (taskGroup kind hhw cpuNum) throws ((indices start stop).map fun i => [i])

end Functions

/-- The indices for which the loop of a task calls the function: all up to the first one that
throws. -/
def calls (throws : ℕ → Bool) : List ℕ → List ℕ
  | [] => []
  | ix :: ixs => ix :: if throws ix then [] else calls throws ixs

/-- The function was called once for every index of the range, and has never thrown. -/
structure Reported (throws : ℕ → Bool) (start stop : ℕ) (s : VoidLoop) : Prop where
  once : ∀ ix, start ≤ ix → ix < stop → s.invoked.count ix = 1
  quiet : ∀ ix ∈ s.invoked, throws ix = false

/-! ## What a task calls -/

variable {p : Pool} {throws : ℕ → Bool} {tasks : List (List ℕ)} {m : Memory}

/-- One index further. -/
lemma calls_cons (ix : ℕ) (ixs : List ℕ) :
    calls throws (ix :: ixs) = ix :: calls throws (if throws ix then [] else ixs) := by
  rw [calls]
  split <;> rfl

/-- A task without failures goes through all of its indices. -/
lemma calls_eq {ixs : List ℕ} (h : ∀ ix ∈ ixs, throws ix = false) : calls throws ixs = ixs := by
  induction ixs with
  | nil => rfl
  | cons ix ixs ih =>
    rw [calls, h ix List.mem_cons_self, ih fun i hi => h i (List.mem_cons_of_mem _ hi)]
    rfl

/-- A task with a failure comes to one. -/
lemma exists_mem_calls {ixs : List ℕ} (h : ∃ ix ∈ ixs, throws ix = true) :
    ∃ ix ∈ calls throws ixs, throws ix = true := by
  induction ixs with
  | nil => simp at h
  | cons i ixs ih =>
    rw [calls]
    by_cases hi : throws i = true
    · exact ⟨i, List.mem_cons_self, hi⟩
    · obtain ⟨ix, hix, hthrows⟩ := h
      rcases List.mem_cons.1 hix with rfl | hix
      · exact absurd hthrows hi
      · obtain ⟨j, hj, hthrows'⟩ := ih ⟨ix, hix, hthrows⟩
        refine ⟨j, List.mem_cons_of_mem _ ?_, hthrows'⟩
        rwa [if_neg hi]

/-! ## What holds of a call -/

/-- What the caller has done so far: behind `join` all tasks were executed. -/
def VoidCaller.Fits (p : Pool) (tasks : List (List ℕ)) (m : Memory) : VoidCaller → Prop
  | .submitting i stage =>
    (Fresh p m ∧ m.locked = false) ∧ m.submitted = i ∧ i ≤ tasks.length ∧ Submits p stage ∧
      ∀ k, stage ≠ .returned k
  | .thrown => False
  | .joining stage =>
    Knows p m stage ∧ Joins stage ∧ m.locked = isAwait stage ∧
      (stage = .start ∧ Fresh p m ∧ m.submitted = tasks.length ∨ Joining p tasks.length m stage)
  | .closing stage =>
    Knows p m stage ∧ Joins stage ∧ m.locked = isAwait stage ∧
      ∀ t < tasks.length, t ∈ m.executed
  | .returned => ∀ t < tasks.length, t ∈ m.executed

/-- What holds of a call: what was called and what is still to be called make up what the tasks
call. -/
structure VoidCoherent (p : Pool) (throws : ℕ → Bool) (tasks : List (List ℕ)) (s : VoidLoop) :
    Prop where
  sound : Sound p s.memory
  finished : ∀ t ∈ s.memory.executed, s.rest t = []
  beyond : ∀ t, tasks.length ≤ t → s.rest t = []
  counted : ∀ ix, s.invoked.count ix +
    ∑ t ∈ Finset.range tasks.length, (calls throws (s.rest t)).count ix =
      ∑ t ∈ Finset.range tasks.length, (calls throws (tasks.getD t [])).count ix
  fits : s.caller.Fits p tasks s.memory

/-- A step of a worker leaves what the caller has done.

**Proof sketch.** One case for each stage of the caller. A worker submits nothing, takes no lock,
and leaves executed what was executed, which is all that the caller relies on. -/
lemma VoidCaller.Fits.work {c : VoidCaller} {m' : Memory} {i : ℕ} (hsound : Sound p m)
    (h : c.Fits p tasks m) (hw : work p m i = some m') : c.Fits p tasks m' := by
  have hrely := (work_sound hsound hw).2
  have hlocked := work_locked hw
  have hsubmitted := (work_submitted hw).1
  cases c with
  | submitting i stage =>
    exact ⟨⟨work_fresh h.1.1 hw, hlocked.trans h.1.2⟩, hsubmitted.trans h.2.1, h.2.2⟩
  | thrown => exact h
  | joining stage =>
    obtain ⟨hknows, hjoins, hlock, hcase⟩ := h
    refine ⟨hrely.knows hknows, hjoins, hlocked.trans hlock, ?_⟩
    rcases hcase with ⟨hstart, hfresh, hsub⟩ | hjoining
    · exact .inl ⟨hstart, work_fresh hfresh hw, hsubmitted.trans hsub⟩
    · exact .inr (hjoining.work hsound hw)
  | closing stage =>
    obtain ⟨hknows, hjoins, hlock, hall⟩ := h
    exact ⟨hrely.knows hknows, hjoins, hlocked.trans hlock,
      fun t ht => hrely.executed t (hall t ht)⟩
  | returned => exact fun t ht => hrely.executed t (h t ht)

/-- A step of the caller that changes only its position. -/
lemma VoidCoherent.move {s : VoidLoop} (h : VoidCoherent p throws tasks s) {c : VoidCaller}
    (hfits : c.Fits p tasks s.memory) : VoidCoherent p throws tasks { s with caller := c } :=
  ⟨h.sound, h.finished, h.beyond, h.counted, hfits⟩

/-- A step of the caller in a function of the pool. -/
lemma VoidCoherent.act {s : VoidLoop} (h : VoidCoherent p throws tasks s) {m' : Memory}
    {l l' : Stage} {a : Action} (hl : Knows p s.memory l)
    (ha : act p s.memory l a = some (m', l')) {c : VoidCaller} (hfits : c.Fits p tasks m') :
    VoidCoherent p throws tasks { s with memory := m', caller := c } := by
  refine ⟨(act_sound h.sound hl ha).1, ?_, h.beyond, h.counted, hfits⟩
  rw [act_executed ha]
  exact h.finished

/-- A step of the caller.

**Proof sketch.** One case for each place of the caller, as for the loops with results, but that
nothing is read after `join`. -/
lemma stepVoidCaller_coherent {s t : VoidLoop} (hu : p.untilEmpty = true)
    (h : VoidCoherent p throws tasks s) (hstep : stepVoidCaller p tasks s = some t) :
    VoidCoherent p throws tasks t := by
  have hfits := h.fits
  rw [stepVoidCaller] at hstep
  split at hstep
  · next i stage hc =>
    rw [hc] at hfits
    have ⟨⟨hfresh, hlocked⟩, hsub, hi, hsubmits, _⟩ := hfits
    split at hstep
    · next hlen =>
      cases hstep
      exact h.move ⟨trivial, trivial, hlocked,
        .inl ⟨rfl, hfresh, hsub.trans (le_antisymm hi hlen)⟩⟩
    · next hlen =>
      split at hstep
      · next hdone => exact absurd (hfresh.done.symm.trans hdone.2) Bool.false_ne_true
      · obtain ⟨⟨m', l'⟩, ha, rfl⟩ := Option.map_eq_some_iff.1 hstep
        refine h.act (knows_of_submits hsubmits) ha ?_
        rcases submitting_act hfits (not_le.1 hlen) ha with ⟨rfl, hnext⟩ | ⟨hne, hon⟩
        · rw [if_pos rfl]
          exact hnext
        · rw [if_neg hne]
          exact hon
  · next k hc =>
    rw [hc] at hfits
    obtain ⟨-, -, hlocked, hcase⟩ := hfits
    cases hstep
    have hjoining := hcase.resolve_left fun hstart => by cases hstart.1
    exact h.move ⟨trivial, trivial, hlocked, fun t ht => hjoining.executed ht⟩
  · next stage hstage hc =>
    rw [hc] at hfits
    obtain ⟨hknows, hjoins, hlocked, hcase⟩ := hfits
    obtain ⟨⟨m', l'⟩, ha, rfl⟩ := Option.map_eq_some_iff.1 hstep
    obtain ⟨hjoins', hlocked'⟩ := act_joins hu hjoins hlocked ha
    have hjoining := joining_of_step hu hknows hcase ha
    exact h.act hknows ha ⟨(act_sound h.sound hknows ha).2.1, hjoins', hlocked', .inr hjoining⟩
  · next k hc =>
    rw [hc] at hfits
    cases hstep
    exact h.move hfits.2.2.2
  · next stage hstage hc =>
    rw [hc] at hfits
    obtain ⟨hknows, hjoins, hlocked, hall⟩ := hfits
    split at hstep
    · cases hstep
      exact h.move hall
    · obtain ⟨⟨m', l'⟩, ha, rfl⟩ := Option.map_eq_some_iff.1 hstep
      obtain ⟨hjoins', hlocked'⟩ := act_joins hu hjoins hlocked ha
      obtain ⟨-, hknows', hrely⟩ := act_sound h.sound hknows ha
      exact h.act hknows ha ⟨hknows', hjoins', hlocked', fun t ht => hrely.executed t (hall t ht)⟩
  · cases hstep
  · cases hstep

/-- A worker in a task calls the function.

**Proof sketch.** Only the task that is being executed changes. What it has called and what it has
yet to call are the same calls together as before. -/
lemma VoidCoherent.invoke {s : VoidLoop} (h : VoidCoherent p throws tasks s) {t ix : ℕ}
    {ixs : List ℕ} (hrest : s.rest t = ix :: ixs) :
    VoidCoherent p throws tasks (invoke throws s t ix ixs) := by
  have ht : t < tasks.length := by
    by_contra hlen
    rw [h.beyond t (not_lt.1 hlen)] at hrest
    cases hrest
  refine ⟨h.sound, fun u hu => ?_, fun u hu => ?_, fun jx => ?_, h.fits⟩
  · have hne : u ≠ t := by
      rintro rfl
      rw [h.finished u hu] at hrest
      cases hrest
    exact (Function.update_of_ne hne ..).trans (h.finished u hu)
  · have hne : u ≠ t := (ht.trans_le hu).ne'
    exact (Function.update_of_ne hne ..).trans (h.beyond u hu)
  · have hsum := sum_update (fun _ l => (calls throws l).count jx) s.rest ht
      (if throws ix then [] else ixs)
    have hcount := h.counted jx
    rw [hrest, calls_cons, List.count_cons] at hsum
    simp only [Algorithm.invoke, List.count_cons]
    omega

/-- A step of a worker that does not call the function. -/
lemma VoidCoherent.work {s : VoidLoop} (h : VoidCoherent p throws tasks s) {m' : Memory} {i : ℕ}
    (hw : work p s.memory i = some m')
    (hrun : ∀ t, s.memory.worker i = .running t → s.rest t = []) :
    VoidCoherent p throws tasks { s with memory := m' } := by
  refine ⟨(work_sound h.sound hw).1, fun t ht => ?_, h.beyond, h.counted, h.fits.work h.sound hw⟩
  cases works_of_work hw with
  | @execute u hi hold =>
    rcases List.mem_append.1 ht with ht | ht
    · exact h.finished t ht
    · obtain rfl := List.mem_singleton.1 ht
      exact hrun _ hold
  | _ => exact h.finished t ht

/-- A step of a worker keeps what holds of the loop. The worker calls the function for the next
index of its task, or ends the task, or does what the pool does with it. -/
lemma stepVoidWorker_coherent {s t : VoidLoop} {i : ℕ} (h : VoidCoherent p throws tasks s)
    (hstep : stepVoidWorker p throws s i = some t) : VoidCoherent p throws tasks t := by
  simp only [stepVoidWorker] at hstep
  split at hstep
  · next u hrun =>
    split at hstep
    · next ix ixs hrest =>
      obtain ⟨-, h'⟩ := Option.ite_none_left_eq_some.1 hstep
      cases h'
      exact h.invoke hrest
    · next hrest =>
      obtain ⟨m', hw, rfl⟩ := Option.map_eq_some_iff.1 hstep
      refine h.work hw fun v hv => ?_
      obtain rfl : u = v := Worker.running.inj (hrun.symm.trans hv)
      exact hrest
  · next hrun =>
    obtain ⟨m', hw, rfl⟩ := Option.map_eq_some_iff.1 hstep
    exact h.work hw fun v hv => absurd hv (hrun v)

/-- **One step keeps what holds of a call.** -/
theorem stepVoid_coherent {s t : VoidLoop} {e : Turn} (hu : p.untilEmpty = true)
    (h : VoidCoherent p throws tasks s) (hstep : stepVoid p throws tasks s e = some t) :
    VoidCoherent p throws tasks t := by
  cases e with
  | caller => exact stepVoidCaller_coherent hu h hstep
  | worker i => exact stepVoidWorker_coherent h hstep

/-! ## A call goes on and comes to its end -/

/-- A worker that can go on in the pool can go on in the call. -/
lemma exists_stepVoidWorker {s : VoidLoop} {i : ℕ} {m' : Memory}
    (hw : work p s.memory i = some m') : ∃ t, stepVoidWorker p throws s i = some t := by
  have hi : ¬ p.workerNum ≤ i := by
    intro hle
    rw [work, if_pos hle] at hw
    cases hw
  simp only [stepVoidWorker, hw, if_neg hi]
  split
  · split <;> exact ⟨_, rfl⟩
  · exact ⟨_, rfl⟩

/-- **A call that has not returned can go on.**

**Proof sketch.** By cases on the caller, as for the loops with results: a call of `submit` or
`join` can go on, or a worker can. -/
theorem exists_stepVoid {s : VoidLoop} (h : VoidCoherent p throws tasks s)
    (hres : s.result = none) : ∃ e t, stepVoid p throws tasks s e = some t := by
  have hworker : (∃ i m', work p s.memory i = some m') →
      ∃ e t, stepVoid p throws tasks s e = some t := fun ⟨i, _, hw⟩ =>
    ⟨.worker i, exists_stepVoidWorker hw⟩
  have hcaller : (∃ t, stepVoidCaller p tasks s = some t) →
      ∃ e t, stepVoid p throws tasks s e = some t := fun ⟨t, ht⟩ => ⟨.caller, t, ht⟩
  have hfits := h.fits
  cases hc : s.caller with
  | thrown =>
    rw [hc] at hfits
    exact hfits.elim
  | returned => simp [VoidLoop.result, hc] at hres
  | submitting i stage =>
    rw [hc] at hfits
    obtain ⟨r, hr⟩ := exists_act_submits (m := s.memory) hfits.2.2.2.1 hfits.2.2.2.2
    refine hcaller ?_
    rw [stepVoidCaller, hc]
    dsimp only
    rw [hr]
    split
    · exact ⟨_, rfl⟩
    · split <;> exact ⟨_, rfl⟩
  | joining stage =>
    rw [hc] at hfits
    obtain ⟨hknows, hjoins, hlocked, -⟩ := hfits
    rcases joins_cases hknows hjoins hlocked with ⟨k, rfl⟩ | ⟨hret, r, hr⟩ | hw
    · refine hcaller ⟨{ s with caller := .closing .start }, ?_⟩
      rw [stepVoidCaller, hc]
    · refine hcaller ⟨{ s with memory := r.1, caller := .joining r.2 }, ?_⟩
      rw [stepVoidCaller, hc]
      cases stage with
      | returned k => exact absurd rfl (hret k)
      | _ => exact congrArg (Option.map _) hr
    · exact hworker hw
  | closing stage =>
    rw [hc] at hfits
    obtain ⟨hknows, hjoins, hlocked, -⟩ := hfits
    rcases joins_cases hknows hjoins hlocked with ⟨k, rfl⟩ | ⟨hret, r, hr⟩ | hw
    · refine hcaller ⟨{ s with caller := .returned }, ?_⟩
      rw [stepVoidCaller, hc]
    · refine hcaller ?_
      have hstep : stepVoidCaller p tasks s =
          if stage = .start ∧ s.memory.done = true then some { s with caller := .returned }
          else
            (act p s.memory stage (if stage = .start then .join else .go)).map fun r =>
              { s with memory := r.1, caller := .closing r.2 } := by
        rw [stepVoidCaller, hc]
        cases stage with
        | returned k => exact absurd rfl (hret k)
        | _ => rfl
      rw [hstep, hr]
      split <;> exact ⟨_, rfl⟩
    · exact hworker hw

/-- How many steps are left, where a submission counts what its task takes. -/
def VoidLoop.measure (p : Pool) (tasks : List (List ℕ)) (s : VoidLoop) : ℕ :=
  load p s.memory + (∑ t ∈ Finset.range tasks.length, (s.rest t).length) +
    match s.caller with
    | .submitting i stage =>
      (tasks.length - i) * (11 * p.workerNum + 11) + rank p stage + (22 * p.workerNum + 23)
    | .joining stage => rank p stage + (11 * p.workerNum + 12)
    | .closing stage => rank p stage + 1
    | .thrown | .returned => 0

/-- A step of the caller.

**Proof sketch.** The tasks that are still to be submitted and the rank of the call under way fall
with each step of the caller, by more than it adds to the load. -/
lemma stepVoidCaller_measure_lt {s t : VoidLoop} (h : VoidCoherent p throws tasks s)
    (hstep : stepVoidCaller p tasks s = some t) : t.measure p tasks < s.measure p tasks := by
  have hfits := h.fits
  rw [stepVoidCaller] at hstep
  split at hstep
  · next i stage hc =>
    rw [hc] at hfits
    obtain ⟨⟨hfresh, hlocked⟩, hsub, hi, hsubmits, hret⟩ := hfits
    split at hstep
    · next hlen =>
      cases hstep
      simp only [VoidLoop.measure, hc, rank]
      omega
    · next hlen =>
      split at hstep
      · cases hstep
        simp only [VoidLoop.measure, hc]
        omega
      · obtain ⟨⟨m', l'⟩, ha, rfl⟩ := Option.map_eq_some_iff.1 hstep
        have hleft := submits_left_lt hfresh hsubmits hret (not_le.1 hlen) ha
        simp only [VoidLoop.measure, hc]
        split at hleft
        · next hreturned =>
          simp only [if_pos hreturned]
          omega
        · next hnot =>
          simp only [if_neg hnot]
          omega
  · next k hc =>
    cases hstep
    simp only [VoidLoop.measure, hc, rank]
    omega
  · next stage hstage hc =>
    rw [hc] at hfits
    obtain ⟨⟨m', l'⟩, ha, rfl⟩ := Option.map_eq_some_iff.1 hstep
    have hrank := rank_joins_lt hfits.2.1 ha
    simp only [VoidLoop.measure, hc]
    omega
  · next k hc =>
    cases hstep
    simp only [VoidLoop.measure, hc]
    omega
  · next stage hstage hc =>
    rw [hc] at hfits
    split at hstep
    · cases hstep
      simp only [VoidLoop.measure, hc]
      omega
    · obtain ⟨⟨m', l'⟩, ha, rfl⟩ := Option.map_eq_some_iff.1 hstep
      have hrank := rank_joins_lt hfits.2.1 ha
      simp only [VoidLoop.measure, hc]
      omega
  · cases hstep
  · cases hstep

/-- A worker in a task calls the function. -/
lemma invoke_measure_lt {s : VoidLoop} (h : VoidCoherent p throws tasks s) {t ix : ℕ}
    {ixs : List ℕ} (hrest : s.rest t = ix :: ixs) :
    (invoke throws s t ix ixs).measure p tasks < s.measure p tasks := by
  have ht : t < tasks.length := by
    by_contra hlen
    rw [h.beyond t (not_lt.1 hlen)] at hrest
    cases hrest
  have hsum := sum_update (fun _ l => List.length l) s.rest ht (if throws ix then [] else ixs)
  have hlength : (if throws ix then [] else ixs).length ≤ ixs.length := by
    split
    · exact Nat.zero_le _
    · exact le_rfl
  rw [hrest, List.length_cons] at hsum
  simp only [VoidLoop.measure, invoke]
  omega

/-- **One step leaves less to do.**

**Proof sketch.** One case for each turn: the caller has a lemma of its own, and a worker calls the
function for an index that is left, or takes a step of the pool. -/
theorem stepVoid_measure_lt {s t : VoidLoop} {e : Turn} (h : VoidCoherent p throws tasks s)
    (hstep : stepVoid p throws tasks s e = some t) : t.measure p tasks < s.measure p tasks := by
  have hwork : ∀ {i m'}, work p s.memory i = some m' →
      VoidLoop.measure p tasks { s with memory := m' } < s.measure p tasks := by
    intro i m' hw
    exact Nat.add_lt_add_right (Nat.add_lt_add_right (load_work_lt hw) _) _
  cases e with
  | caller => exact stepVoidCaller_measure_lt h hstep
  | worker i =>
    simp only [stepVoid, stepVoidWorker] at hstep
    split at hstep
    · split at hstep
      · next hrest =>
        obtain ⟨-, h'⟩ := Option.ite_none_left_eq_some.1 hstep
        cases h'
        exact invoke_measure_lt h hrest
      · obtain ⟨m', hw, rfl⟩ := Option.map_eq_some_iff.1 hstep
        exact hwork hw
    · obtain ⟨m', hw, rfl⟩ := Option.map_eq_some_iff.1 hstep
      exact hwork hw

/-! ## What a call that returns has done -/

/-- At first nothing was submitted. -/
lemma voidCoherent_init (p : Pool) (throws : ℕ → Bool) (tasks : List (List ℕ)) :
    VoidCoherent p throws tasks (voidLoop p throws tasks).init := by
  refine ⟨sound_init, nofun, fun t ht => ?_, fun ix => ?_, ?_⟩
  · simp [voidLoop, List.getD, List.getElem?_eq_none ht]
  · exact Nat.zero_add _
  · rw [voidLoop]
    cases tasks with
    | nil => exact fun t ht => absurd ht (Nat.not_lt_zero t)
    | cons task tasks =>
      refine ⟨⟨⟨rfl, fun _ _ => rfl, fun _ => List.not_mem_nil, ?_⟩, rfl⟩, rfl, Nat.zero_le _,
        trivial, nofun⟩
      exact fun t ht => absurd ht (Nat.not_lt_zero t)

/-- What holds of a call holds after every schedule. -/
lemma voidCoherent_of_run (hu : p.untilEmpty = true) {s : VoidLoop} {es : List Turn}
    (hrun : (voidLoop p throws tasks).run es = some s) : VoidCoherent p throws tasks s :=
  System.run_invariant (voidCoherent_init p throws tasks)
    (fun _ _ _ h hstep => stepVoid_coherent hu h hstep) hrun

/-- **Every schedule returns**, whatever the function throws. -/
theorem voidLoop_returns (hu : p.untilEmpty = true) (throws : ℕ → Bool) (tasks : List (List ℕ)) :
    (voidLoop p throws tasks).Returns VoidLoop.result () :=
  System.returns_of_measure (voidCoherent_init p throws tasks)
    (fun _ _ _ h hstep => ⟨stepVoid_coherent hu h hstep, stepVoid_measure_lt h hstep⟩)
    (fun _ h => exists_stepVoid h) fun _ _ _ _ => rfl

/-- A sum over the tasks. -/
lemma sum_getD (g : List ℕ → ℕ) (tasks : List (List ℕ)) :
    ∑ t ∈ Finset.range tasks.length, g (tasks.getD t []) = (tasks.map g).sum := by
  induction tasks with
  | nil => rfl
  | cons task tasks ih =>
    rw [List.length_cons, Finset.sum_range_succ', List.map_cons, List.sum_cons, ← ih, Nat.add_comm]
    rfl

/-- **What was called** when a call has returned: for each task all indices up to the first one
that throws.

**Proof sketch.** Each task was executed once, since the pool runs until it is empty, and a task
that was executed has called its indices up to the first one that throws. -/
theorem voidLoop_invoked (hu : p.untilEmpty = true) {s : VoidLoop} {es : List Turn}
    (hrun : (voidLoop p throws tasks).run es = some s) (hres : s.result = some ()) (ix : ℕ) :
    s.invoked.count ix = (tasks.flatMap (calls throws)).count ix := by
  have h := voidCoherent_of_run hu hrun
  have hfits := h.fits
  rw [VoidLoop.result] at hres
  split at hres
  · next hc =>
    rw [hc] at hfits
    have hnone : ∑ t ∈ Finset.range tasks.length, (calls throws (s.rest t)).count ix = 0 := by
      apply Finset.sum_eq_zero
      intro t ht
      rw [h.finished t (hfits t (Finset.mem_range.1 ht))]
      rfl
    have hcount := h.counted ix
    rw [hnone, Nat.add_zero, sum_getD fun l => (calls throws l).count ix] at hcount
    rw [hcount, List.count_flatMap]
    rfl
  · cases hres

/-- A call that returns reports its failures exactly if there are none.

**Proof sketch.** A call reports nothing at all, so it is right exactly if no invocation throws. An
index that throws is in one of the tasks, and the first one of this task that throws is invoked. -/
lemma reported_iff {start stop : ℕ} (hflat : tasks.flatten = indices start stop) {s : VoidLoop}
    (hcount : ∀ ix, s.invoked.count ix = (tasks.flatMap (calls throws)).count ix) :
    Reported throws start stop s ↔ ∀ ix, start ≤ ix → ix < stop → throws ix = false := by
  have hmem : ∀ ix, ix ∈ tasks.flatten ↔ start ≤ ix ∧ ix < stop := by
    intro ix
    rw [hflat, indices, List.mem_range'_1]
    omega
  have hinvoked : ∀ ix, ix ∈ s.invoked ↔ ix ∈ tasks.flatMap (calls throws) := by
    intro ix
    rw [← List.count_pos_iff, hcount, List.count_pos_iff]
  constructor
  · intro h ix hstart hstop
    by_contra hthrows
    obtain ⟨task, htask, hix⟩ := List.mem_flatten.1 ((hmem ix).2 ⟨hstart, hstop⟩)
    obtain ⟨jx, hjx, hjthrows⟩ :=
      exists_mem_calls ⟨ix, hix, Bool.not_eq_false _ ▸ hthrows⟩
    have hcalled := (hinvoked jx).2 (List.mem_flatMap.2 ⟨task, htask, hjx⟩)
    rw [h.quiet jx hcalled] at hjthrows
    cases hjthrows
  · intro h
    have hcalls : tasks.flatMap (calls throws) = indices start stop := by
      rw [← hflat, List.flatMap_def]
      congr 1
      refine (List.map_congr_left fun task htask => ?_).trans (List.map_id _)
      refine calls_eq fun ix hix => ?_
      obtain ⟨hstart, hstop⟩ := (hmem ix).1 (List.mem_flatten.2 ⟨task, htask, hix⟩)
      exact h ix hstart hstop
    refine ⟨fun ix hstart hstop => ?_, fun ix hix => ?_⟩
    · rw [hcount, hcalls]
      refine List.count_eq_one_of_mem List.nodup_range' ?_
      rw [← hflat]
      exact (hmem ix).2 ⟨hstart, hstop⟩
    · rw [hinvoked, hcalls, ← hflat, hmem] at hix
      exact h ix hix.1 hix.2

/-- The tasks of `parallel_for_index_void` have the indices of the range. -/
lemma flatten_ranges {start stop : ℕ} (hstop : stop < 2 ^ 64) (hardware cpuNum : ℕ) :
    ((parallelIndexRange hardware start stop cpuNum).map fun r => indices r.1 r.2).flatten =
      indices start stop := by
  rcases le_or_gt stop start with hle | hlt
  · rw [parallelIndexRange_nil hle, indices, Nat.sub_eq_zero_of_le hle]
    rfl
  · rw [← (splits_parallelIndexRange hlt hstop hardware cpuNum).flatMap_indices, List.flatMap_def]

/-- So have those of `parallel_for_index_void_single`. -/
lemma flatten_singles (start stop : ℕ) :
    ((indices start stop).map fun i => [i]).flatten = indices start stop := by
  rw [← List.flatMap_def, List.flatMap_singleton']

/-- **When a loop without results reports its failures.** For both functions, both classes of pools
and every number of workers, every schedule of a call returns normally, whatever the function
throws; and a call that returns has called the function exactly once for every index and without an
exception if and only if the function throws for no index of the range.

**Proof sketch.** `VoidCoherent` accounts for the calls: what was called and what the tasks have
still to call is together what the tasks call. When the call has returned its pool has executed all
tasks. A task whose function throws calls it for the index for which it throws. -/
theorem void_loops_report {hardware : ℕ} (hhw : 1 ≤ hardware) {start stop : ℕ}
    (hstop : stop < 2 ^ 64) (cpuNum : ℕ) (kind : ThreadPool.Kind) (throws : ℕ → Bool) :
    ∀ loop ∈ [parallelForIndexVoid kind hhw throws start stop cpuNum,
        parallelForIndexVoidSingle kind hhw throws start stop cpuNum],
      loop.Returns VoidLoop.result () ∧
        ∀ es s, loop.run es = some s → s.result = some () →
          (Reported throws start stop s ↔
            ∀ ix, start ≤ ix → ix < stop → throws ix = false) := by
  have hloop : ∀ tasks : List (List ℕ), tasks.flatten = indices start stop →
      (voidLoop (taskGroup kind hhw cpuNum) throws tasks).Returns VoidLoop.result () ∧
        ∀ es s, (voidLoop (taskGroup kind hhw cpuNum) throws tasks).run es = some s →
          s.result = some () → (Reported throws start stop s ↔
            ∀ ix, start ≤ ix → ix < stop → throws ix = false) := fun tasks hflat =>
    ⟨voidLoop_returns rfl throws tasks, fun _ _ hrun hres =>
      reported_iff hflat (voidLoop_invoked rfl hrun hres)⟩
  exact List.forall_mem_cons.2 ⟨hloop _ (flatten_ranges hstop hardware cpuNum),
    List.forall_mem_singleton.2 (hloop _ (flatten_singles start stop))⟩

/-- A schedule of one task for one worker, which calls the function so often. -/
def oneTask (count : ℕ) : List Turn :=
  List.replicate 10 .caller ++ List.replicate (5 + count) (.worker 0) ++ List.replicate 7 .caller

/-- A call for two indices for which nothing is thrown. -/
theorem void_loops_report_two :
    ∃ s, (parallelForIndexVoid .central (show 1 ≤ 4 by decide) (fun _ => false) 0 2 1).run
        (oneTask 2) = some s ∧
      s.result = some () ∧ s.invoked = [1, 0] ∧ Reported (fun _ => false) 0 2 s := by
  obtain ⟨s, hrun, hres, hinvoked⟩ : ∃ s,
      (parallelForIndexVoid .central (show 1 ≤ 4 by decide) (fun _ => false) 0 2 1).run
        (oneTask 2) = some s ∧ s.result = some () ∧ s.invoked = [1, 0] := ⟨_, rfl, rfl, rfl⟩
  have h := (void_loops_report (show 1 ≤ 4 by decide) (show 2 < 2 ^ 64 by decide) 1 .central
    (fun _ => false) _ List.mem_cons_self).2 (oneTask 2) s hrun hres
  exact ⟨s, hrun, hres, hinvoked, h.2 fun _ _ _ => rfl⟩

/-- **A failure is not reported**: the function throws for the first of two indices, the second is
left out, and the loop returns. -/
theorem void_loop_hides :
    ∃ s, (parallelForIndexVoid .central (show 1 ≤ 4 by decide) (fun ix => ix == 0) 0 2 1).run
        (oneTask 1) = some s ∧
      s.result = some () ∧ s.invoked = [0] ∧ ¬ Reported (fun ix => ix == 0) 0 2 s := by
  refine ⟨_, rfl, rfl, rfl, fun h => ?_⟩
  have honce := h.once 1 (by decide) (by decide)
  exact absurd honce (by decide)

end HkuUtils.Algorithm
