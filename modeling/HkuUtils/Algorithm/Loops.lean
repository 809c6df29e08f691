import HkuUtils.Algorithm.Ranges
import HkuUtils.ThreadPool.Tasks

set_option relaxedAutoImplicit false
set_option autoImplicit false

/-!
# Parallel loops

`parallel_for_index`, `parallel_for_range` and `parallel_for_index_single` submit one task for each
range or index to a pool of their own, take the results in the order of submission, and end the
pool. Whatever the schedule is, they return what a sequential loop returns.

## Main definitions

* `HkuUtils.Algorithm.Loop`, `parallelLoop` — a call of one of the functions with its pool.
* `HkuUtils.Algorithm.parallelForIndex`, `parallelForRange`, `parallelForIndexSingle` — the three
  functions.
* `HkuUtils.Algorithm.Coherent` — what holds of a call.
* `HkuUtils.Algorithm.Loop.measure` — how many steps are left.

## Main results

* `HkuUtils.Algorithm.step_coherent`, `step_measure_lt` — one step.
* `HkuUtils.Algorithm.exists_step` — a call that has not returned can go on.
* `HkuUtils.Algorithm.parallel_loops` — every schedule ends with the sequential results.

## Design

* The pool is the one of `ThreadPool.Model`. A task is executed in one step, since the function is
  pure; the step sets its future.
* `std::thread::hardware_concurrency()` is a parameter.
-/

namespace HkuUtils.Algorithm

open Threads Transition ThreadPool

variable {β : Type}

/-! ## A call -/

/-- Where the thread is that calls the function. It submits a task for each range, collects the
results in the order of the ranges, and leaves the function through the destructor of its pool. -/
inductive Caller (β : Type) where
  /-- In the loop over the ranges, with range `i` in `submit`. -/
  | submitting (i : ℕ) (stage : Stage)
  /-- `submit` has thrown. -/
  | thrown
  /-- In the loop over the futures, before `get` of future `i`. -/
  | collecting (i : ℕ) (ret : List β)
  /-- In the destructor of the pool. -/
  | closing (ret : List β) (stage : Stage)
  | returned (ret : List β)

/-- A call, its pool and the futures of its tasks. -/
structure Loop (β : Type) where
  memory : Memory
  /-- The values of the futures that are ready. The tasks are numbered in the order in which they
  were submitted. -/
  future : ℕ → Option (List β)
  caller : Caller β

/-- Who takes the next step. -/
inductive Turn where
  | caller
  | worker (i : ℕ)

/-- The next step of the caller.

The calls of `submit` and of `join` are taken from the model of the pool, stage by stage, so that
the workers may come in between. -/
def stepCaller (p : Pool) (tasks : List (List β)) (s : Loop β) : Option (Loop β) :=
  match s.caller with
  | .submitting i stage =>
    if tasks.length ≤ i then some { s with caller := .collecting 0 [] }
    else if stage = .submit ∧ s.memory.done = true then some { s with caller := .thrown }
    else
      (act p s.memory stage (if stage = .start then .submit else .go)).map fun r =>
        { s with
          memory := r.1
          caller := if r.2 = .returned 0 then .submitting (i + 1) .start else .submitting i r.2 }
  | .collecting i ret =>
    if tasks.length ≤ i then some { s with caller := .closing ret .start }
    else (s.future i).map fun one => { s with caller := .collecting (i + 1) (ret ++ one) }
  | .closing ret (.returned _) => some { s with caller := .returned ret }
  | .closing ret stage =>
    if stage = .start ∧ s.memory.done = true then some { s with caller := .returned ret }
    else
      (act p s.memory stage (if stage = .start then .join else .go)).map fun r =>
        { s with memory := r.1, caller := .closing ret r.2 }
  | .thrown => none
  | .returned _ => none

/-- The next step of a worker. A task that ends sets its future. -/
def stepWorker (p : Pool) (tasks : List (List β)) (s : Loop β) (i : ℕ) : Option (Loop β) :=
  (work p s.memory i).map fun m =>
    { s with
      memory := m
      future :=
        match s.memory.worker i with
        | .running t => Function.update s.future t tasks[t]?
        | _ => s.future }

/-- A step of a call. -/
def stepLoop (p : Pool) (tasks : List (List β)) (s : Loop β) : Turn → Option (Loop β)
  | .caller => stepCaller p tasks s
  | .worker i => stepWorker p tasks s i

/-- A call with the values that its tasks compute. Without a task it returns at once. -/
def parallelLoop (p : Pool) (tasks : List (List β)) : System (Loop β) Turn where
  init := ⟨Memory.init, fun _ => none,
    if tasks.isEmpty then .returned [] else .submitting 0 .start⟩
  step := stepLoop p tasks

/-- What a call has returned. -/
def Loop.result (s : Loop β) : Option (List β) :=
  match s.caller with
  | .returned ret => some ret
  | _ => none

/-! ## The functions -/

/-- `TaskGroup tg(cpu_num == 0 ? std::thread::hardware_concurrency() : cpu_num)`. -/
def taskGroup (kind : ThreadPool.Kind) {hardware : ℕ} (hhw : 1 ≤ hardware) (cpuNum : ℕ) : Pool where
  kind := kind
  workerNum := if cpuNum = 0 then hardware else cpuNum
  untilEmpty := true
  workerNum_pos := by
    split
    · exact hhw
    · next hne => exact Nat.pos_of_ne_zero hne

section Functions

variable (kind : ThreadPool.Kind) {hardware : ℕ} (hhw : 1 ≤ hardware)

/-- `parallel_for_index`. -/
def parallelForIndex (f : ℕ → β) (start stop cpuNum : ℕ) : System (Loop β) Turn :=
  parallelLoop (taskGroup kind hhw cpuNum)
    ((parallelIndexRange hardware start stop cpuNum).map fun r => (indices r.1 r.2).map f)

/-- `parallel_for_range`. -/
def parallelForRange (f : ℕ × ℕ → List β) (start stop cpuNum : ℕ) : System (Loop β) Turn :=
  parallelLoop (taskGroup kind hhw cpuNum)
    ((parallelIndexRange hardware start stop cpuNum).map f)

/-- `parallel_for_index_single`. -/
def parallelForIndexSingle (f : ℕ → β) (start stop cpuNum : ℕ) : System (Loop β) Turn :=
  parallelLoop (taskGroup kind hhw cpuNum) ((indices start stop).map fun i => [f i])

end Functions

/-! ## What holds of a call -/

variable {p : Pool} {tasks : List (List β)} {m : Memory}

/-- The stages of a call of `join` on a pool that runs until it is empty. -/
def Joins : Stage → Prop
  | .start | .join _ | .returned _ => True
  | .fill how _ | .lock how | .await how _ | .finish how _ => how ≠ .stop
  | _ => False

/-- The call has locked `m_mutex_join`. -/
def isAwait : Stage → Bool
  | .await .. => true
  | _ => false

/-- What the caller has done so far. While it submits, the pool is fresh and has as many tasks as
ranges were passed; what it has collected are the results of the first ranges. -/
def Caller.Fits (p : Pool) (tasks : List (List β)) (m : Memory) : Caller β → Prop
  | .submitting i stage =>
    (Fresh p m ∧ m.locked = false) ∧ m.submitted = i ∧ i ≤ tasks.length ∧ Submits p stage ∧
      ∀ k, stage ≠ .returned k
  | .thrown => False
  | .collecting i ret =>
    (Fresh p m ∧ m.locked = false) ∧ m.submitted = tasks.length ∧ i ≤ tasks.length ∧
      ret = (tasks.take i).flatten
  | .closing ret stage =>
    ret = tasks.flatten ∧ Knows p m stage ∧ Joins stage ∧ m.locked = isAwait stage
  | .returned ret => ret = tasks.flatten

/-- What holds of a call. -/
structure Coherent (p : Pool) (tasks : List (List β)) (s : Loop β) : Prop where
  sound : Sound p s.memory
  ready : ∀ t ∈ s.memory.executed, s.future t = tasks[t]?
  values : ∀ t v, s.future t = some v → tasks[t]? = some v
  fits : s.caller.Fits p tasks s.memory

/-- The futures that are taken in order. -/
lemma take_succ_flatten {i : ℕ} {one : List β} (h : tasks[i]? = some one) :
    (tasks.take (i + 1)).flatten = (tasks.take i).flatten ++ one := by
  rw [List.take_add_one, h]
  simp

/-- A step of `join` in the destructor.

**Proof sketch.** One case for each step of a call. Those of `submit` and `stop` are not taken in
the destructor, and of the others each goes on to the next stage of `join`. -/
lemma act_joins {m' : Memory} {l l' : Stage} (hu : p.untilEmpty = true) (hl : Joins l)
    (hlock : m.locked = isAwait l)
    (ha : act p m l (if l = .start then .join else .go) = some (m', l')) :
    Joins l' ∧ m'.locked = isAwait l' := by
  generalize haction : (if l = .start then Action.join else .go) = a at ha
  cases acts_of_act ha with
  | callSubmit | callStop => simp at haction
  | callJoin => exact ⟨trivial, hlock⟩
  | search hs _ =>
    cases l <;> first | exact absurd hs Bool.false_ne_true | exact hl.elim
  | push q | stopAgain _ | stop _ | mark k => exact hl.elim
  | joinAgain _ k => exact ⟨trivial, hlock⟩
  | join _ _ k => exact ⟨nofun, hlock⟩
  | hurry hnot k => exact absurd (hnot.symm.trans hu) Bool.false_ne_true
  | fill how x todo => exact ⟨hl, by cases x <;> exact hlock⟩
  | filled how => exact ⟨hl, hlock⟩
  | lock how => exact ⟨hl, rfl⟩
  | skip how _ => exact ⟨hl, hlock⟩
  | await how _ => exact ⟨hl, hlock⟩
  | awaited how _ => exact ⟨hl, rfl⟩
  | finish how x todo => exact ⟨hl, by cases x <;> exact hlock⟩
  | finished how => exact ⟨trivial, hlock⟩

/-- A step of `submit`: it goes on, or it has pushed its task.

**Proof sketch.** One case for each stage of `submit`. Only the last one pushes the task, and it
returns; all others go on and leave the memory as it is, since nobody has stopped the pool. -/
lemma act_submits {m' : Memory} {l l' : Stage} (hfresh : Fresh p m) (hl : Submits p l)
    (hret : ∀ k, l ≠ .returned k)
    (ha : act p m l (if l = .start then .submit else .go) = some (m', l')) :
    Fresh p m' ∧ Submits p l' ∧ m'.locked = m.locked ∧
      (l' = .returned 0 ∧ m'.submitted = m.submitted + 1 ∨
        (∀ k, l' ≠ .returned k) ∧ m'.submitted = m.submitted) := by
  obtain ⟨hfresh', hl'⟩ := act_fresh hfresh hl (by split <;> simp) (by split <;> simp) ha
  refine ⟨hfresh', hl', ?_⟩
  cases l with
  | start =>
    cases ha
    exact ⟨rfl, .inr ⟨nofun, rfl⟩⟩
  | submit =>
    rw [if_neg (by simp), act, hfresh.done] at ha
    cases ha
    refine ⟨rfl, .inr ⟨fun k => ?_, rfl⟩⟩
    cases p.kind <;> simp
  | scan i index minCount =>
    cases ha
    refine ⟨rfl, .inr ⟨fun k hk => ?_, rfl⟩⟩
    have hsubmit := isSubmit_scan p m i index minCount
    rw [hk] at hsubmit
    exact Bool.false_ne_true hsubmit
  | size i index minCount =>
    cases ha
    refine ⟨rfl, .inr ⟨fun k hk => ?_, rfl⟩⟩
    have hsubmit := isSubmit_size m i index minCount
    rw [hk] at hsubmit
    exact Bool.false_ne_true hsubmit
  | push q =>
    cases ha
    exact ⟨rfl, .inl ⟨rfl, rfl⟩⟩
  | returned k => exact absurd rfl (hret k)
  | stop | join | mark | fill | lock | await | finish => exact hl.elim

/-- No call executes a task. -/
lemma act_executed {m' : Memory} {l l' : Stage} {a : Action} (ha : act p m l a = some (m', l')) :
    m'.executed = m.executed := by
  cases acts_of_act ha with
  | fill how x todo => cases x <;> rfl
  | finish how x todo => cases x <;> rfl
  | _ => rfl

/-- A call of `submit` knows nothing. -/
lemma knows_of_submits {l : Stage} (hl : Submits p l) : Knows p m l := by
  cases l <;> trivial

/-- A step of the caller in a call of `submit`, which returns and has submitted the next task, or
goes on. -/
lemma submitting_act {n i : ℕ} {stage l' : Stage} {m' : Memory}
    (h : (Fresh p m ∧ m.locked = false) ∧ m.submitted = i ∧ i ≤ n ∧ Submits p stage ∧
      ∀ k, stage ≠ .returned k) (hlt : i < n)
    (ha : act p m stage (if stage = .start then .submit else .go) = some (m', l')) :
    (l' = .returned 0 ∧ (Fresh p m' ∧ m'.locked = false) ∧ m'.submitted = i + 1 ∧ i + 1 ≤ n ∧
      Submits p .start ∧ ∀ k, Stage.start ≠ .returned k) ∨
    (l' ≠ .returned 0 ∧ (Fresh p m' ∧ m'.locked = false) ∧ m'.submitted = i ∧ i ≤ n ∧
      Submits p l' ∧ ∀ k, l' ≠ .returned k) := by
  obtain ⟨⟨hfresh, hlocked⟩, hsub, hi, hsubmits, hret⟩ := h
  obtain ⟨hfresh', hsubmits', hlocked', hcase⟩ := act_submits hfresh hsubmits hret ha
  have hfree := hlocked'.trans hlocked
  rcases hcase with ⟨hreturned, hsub'⟩ | ⟨hret', hsub'⟩
  · exact .inl ⟨hreturned, ⟨hfresh', hfree⟩, by rw [hsub', hsub], hlt, trivial, nofun⟩
  · exact .inr ⟨hret' 0, ⟨hfresh', hfree⟩, hsub'.trans hsub, hi, hsubmits', hret'⟩

/-- A step of a worker leaves what the caller has done. -/
lemma Caller.Fits.work {c : Caller β} {m' : Memory} {i : ℕ} (hsound : Sound p m)
    (h : c.Fits p tasks m) (hw : work p m i = some m') : c.Fits p tasks m' := by
  have hrely := (work_sound hsound hw).2
  have hlocked := work_locked hw
  have hsubmitted := (work_submitted hw).1
  cases c with
  | submitting i stage =>
    exact ⟨⟨work_fresh h.1.1 hw, hlocked.trans h.1.2⟩, hsubmitted.trans h.2.1, h.2.2⟩
  | thrown => exact h
  | collecting i ret =>
    exact ⟨⟨work_fresh h.1.1 hw, hlocked.trans h.1.2⟩, hsubmitted.trans h.2.1, h.2.2⟩
  | closing ret stage => exact ⟨h.1, hrely.knows h.2.1, h.2.2.1, hlocked.trans h.2.2.2⟩
  | returned ret => exact h

/-- A step of the caller that changes only its position. -/
lemma Coherent.move {s : Loop β} (h : Coherent p tasks s) {c : Caller β}
    (hfits : c.Fits p tasks s.memory) : Coherent p tasks { s with caller := c } :=
  ⟨h.sound, h.ready, h.values, hfits⟩

/-- A step of the caller in a function of the pool. -/
lemma Coherent.act {s : Loop β} (h : Coherent p tasks s) {m' : Memory} {l l' : Stage} {a : Action}
    (hl : Knows p s.memory l) (ha : act p s.memory l a = some (m', l')) {c : Caller β}
    (hfits : c.Fits p tasks m') : Coherent p tasks { s with memory := m', caller := c } := by
  refine ⟨(act_sound h.sound hl ha).1, ?_, h.values, hfits⟩
  rw [act_executed ha]
  exact h.ready

/-- A step of the caller.

**Proof sketch.** One case for each place of the caller: it submits the tasks one after the other,
calls `join`, and then reads the results in their order. `join` returns only when all workers have
exited, and these have executed everything. -/
lemma stepCaller_coherent {s t : Loop β} (hu : p.untilEmpty = true) (h : Coherent p tasks s)
    (hstep : stepCaller p tasks s = some t) : Coherent p tasks t := by
  have hfits := h.fits
  rw [stepCaller] at hstep
  split at hstep
  · next i stage hc =>
    rw [hc] at hfits
    have ⟨⟨hfresh, hlocked⟩, hsub, hi, hsubmits, _⟩ := hfits
    split at hstep
    · next hlen =>
      cases hstep
      exact h.move ⟨⟨hfresh, hlocked⟩, hsub.trans (le_antisymm hi hlen), Nat.zero_le _, rfl⟩
    · next hlen =>
      split at hstep
      · next hdone => exact absurd (hfresh.done.symm.trans hdone.2) Bool.false_ne_true
      · obtain ⟨⟨m', l'⟩, ha, rfl⟩ := Option.map_eq_some_iff.1 hstep
        refine h.act (knows_of_submits hsubmits) ha ?_
        rcases submitting_act hfits (not_le.1 hlen) ha with ⟨rfl, hnext⟩ | ⟨hne, hon⟩
        · rw [if_pos rfl]
          exact hnext
        · rw [if_neg hne]
          exact hon
  · next i ret hc =>
    rw [hc] at hfits
    obtain ⟨⟨hfresh, hlocked⟩, hsub, hi, hret⟩ := hfits
    split at hstep
    · next hlen =>
      cases hstep
      refine h.move ⟨?_, trivial, trivial, hlocked⟩
      rw [hret, List.take_of_length_le hlen]
    · next hlen =>
      obtain ⟨one, hone, rfl⟩ := Option.map_eq_some_iff.1 hstep
      refine h.move ⟨⟨hfresh, hlocked⟩, hsub, not_le.1 hlen, ?_⟩
      rw [take_succ_flatten (h.values i one hone), hret]
  · next ret k hc =>
    rw [hc] at hfits
    cases hstep
    exact h.move hfits.1
  · next ret stage _ hc =>
    rw [hc] at hfits
    obtain ⟨hret, hknows, hjoins, hlocked⟩ := hfits
    split at hstep
    · cases hstep
      exact h.move hret
    · obtain ⟨⟨m', l'⟩, ha, rfl⟩ := Option.map_eq_some_iff.1 hstep
      obtain ⟨hjoins', hlocked'⟩ := act_joins hu hjoins hlocked ha
      exact h.act hknows ha ⟨hret, (act_sound h.sound hknows ha).2.1, hjoins', hlocked'⟩
  · cases hstep
  · cases hstep

/-- A step of a worker.

**Proof sketch.** A worker that executes a task makes its result ready, and all other steps leave
the results. What the caller knows holds whatever a worker does. -/
lemma stepWorker_coherent {s t : Loop β} {i : ℕ} (h : Coherent p tasks s)
    (hstep : stepWorker p tasks s i = some t) : Coherent p tasks t := by
  obtain ⟨m', hw, rfl⟩ := Option.map_eq_some_iff.1 hstep
  refine ⟨(work_sound h.sound hw).1, ?_, ?_, h.fits.work h.sound hw⟩
  · intro t ht
    cases hrun : s.memory.worker i with
    | running u =>
      by_cases htu : t = u
      · rw [htu]
        exact Function.update_self ..
      · refine (Function.update_of_ne htu ..).trans (h.ready t ?_)
        cases works_of_work hw with
        | execute _ hold =>
          obtain rfl : u = _ := Worker.running.inj (hrun.symm.trans hold)
          exact (List.mem_append.1 ht).resolve_right (by simpa using htu)
        | _ => exact ht
    | _ =>
      refine h.ready t ?_
      cases works_of_work hw with
      | execute _ hold => simp [hrun] at hold
      | _ => exact ht
  · intro t v hv
    cases hrun : s.memory.worker i with
    | running u =>
      simp only [hrun] at hv
      by_cases htu : t = u
      · rwa [htu, Function.update_self, ← htu] at hv
      · rw [Function.update_of_ne htu] at hv
        exact h.values t v hv
    | _ =>
      simp only [hrun] at hv
      exact h.values t v hv

/-- **One step keeps what holds of a call.** -/
theorem step_coherent {s t : Loop β} {e : Turn} (hu : p.untilEmpty = true)
    (h : Coherent p tasks s) (hstep : stepLoop p tasks s e = some t) : Coherent p tasks t := by
  cases e with
  | caller => exact stepCaller_coherent hu h hstep
  | worker i => exact stepWorker_coherent h hstep

/-! ## A call goes on -/

/-- A worker can go on unless it has exited or waits at an empty queue. -/
lemma exists_work {i : ℕ} (hi : i < p.workerNum) (hne : m.worker i ≠ .exited)
    (hq : m.worker i = .waiting → m.queue (p.queueOf i) ≠ []) : ∃ m', work p m i = some m' := by
  rw [work, if_neg (not_le.2 hi)]
  cases hw : m.worker i with
  | exited => exact absurd hw hne
  | waiting =>
    cases hitems : m.queue (p.queueOf i) with
    | nil => exact absurd hitems (hq hw)
    | cons x rest => cases x <;> exact ⟨_, rfl⟩
  | _ => exact ⟨_, rfl⟩

/-- If a task is due and was not executed, some worker can go on. -/
lemma exists_work_of_due {t : ℕ} (hdue : Due p m t) (hnot : t ∉ m.executed) :
    ∃ i m', work p m i = some m' := by
  rcases (hdue.resolve_left hnot).2 with ⟨i, hi, hrun⟩ | ⟨q, hmem, hlive⟩
  · exact ⟨i, exists_work hi (by simp [hrun]) (by simp [hrun])⟩
  · have hpos : live p m q ≠ 0 := Nat.ne_of_gt (Nat.zero_lt_of_lt hlive)
    obtain ⟨i, hi, hne⟩ := Finset.exists_ne_zero_of_sum_ne_zero hpos
    obtain ⟨rfl, hworker⟩ : p.queueOf i = q ∧ (m.worker i).isLive = true := by
      by_contra hneg
      exact hne (if_neg hneg)
    refine ⟨i, exists_work (Finset.mem_range.1 hi) ?_ fun _ => List.ne_nil_of_mem hmem⟩
    intro hexited
    rw [hexited] at hworker
    exact Bool.false_ne_true hworker

/-- A call of `submit` can go on. -/
lemma exists_act_submits {l : Stage} (hl : Submits p l) (hret : ∀ k, l ≠ .returned k) :
    ∃ r, act p m l (if l = .start then .submit else .go) = some r := by
  cases l with
  | returned k => exact absurd rfl (hret k)
  | stop | join | mark | fill | lock | await | finish => exact hl.elim
  | _ => exact ⟨_, rfl⟩

/-- A call of `join` can go on, or it waits for a worker that can.

**Proof sketch.** Every stage of `join` goes on by itself but two: waiting for the lock, which
nobody else has, and waiting for a worker. A worker that has not exited can go on, or its queue
would be empty though it has a null task. -/
lemma exists_act_joins {l : Stage} (hknows : Knows p m l) (hl : Joins l)
    (hret : ∀ k, l ≠ .returned k) (hlock : m.locked = isAwait l) :
    (∃ r, act p m l (if l = .start then .join else .go) = some r) ∨
      ∃ i m', work p m i = some m' := by
  cases l with
  | returned k => exact absurd rfl (hret k)
  | submit | scan | size | push | stop | mark => exact hl.elim
  | start | join => exact .inl ⟨_, rfl⟩
  | fill how todo => cases todo <;> exact .inl ⟨_, rfl⟩
  | finish how todo => cases todo <;> exact .inl ⟨_, rfl⟩
  | lock how =>
    left
    rw [if_neg (by simp), act, hlock]
    exact ⟨_, rfl⟩
  | await how i =>
    rw [if_neg (by simp), act]
    split
    · exact .inl ⟨_, rfl⟩
    · next hi =>
      split
      · exact .inl ⟨_, rfl⟩
      · split
        · exact .inl ⟨_, rfl⟩
        · next hexited =>
          replace hi := not_le.1 hi
          exact .inr ⟨i, exists_work hi hexited (queue_ne_nil_of_waiting hknows rfl hi)⟩

/-- A call of `join` has returned, or it can go on, or a worker can. -/
lemma joins_cases {l : Stage} (hknows : Knows p m l) (hl : Joins l) (hlock : m.locked = isAwait l) :
    (∃ k, l = .returned k) ∨
      (∀ k, l ≠ .returned k) ∧ (∃ r, act p m l (if l = .start then .join else .go) = some r) ∨
      ∃ i m', work p m i = some m' := by
  by_cases hret : ∃ k, l = .returned k
  · exact .inl hret
  · have hnot : ∀ k, l ≠ .returned k := fun k hk => hret ⟨k, hk⟩
    rcases exists_act_joins hknows hl hnot hlock with hact | hwork
    · exact .inr (.inl ⟨hnot, hact⟩)
    · exact .inr (.inr hwork)

/-- **A call that has not returned can go on.**

**Proof sketch.** By cases on the caller. While it submits or joins, the lemmas for the two calls
apply; when it reads a result that is not ready, the worker that has the task can go on. -/
theorem exists_step {s : Loop β} (h : Coherent p tasks s) (hres : s.result = none) :
    ∃ e t, stepLoop p tasks s e = some t := by
  have hworker : (∃ i m', work p s.memory i = some m') → ∃ e t, stepLoop p tasks s e = some t :=
    fun ⟨i, m', hw⟩ => ⟨.worker i, _, congrArg (Option.map _) hw⟩
  have hcaller : (∃ t, stepCaller p tasks s = some t) → ∃ e t, stepLoop p tasks s e = some t :=
    fun ⟨t, ht⟩ => ⟨.caller, t, ht⟩
  have hfits := h.fits
  cases hc : s.caller with
  | thrown =>
    rw [hc] at hfits
    exact hfits.elim
  | returned ret => simp [Loop.result, hc] at hres
  | submitting i stage =>
    rw [hc] at hfits
    obtain ⟨r, hr⟩ := exists_act_submits (m := s.memory) hfits.2.2.2.1 hfits.2.2.2.2
    refine hcaller ?_
    rw [stepCaller, hc]
    dsimp only
    rw [hr]
    split
    · exact ⟨_, rfl⟩
    · split <;> exact ⟨_, rfl⟩
  | collecting i ret =>
    rw [hc] at hfits
    by_cases hlen : tasks.length ≤ i
    · refine hcaller ⟨{ s with caller := .closing ret .start }, ?_⟩
      rw [stepCaller, hc]
      exact if_pos hlen
    · by_cases hmem : i ∈ s.memory.executed
      · refine hcaller ?_
        rw [stepCaller, hc]
        dsimp only
        rw [if_neg hlen, h.ready i hmem, List.getElem?_eq_getElem (not_le.1 hlen)]
        exact ⟨_, rfl⟩
      · have hlt : i < s.memory.submitted := hfits.2.1 ▸ not_le.1 hlen
        exact hworker (exists_work_of_due (hfits.1.1.due i hlt) hmem)
  | closing ret stage =>
    rw [hc] at hfits
    obtain ⟨-, hknows, hjoins, hlocked⟩ := hfits
    rcases joins_cases hknows hjoins hlocked with ⟨k, rfl⟩ | ⟨hret, r, hr⟩ | hw
    · refine hcaller ⟨{ s with caller := .returned ret }, ?_⟩
      rw [stepCaller, hc]
    · refine hcaller ?_
      have hstep : stepCaller p tasks s =
          if stage = .start ∧ s.memory.done = true then some { s with caller := .returned ret }
          else
            (act p s.memory stage (if stage = .start then .join else .go)).map fun r =>
              { s with memory := r.1, caller := .closing ret r.2 } := by
        rw [stepCaller, hc]
        cases stage with
        | returned k => exact absurd rfl (hret k)
        | _ => rfl
      rw [hstep, hr]
      split <;> exact ⟨_, rfl⟩
    · exact hworker hw

/-! ## A call comes to its end -/

/-- How many steps a worker takes before it waits or ends. -/
def weight : Worker → ℕ
  | .running _ => 3
  | .top => 2
  | .flagged | .ending => 1
  | .waiting | .exited => 0

/-- How many steps the workers can take with what is in the queues. -/
def load (p : Pool) (m : Memory) : ℕ :=
  (∑ i ∈ Finset.range p.workerNum, weight (m.worker i)) +
    ∑ q ∈ Finset.range p.workerNum, 4 * (m.queue q).length

/-- How many steps a call can take, where what it pushes is counted as well.

Each stage has more than the one that follows it, and the loops count down what they have left. -/
def rank (p : Pool) : Stage → ℕ
  | .start => 11 * p.workerNum + 10
  | .submit => 2 * p.workerNum + 7
  | .scan i _ _ => 2 * (p.workerNum - i) + 6
  | .size i _ _ => 2 * (p.workerNum - i) + 5
  | .push _ => 5
  | .join _ => 11 * p.workerNum + 9
  | .stop | .mark _ => 11 * p.workerNum + 8
  | .fill _ todo => 5 * todo.length + (p.workerNum + 7)
  | .lock _ => p.workerNum + 6
  | .await _ i => p.workerNum - i + 5
  | .finish _ todo => todo.length + 2
  | .returned _ => 0

/-- The load when a worker goes on. -/
lemma load_setWorker {i : ℕ} (hi : i < p.workerNum) (w : Worker) :
    load p (m.setWorker i w) + weight (m.worker i) = load p m + weight w := by
  have hsum := sum_update (fun _ w => weight w) m.worker hi w
  have hload : load p (m.setWorker i w) =
      (∑ j ∈ Finset.range p.workerNum, weight (Function.update m.worker i w j)) +
        ∑ q ∈ Finset.range p.workerNum, 4 * (m.queue q).length := rfl
  rw [hload, load]
  omega

/-- The load when a queue changes. -/
lemma load_setQueue {q : ℕ} (hq : q < p.workerNum) (items : List (Option ℕ)) :
    load p (m.setQueue q items) + 4 * (m.queue q).length = load p m + 4 * items.length := by
  have hsum := sum_update (fun _ items => 4 * List.length items) m.queue hq items
  have hload : load p (m.setQueue q items) =
      (∑ i ∈ Finset.range p.workerNum, weight (m.worker i)) +
        ∑ r ∈ Finset.range p.workerNum, 4 * (Function.update m.queue q items r).length := rfl
  rw [hload, load]
  omega

/-- A queue of no worker does not count. -/
lemma load_setQueue_of_le {q : ℕ} (hq : p.workerNum ≤ q) (items : List (Option ℕ)) :
    load p (m.setQueue q items) = load p m := by
  have hsum := sum_update_of_le (fun _ items => 4 * List.length items) m.queue hq items
  exact congrArg (_ + ·) hsum

/-- A push adds one item. -/
lemma load_push_le (q : ℕ) (item : Option ℕ) : load p (m.push q item) ≤ load p m + 4 := by
  rcases lt_or_ge q p.workerNum with hq | hq
  · have := load_setQueue (m := m) hq (m.queue q ++ [item])
    rw [List.length_append, List.length_singleton] at this
    rw [Memory.push]
    omega
  · exact (load_setQueue_of_le hq _).le.trans (Nat.le_add_right _ _)

/-- Taking an item lowers the load by more than what the worker then does. -/
lemma load_pop_lt {i : ℕ} (hi : i < p.workerNum) (hold : m.worker i = .waiting) {x : Option ℕ}
    {rest : List (Option ℕ)} (hq : m.queue (p.queueOf i) = x :: rest) {w : Worker}
    (hw : weight w ≤ 3) :
    load p ((m.setQueue (p.queueOf i) rest).setWorker i w) < load p m := by
  have hset := load_setQueue (m := m) (queueOf_lt hi) rest
  have hgo := load_setWorker (m := m.setQueue (p.queueOf i) rest) hi w
  have hwaiting : weight ((m.setQueue (p.queueOf i) rest).worker i) = 0 := congrArg weight hold
  rw [hq, List.length_cons] at hset
  omega

/-- A worker that goes on to less. -/
lemma load_setWorker_lt {i : ℕ} (hi : i < p.workerNum) {w : Worker}
    (hw : weight w < weight (m.worker i)) : load p (m.setWorker i w) < load p m := by
  have := load_setWorker (m := m) hi w
  omega

/-- **Every step of a worker lowers the load.**

**Proof sketch.** One case for each step of a worker. Taking an item out of a queue, executing a
task and leaving each use up a part of the load, and a worker that looks at its condition does so
from its first half to its second. -/
lemma load_work_lt {m' : Memory} {i : ℕ} (hw : work p m i = some m') : load p m' < load p m := by
  cases works_of_work hw with
  | @move w hi hold hnew =>
    refine load_setWorker_lt hi ?_
    rcases hold with hold | hold
    · rcases hnew with rfl | rfl <;> rw [hold] <;> decide
    · -- From the second half of the condition the worker does not go back to it.
      rw [work, if_neg (not_le.2 hi), hold] at hw
      have hworker := congrArg (fun m => Memory.worker m i) (Option.some.inj hw)
      simp only [Memory.setWorker, Function.update_self] at hworker
      rcases hnew with rfl | rfl
      · split at hworker <;> cases hworker
      · rw [hold]
        decide
  | leave hi hold _ =>
    refine load_setWorker_lt hi ?_
    rcases hold with hold | hold <;> rw [hold] <;> decide
  | null hi hold hq =>
    refine load_pop_lt hi hold hq ?_
    rw [afterNull]
    split <;> decide
  | take hi hold hq => exact load_pop_lt hi hold hq le_rfl
  | @execute t hi hold =>
    refine load_setWorker_lt (m := m.execute t) hi ?_
    have hold' : (m.execute t).worker i = .running t := hold
    rw [hold']
    exact Nat.lt_succ_self 2
  | ending hi hold =>
    refine load_setWorker_lt (m := m.setFlag i) hi ?_
    have hold' : (m.setFlag i).worker i = .ending := hold
    rw [hold']
    decide

/-- A step of `submit` lowers the rank by more than what it adds to the load.

**Proof sketch.** One case for each stage of `submit`. The step that pushes adds an item to a
queue, and its rank falls by more than an item weighs. -/
lemma rank_submits_lt {m' : Memory} {l l' : Stage} (hl : Submits p l)
    (ha : act p m l (if l = .start then .submit else .go) = some (m', l')) :
    rank p l' + load p m' < rank p l + load p m := by
  have hn := p.workerNum_pos
  cases l with
  | start =>
    cases ha
    simp only [rank]
    omega
  | submit =>
    cases ha
    split
    · simp only [rank]
      omega
    · cases p.kind <;> simp only [rank] <;> omega
  | scan i index minCount =>
    cases ha
    rw [ThreadPool.scan]
    split
    · simp only [rank]
      omega
    · split <;> simp only [rank] <;> omega
  | size i index minCount =>
    cases ha
    have hi := hl.2.1
    simp only [ThreadPool.size]
    split
    · simp only [rank]
      omega
    · split <;> simp only [rank] <;> omega
  | push q =>
    cases ha
    have hload : load p (m.submit q) = load p (m.push q (some m.submitted)) := rfl
    have := load_push_le (p := p) (m := m) q (some m.submitted)
    simp only [rank]
    omega
  | returned k => simp [act] at ha
  | stop | join | mark | fill | lock | await | finish => exact hl.elim

/-- The first part of `join` has at most two steps for each worker. -/
lemma length_joinFill_le : (joinFill p).length ≤ 2 * p.workerNum := by
  rw [joinFill]
  split
  · simp
  · split <;> simp <;> omega

/-- Only a worker of the pool is awaited. -/
lemma lt_of_act_await {m' : Memory} {how : Close} {i j : ℕ} {a : Action}
    (ha : act p m (.await how i) a = some (m', .await how j)) : i < p.workerNum := by
  by_contra hi
  cases a with
  | go =>
    rw [act, if_pos (not_lt.1 hi)] at ha
    cases ha
  | _ => cases ha

/-- A step of `join` lowers the rank by more than what it adds to the load.

**Proof sketch.** One case for each stage of `join`. Each null task that is pushed leaves one less
to push, with more weight than an item of a queue. -/
lemma rank_joins_lt {m' : Memory} {l l' : Stage} (hl : Joins l)
    (ha : act p m l (if l = .start then .join else .go) = some (m', l')) :
    rank p l' + load p m' < rank p l + load p m := by
  generalize haction : (if l = .start then Action.join else .go) = a at ha
  cases acts_of_act ha with
  | callSubmit | callStop => simp at haction
  | callJoin =>
    have hload : load p m.promise = load p m := rfl
    simp only [rank]
    omega
  | search hs _ => cases l <;> first | exact hl.elim | exact absurd hs Bool.false_ne_true
  | push q | stopAgain _ | stop _ | mark k => exact hl.elim
  | joinAgain _ k =>
    simp only [rank]
    omega
  | join _ _ k =>
    have := length_joinFill_le (p := p)
    simp only [rank]
    omega
  | hurry _ k =>
    simp only [rank]
    omega
  | fill how x todo =>
    cases x with
    | setFlag i =>
      have hload : load p (m.setFlag i) = load p m := rfl
      simp only [rank, Fill.run, List.length_cons]
      omega
    | pushNull q =>
      have := load_push_le (p := p) (m := m) q none
      simp only [rank, Fill.run, List.length_cons]
      omega
  | filled how =>
    simp only [rank, List.length_nil]
    omega
  | lock how =>
    have hload : load p (m.setLocked true) = load p m := rfl
    simp only [rank]
    omega
  | @skip how i hj =>
    have hi := lt_of_act_await ha
    simp only [rank]
    omega
  | @await how i hw =>
    have hi := lt_of_act_await ha
    have hload : load p (m.join i) = load p m := rfl
    simp only [rank]
    omega
  | awaited how hi =>
    have hload : load p (m.setLocked false) = load p m := rfl
    have hlength : (finishing p how).length ≤ 2 := by
      cases how with
      | stop => exact absurd rfl hl
      | join k =>
        rw [finishing]
        split <;> decide
    simp only [rank]
    omega
  | finish how x todo =>
    cases x with
    | setDone =>
      have hload : load p m.setDone = load p m := rfl
      simp only [rank, Finish.run, List.length_cons]
      omega
    | clear q =>
      have hload : load p (m.setQueue q []) ≤ load p m := by
        rcases lt_or_ge q p.workerNum with hq | hq
        · have := load_setQueue (m := m) hq []
          rw [List.length_nil] at this
          omega
        · exact (load_setQueue_of_le hq []).le
      simp only [rank, Finish.run, List.length_cons]
      omega
  | finished how =>
    simp only [rank]
    omega

/-- A step of a submission leaves less to do of the submissions of a loop, where each counts what
its task takes. -/
lemma submits_left_lt {m' : Memory} {l l' : Stage} {n i : ℕ} (hfresh : Fresh p m)
    (hl : Submits p l) (hret : ∀ k, l ≠ .returned k) (hi : i < n)
    (ha : act p m l (if l = .start then .submit else .go) = some (m', l')) :
    load p m' + (if l' = .returned 0 then (n - (i + 1)) * (11 * p.workerNum + 11) + rank p .start
      else (n - i) * (11 * p.workerNum + 11) + rank p l') <
      load p m + ((n - i) * (11 * p.workerNum + 11) + rank p l) := by
  have hrank := rank_submits_lt hl ha
  have hsplit : (n - i) * (11 * p.workerNum + 11) =
      (n - (i + 1)) * (11 * p.workerNum + 11) + (11 * p.workerNum + 11) := by
    rw [← Nat.succ_mul]
    congr 1
    omega
  have hstart : rank p .start = 11 * p.workerNum + 10 := rfl
  obtain ⟨-, -, -, ⟨rfl, -⟩ | ⟨hret', -⟩⟩ := act_submits hfresh hl hret ha
  · rw [if_pos rfl]
    omega
  · rw [if_neg (hret' 0)]
    omega

/-- How many steps are left, where a submission counts what its task takes. -/
def Loop.measure (p : Pool) (tasks : List (List β)) (s : Loop β) : ℕ :=
  load p s.memory +
    match s.caller with
    | .submitting i stage =>
      (tasks.length - i) * (11 * p.workerNum + 11) + rank p stage +
        (tasks.length + 11 * p.workerNum + 14)
    | .collecting i _ => tasks.length - i + (11 * p.workerNum + 12)
    | .closing _ stage => rank p stage + 1
    | .thrown | .returned _ => 0

/-- A step of the caller.

**Proof sketch.** The tasks that are still to be submitted, the rank of the call under way and the
results still to be read are a part of the measure each, and every step of the caller lowers one of
them by more than it adds to the load. -/
lemma stepCaller_measure_lt {s t : Loop β} (h : Coherent p tasks s)
    (hstep : stepCaller p tasks s = some t) : t.measure p tasks < s.measure p tasks := by
  have hfits := h.fits
  rw [stepCaller] at hstep
  split at hstep
  · next i stage hc =>
    rw [hc] at hfits
    obtain ⟨⟨hfresh, hlocked⟩, hsub, hi, hsubmits, hret⟩ := hfits
    split at hstep
    · next hlen =>
      cases hstep
      simp only [Loop.measure, hc]
      omega
    · next hlen =>
      split at hstep
      · cases hstep
        simp only [Loop.measure, hc]
        omega
      · obtain ⟨⟨m', l'⟩, ha, rfl⟩ := Option.map_eq_some_iff.1 hstep
        have hleft := submits_left_lt hfresh hsubmits hret (not_le.1 hlen) ha
        simp only [Loop.measure, hc]
        split at hleft
        · next hreturned =>
          simp only [if_pos hreturned]
          omega
        · next hnot =>
          simp only [if_neg hnot]
          omega
  · next i ret hc =>
    split at hstep
    · cases hstep
      simp only [Loop.measure, hc, rank]
      omega
    · obtain ⟨one, -, rfl⟩ := Option.map_eq_some_iff.1 hstep
      simp only [Loop.measure, hc]
      omega
  · next ret k hc =>
    cases hstep
    simp only [Loop.measure, hc]
    omega
  · next ret stage _ hc =>
    rw [hc] at hfits
    split at hstep
    · cases hstep
      simp only [Loop.measure, hc]
      omega
    · obtain ⟨⟨m', l'⟩, ha, rfl⟩ := Option.map_eq_some_iff.1 hstep
      have hrank := rank_joins_lt hfits.2.2.1 ha
      simp only [Loop.measure, hc]
      omega
  · cases hstep
  · cases hstep

/-- **One step leaves less to do.** -/
theorem step_measure_lt {s t : Loop β} {e : Turn} (h : Coherent p tasks s)
    (hstep : stepLoop p tasks s e = some t) : t.measure p tasks < s.measure p tasks := by
  cases e with
  | caller => exact stepCaller_measure_lt h hstep
  | worker i =>
    obtain ⟨m', hw, rfl⟩ := Option.map_eq_some_iff.1 hstep
    exact Nat.add_lt_add_right (load_work_lt hw) _

/-! ## The results -/

/-- At first nothing was submitted. -/
lemma coherent_init (p : Pool) (tasks : List (List β)) :
    Coherent p tasks (parallelLoop p tasks).init := by
  refine ⟨sound_init, nofun, nofun, ?_⟩
  rw [parallelLoop]
  cases tasks with
  | nil => rfl
  | cons task tasks =>
    refine ⟨⟨⟨rfl, fun _ _ => rfl, fun _ => List.not_mem_nil, ?_⟩, rfl⟩, rfl, Nat.zero_le _,
      trivial, nofun⟩
    exact fun t ht => absurd ht (Nat.not_lt_zero t)

/-- **Every schedule of the tasks ends with their results**, in the order of submission. -/
theorem parallelLoop_returns (hu : p.untilEmpty = true) (tasks : List (List β)) :
    (parallelLoop p tasks).Returns Loop.result tasks.flatten := by
  refine System.returns_of_measure (coherent_init p tasks)
    (fun s e t h hstep => ⟨step_coherent hu h hstep, step_measure_lt h hstep⟩)
    (fun s h => exists_step h) fun s ret h hres => ?_
  have hfits := h.fits
  rw [Loop.result] at hres
  split at hres
  · next hc =>
    rw [hc] at hfits
    cases hres
    exact hfits
  · cases hres

section Results

variable (kind : ThreadPool.Kind) {hardware : ℕ} (hhw : 1 ≤ hardware)

/-- `parallel_for_index` returns the sequential results. -/
lemma parallelForIndex_returns (f : ℕ → β) {start stop : ℕ} (hstop : stop < 2 ^ 64) (cpuNum : ℕ) :
    (parallelForIndex kind hhw f start stop cpuNum).Returns Loop.result
      ((indices start stop).map f) := by
  have hflatten : ((parallelIndexRange hardware start stop cpuNum).map fun r =>
      (indices r.1 r.2).map f).flatten = (indices start stop).map f := by
    rcases le_or_gt stop start with hle | hlt
    · rw [parallelIndexRange_nil hle, indices, Nat.sub_eq_zero_of_le hle]
      rfl
    · rw [← (splits_parallelIndexRange hlt hstop hardware cpuNum).flatMap_indices,
        List.map_flatMap, List.flatMap_def]
  rw [← hflatten]
  exact parallelLoop_returns rfl _

/-- `parallel_for_index_single` returns the sequential results. -/
lemma parallelForIndexSingle_returns (f : ℕ → β) (start stop cpuNum : ℕ) :
    (parallelForIndexSingle kind hhw f start stop cpuNum).Returns Loop.result
      ((indices start stop).map f) := by
  have hflatten : ((indices start stop).map fun i => [f i]).flatten =
      (indices start stop).map f := by
    rw [← List.flatMap_def, List.map_eq_flatMap]
  rw [← hflatten]
  exact parallelLoop_returns rfl _

/-- `parallel_for_range` returns what the function computes for the whole range. -/
lemma parallelForRange_returns {f : ℕ × ℕ → List β} {start stop : ℕ} (hle : start ≤ stop)
    (hstop : stop < 2 ^ 64)
    (hf : ∀ x y z, start ≤ x → x ≤ y → y ≤ z → z ≤ stop → f (x, y) ++ f (y, z) = f (x, z))
    (cpuNum : ℕ) :
    (parallelForRange kind hhw f start stop cpuNum).Returns Loop.result (f (start, stop)) := by
  have hflatten : ((parallelIndexRange hardware start stop cpuNum).map f).flatten =
      f (start, stop) := by
    rw [← List.flatMap_def]
    rcases hle.eq_or_lt with rfl | hlt
    · rw [parallelIndexRange_nil le_rfl]
      exact (List.append_left_eq_self.1 (hf start start start le_rfl le_rfl le_rfl le_rfl)).symm
    · exact (splits_parallelIndexRange hlt hstop hardware cpuNum).flatMap_eq
        (parallelIndexRange_ne_nil hlt hstop hardware cpuNum) hf
  rw [← hflatten]
  exact parallelLoop_returns rfl _

/-- The same for every range, if the function composes over all of them.

**Proof sketch.** A range that goes upwards is the case before. For one that does not, nothing is
called, and the function computes nothing: the way there and back gives what the start gives, which
is nothing. -/
lemma parallelForRange_returns_all {f : ℕ × ℕ → List β}
    (hf : ∀ x y z, x < 2 ^ 64 → y < 2 ^ 64 → z < 2 ^ 64 → f (x, y) ++ f (y, z) = f (x, z))
    {start stop : ℕ} (hstart : start < 2 ^ 64) (hstop : stop < 2 ^ 64) (cpuNum : ℕ) :
    (parallelForRange kind hhw f start stop cpuNum).Returns Loop.result (f (start, stop)) := by
  rcases le_or_gt start stop with hle | hgt
  · refine parallelForRange_returns kind hhw hle hstop (fun x y z hx hxy hyz hz => ?_) cpuNum
    exact hf x y z (by omega) (by omega) (by omega)
  · -- There and back is nothing.
    have hself : f (start, start) = [] :=
      List.append_left_eq_self.1 (hf start start start hstart hstart hstart)
    have hnil : f (start, stop) = [] := by
      have := hf start stop start hstart hstop hstart
      rw [hself] at this
      exact (List.append_eq_nil_iff.1 this).1
    have hflatten : ((parallelIndexRange hardware start stop cpuNum).map f).flatten =
        f (start, stop) := by
      rw [parallelIndexRange_nil hgt.le, hnil]
      rfl
    rw [← hflatten]
    exact parallelLoop_returns rfl _

end Results

/-- **Parallel loops equal the sequential loop.** The ranges are consecutive, not empty and split
`[start, stop)`; and for both classes of pools and every number of workers, every schedule of a
call ends, with the sequential results in the order of the indices, or for `parallel_for_range`
with what a function that composes over adjacent ranges computes for the whole range.

**Proof sketch.** The partition is that of `splits_parallelIndexRange`, and each of the three loops
returns by its own lemma. -/
theorem parallel_loops {hardware : ℕ} (hhw : 1 ≤ hardware) {start stop : ℕ}
    (hstart : start < 2 ^ 64) (hstop : stop < 2 ^ 64) (cpuNum : ℕ) :
    ((stop ≤ start → parallelIndexRange hardware start stop cpuNum = []) ∧
      (start < stop → Splits start stop (parallelIndexRange hardware start stop cpuNum))) ∧
    ∀ (kind : ThreadPool.Kind) (β : Type),
      (∀ f : ℕ → β,
        (parallelForIndex kind hhw f start stop cpuNum).Returns Loop.result
            ((indices start stop).map f) ∧
          (parallelForIndexSingle kind hhw f start stop cpuNum).Returns Loop.result
            ((indices start stop).map f)) ∧
      ∀ f : ℕ × ℕ → List β,
        (start ≤ stop ∧
            ∀ x y z, start ≤ x → x ≤ y → y ≤ z → z ≤ stop → f (x, y) ++ f (y, z) = f (x, z)) ∨
          (∀ x y z, x < 2 ^ 64 → y < 2 ^ 64 → z < 2 ^ 64 →
            f (x, y) ++ f (y, z) = f (x, z)) →
        (parallelForRange kind hhw f start stop cpuNum).Returns Loop.result (f (start, stop)) := by
  refine ⟨⟨fun hle => parallelIndexRange_nil hle hardware cpuNum,
    fun hlt => splits_parallelIndexRange hlt hstop hardware cpuNum⟩,
    fun kind β => ⟨fun f => ?_, ?_⟩⟩
  · exact ⟨parallelForIndex_returns kind hhw f hstop cpuNum,
      parallelForIndexSingle_returns kind hhw f start stop cpuNum⟩
  · rintro f (⟨hle, hf⟩ | hf)
    · exact parallelForRange_returns kind hhw hle hstop hf cpuNum
    · exact parallelForRange_returns_all kind hhw hf hstart hstop cpuNum

/-- Three threads and seven indices from two on: ranges of two indices, and one that is left.

**Proof sketch.** The theorem at three threads; the ranges are computed, and lists of indices
compose over adjacent ranges. -/
theorem parallel_loops_three :
    parallelIndexRange 4 2 9 3 = [(2, 4), (4, 6), (6, 8), (8, 9)] ∧
    Splits 2 9 (parallelIndexRange 4 2 9 3) ∧
    (parallelForIndex .multi (show 1 ≤ 4 by decide) (fun i => i * i) 2 9 3).Returns Loop.result
      [4, 9, 16, 25, 36, 49, 64] ∧
    (parallelForIndexSingle .central (show 1 ≤ 4 by decide) (fun i => i * i) 2 9 3).Returns
      Loop.result [4, 9, 16, 25, 36, 49, 64] ∧
    (parallelForRange .multi (show 1 ≤ 4 by decide)
      (fun r => (indices r.1 r.2).map fun i => i * i) 2 9 3).Returns Loop.result
      [4, 9, 16, 25, 36, 49, 64] := by
  have h := parallel_loops (show 1 ≤ 4 by decide) (show 2 < 2 ^ 64 by decide)
    (show 9 < 2 ^ 64 by decide) 3
  refine ⟨by decide, h.1.2 (by decide), ((h.2 .multi ℕ).1 fun i => i * i).1,
    ((h.2 .central ℕ).1 fun i => i * i).2,
    (h.2 .multi ℕ).2 (fun r => (indices r.1 r.2).map fun i => i * i) (.inl ⟨by decide, ?_⟩)⟩
  intro x y z _ hxy hyz _
  have hparts : indices x y ++ indices y z = indices x z := by
    have happ := @List.range'_append x (y - x) (z - y) 1
    rw [Nat.one_mul, Nat.add_sub_cancel' hxy] at happ
    rw [indices, indices, indices, happ]
    congr 1
    omega
  rw [← List.map_append, hparts]

end HkuUtils.Algorithm
