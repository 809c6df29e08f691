import Mathlib.Data.List.Range
import Mathlib.Logic.Function.Basic
import HkuUtils.Threads

set_option relaxedAutoImplicit false
set_option autoImplicit false

/-!
# The work-stealing pool without a master queue

The class `MQStealThreadPool`. Every worker has a queue of its own, and the tasks are given to the
queues in turn. A worker without a task steals one from the back of another queue, or waits at its
own one.

## Main definitions

* `HkuUtils.MQStealPool.Pool` — the arguments of the constructor.
* `HkuUtils.MQStealPool.Memory` — the members of a pool with its workers.
* `HkuUtils.MQStealPool.submit` — the function `submit`, called by a worker's task or from outside.
* `HkuUtils.MQStealPool.work` — the functions `worker_thread` and `run_pending_task`.
* `HkuUtils.MQStealPool.act`, `program` — the functions `submit`, `stop` and `join`, called by any
  number of threads.

## Main results

* `HkuUtils.MQStealPool.submits_of_submit`, `works_of_work`, `acts_of_act` — what one step can do.

## Design

The operations of a queue and every access of a flag or of `m_current_index` are atomic, and
`wait_and_pop` is a step that is possible when the queue is not empty. An access outside of
`m_queues` has no step. The constructor is over. Tasks are numbered in the order in which they are
pushed, and `none` is a null task. What a task does beside calling `submit` is left out.
-/

namespace HkuUtils.MQStealPool

open Threads

/-! ## The members -/

/-- A pool, as it was constructed. -/
structure Pool where
  /-- `m_worker_num`. -/
  workerNum : ℕ
  /-- `m_runnging_until_empty`. -/
  untilEmpty : Bool

/-- Where a call of `submit` is. Each access to a member that others may change is a step of its
own. -/
inductive Submit where
  /-- Before the test of `m_done`. -/
  | done
  /-- Before the test of `m_interrupt_flags[index]`. -/
  | route
  | pushFront
  | push
  /-- Before `m_current_index++`. -/
  | advance
  /-- Before `m_current_index` is compared. -/
  | wrap
  /-- Before `m_current_index = 0`. -/
  | reset
  deriving DecidableEq, Repr

/-- Where a worker is in `worker_thread`. While it runs a task it may be in a call of `submit`,
which is made by the task. -/
inductive Worker where
  /-- Before the condition of the loop. -/
  | top
  /-- In the condition of the loop, before its second part. -/
  | second
  | popLocal
  /-- In `pop_task_from_other_thread_queue`, with the index of its loop. -/
  | steal (k : ℕ)
  /-- In `wait_and_pop`. -/
  | waiting
  /-- In `task()`, and there perhaps in a call of `submit`. -/
  | running (t : ℕ) (call : Option Submit)
  /-- Before the flag of the worker is set. -/
  | ending
  | exited
  deriving DecidableEq, Repr

/-- The members of a pool, its workers, and what is remembered of its tasks. `none` in a queue is a
null task. -/
structure Memory where
  /-- `m_done`. -/
  done : Bool
  /-- `m_interrupt_flags`. -/
  flag : ℕ → Bool
  /-- `m_queues`. -/
  queue : ℕ → List (Option ℕ)
  worker : ℕ → Worker
  /-- `m_current_index`. -/
  current : ℕ
  /-- The threads that are not `joinable` any more. -/
  joined : ℕ → Bool
  /-- How many calls of `submit` were not refused. -/
  admitted : ℕ
  /-- How many tasks were pushed. -/
  submitted : ℕ
  /-- The worker whose task has submitted a task. -/
  origin : ℕ → Option ℕ
  /-- The tasks that were taken from a queue. -/
  taken : List ℕ
  /-- The tasks that were executed. -/
  executed : List ℕ

namespace Memory

/-- A pool after its constructor. -/
def init : Memory :=
  ⟨false, fun _ => false, fun _ => [], fun _ => .top, 0, fun _ => false, 0, 0, fun _ => none, [],
    []⟩

/-- `m_done = true`. -/
def setDone (m : Memory) : Memory := { m with done := true }

/-- `m_interrupt_flags[i].set()`. -/
def setFlag (m : Memory) (i : ℕ) : Memory := { m with flag := Function.update m.flag i true }

/-- The content of a queue is replaced. -/
def setQueue (m : Memory) (i : ℕ) (items : List (Option ℕ)) : Memory :=
  { m with queue := Function.update m.queue i items }

/-- `push`. -/
def push (m : Memory) (i : ℕ) (item : Option ℕ) : Memory := m.setQueue i (m.queue i ++ [item])

/-- `push_front`. -/
def pushFront (m : Memory) (i : ℕ) (item : Option ℕ) : Memory := m.setQueue i (item :: m.queue i)

/-- A worker goes on. -/
def setWorker (m : Memory) (i : ℕ) (w : Worker) : Memory :=
  { m with worker := Function.update m.worker i w }

/-- `m_current_index` is stored. -/
def setCurrent (m : Memory) (i : ℕ) : Memory := { m with current := i }

/-- A call of `submit` is not refused. -/
def accept (m : Memory) : Memory := { m with admitted := m.admitted + 1 }

/-- A new task was pushed. -/
def count (m : Memory) (who : Option ℕ) : Memory :=
  { m with submitted := m.submitted + 1, origin := Function.update m.origin m.submitted who }

/-- An item was taken from a queue. -/
def take (m : Memory) (item : Option ℕ) : Memory := { m with taken := m.taken ++ item.toList }

/-- A task ends. -/
def execute (m : Memory) (t : ℕ) : Memory := { m with executed := m.executed ++ [t] }

/-- `m_threads[i].join()` returns. -/
def join (m : Memory) (i : ℕ) : Memory := { m with joined := Function.update m.joined i true }

end Memory

/-! ## The workers -/

/-- What follows in `submit` when the pool is not done: only a worker has a flag. -/
def route : Option ℕ → Submit
  | none => .push
  | some _ => .route

/-- The next step of `submit`, called by the task of a worker or from outside. The call is over when
there is no further step. -/
def submit (p : Pool) (m : Memory) (who : Option ℕ) : Submit → Option (Memory × Option Submit)
  | .done => some (if m.done then (m, none) else (m.accept, some (route who)))
  | .route => some (m, some (if who.any m.flag then .pushFront else .push))
  | .pushFront => who.map fun i => ((m.pushFront i (some m.submitted)).count who, none)
  | .push =>
    if p.workerNum ≤ m.current then none
    else some ((m.push m.current (some m.submitted)).count who, some .advance)
  | .advance => some (m.setCurrent (m.current + 1), some .wrap)
  | .wrap => some (m, if p.workerNum ≤ m.current then some .reset else none)
  | .reset => some (m.setCurrent 0, none)

/-- What a worker does with an item that it has taken. -/
def afterPop : Option ℕ → Worker
  | none => .ending
  | some t => .running t none

/-- A worker takes an item and leaves the rest in the queue. -/
def pop (m : Memory) (i q : ℕ) (item : Option ℕ) (rest : List (Option ℕ)) : Memory :=
  ((m.setQueue q rest).take item).setWorker i (afterPop item)

/-- The queue at an index of the loop of `pop_task_from_other_thread_queue`. -/
def position (p : Pool) (i k : ℕ) : ℕ := (i + k + 1) % p.workerNum

/-- `try_steal`, with the task that is taken. -/
def trySteal (items : List (Option ℕ)) : Option ℕ := items.getLast?.join

/-- The next step of `worker_thread(i)`. It takes a task from its own queue or from the back of
another one, or waits at its own. -/
def work (p : Pool) (m : Memory) (i : ℕ) : Option Memory :=
  if p.workerNum ≤ i then none
  else
    match m.worker i with
    | .top => some (m.setWorker i (if m.flag i then .exited else .second))
    | .second => some (m.setWorker i (if m.done then .exited else .popLocal))
    | .popLocal =>
      match m.queue i with
      | [] => some (m.setWorker i (.steal 0))
      | item :: rest => some (pop m i i item rest)
    | .steal k =>
      if p.workerNum ≤ k then some (m.setWorker i .waiting)
      else if position p i k = i then some (m.setWorker i (.steal (k + 1)))
      else
        match trySteal (m.queue (position p i k)) with
        | none => some (m.setWorker i (.steal (k + 1)))
        | some t => some (pop m i (position p i k) (some t) (m.queue (position p i k)).dropLast)
    | .waiting =>
      match m.queue i with
      | [] => none
      | item :: rest => some (pop m i i item rest)
    | .running t none => some ((m.execute t).setWorker i .top)
    | .running t (some c) => (submit p m (some i) c).map fun r => r.1.setWorker i (.running t r.2)
    | .ending => some ((m.setFlag i).setWorker i .top)
    | .exited => none

/-- A step that is not one of a call from outside. -/
inductive Tick where
  /-- A step of worker `i`. -/
  | work (i : ℕ)
  /-- The task that worker `i` executes calls `submit`. -/
  | submit (i : ℕ)
  deriving DecidableEq, Repr

/-- The step of an event of the workers. -/
def tick (p : Pool) (m : Memory) : Tick → Option Memory
  | .work i => work p m i
  | .submit i =>
    if p.workerNum ≤ i then none
    else
      match m.worker i with
      | .running t none => some (m.setWorker i (.running t (some .done)))
      | _ => none

/-! ## The calls -/

/-- A step of the first part of `stop` and `join`. -/
inductive Fill where
  /-- `if (m_interrupt_flags[i]) m_interrupt_flags[i].set()`. -/
  | flag (i : ℕ)
  /-- `m_queues[i]->push(FuncWrapper())`. -/
  | push (i : ℕ)
  deriving DecidableEq, Repr

/-- A step of the last part of `stop` and `join`. -/
inductive Finish where
  | setDone
  | clear (i : ℕ)
  deriving DecidableEq, Repr

/-- Which function ends a pool. -/
inductive Close where
  | stop
  | join
  deriving DecidableEq, Repr

/-- Where a call is. `stop` and `join` have the same second part: they set the flags, push the null
tasks, and wait for the threads. -/
inductive Stage where
  | start
  | submit (c : Submit)
  /-- In `stop`, before the test of `m_done`. -/
  | stop
  /-- In `join`, before the test of `m_done`. -/
  | join
  /-- In the loop of `join` that waits for the queues, before the test of the queue of a worker. -/
  | poll (i : ℕ)
  /-- In `join`, before `m_done = true` in its first part. -/
  | joinMark
  | fill (how : Close) (todo : List Fill)
  /-- In the loop over the threads. -/
  | await (how : Close) (i : ℕ)
  | finish (how : Close) (todo : List Finish)
  | returned
  deriving DecidableEq, Repr

/-- How a call goes on. -/
inductive Action where
  | submit
  | stop
  | join
  | go
  deriving DecidableEq, Repr

/-- The first part of `stop`. -/
def stopFill (p : Pool) : List Fill := (List.range p.workerNum).flatMap fun i => [.flag i, .push i]

/-- The first part of `join`, after `m_done` is set if it is. -/
def joinFill (p : Pool) : List Fill :=
  (if p.untilEmpty then (List.range p.workerNum).map .flag else []) ++
    (List.range p.workerNum).map .push

/-- The last part of `stop` and `join`. -/
def finishing (p : Pool) : List Finish := .setDone :: (List.range p.workerNum).map .clear

/-- A step of the first part. -/
def Fill.run (m : Memory) : Fill → Memory
  | .flag i => if m.flag i then m.setFlag i else m
  | .push i => m.push i none

/-- A step of the last part. -/
def Finish.run (m : Memory) : Finish → Memory
  | .setDone => m.setDone
  | .clear i => m.setQueue i []

/-- Where a call is after a call of `submit` has taken a step. -/
def afterSubmit : Option Submit → Stage
  | some c => .submit c
  | none => .returned

/-- The next step of a call. What the two parts push and set is a list that is worked off one by
one. -/
def act (p : Pool) (m : Memory) : Stage → Action → Option (Memory × Stage)
  | .start, .submit => some (m, .submit .done)
  | .start, .stop => some (m, .stop)
  | .start, .join => some (m, .join)
  | .submit c, .go => (submit p m none c).map fun r => (r.1, afterSubmit r.2)
  | .stop, .go => some (m, if m.done then .returned else .fill .stop (stopFill p))
  | .join, .go =>
    some (m, if m.done then .returned else if p.untilEmpty then .poll 0
      else .fill .join (joinFill p))
  | .poll i, .go =>
    some (m, if p.workerNum ≤ i then .joinMark else if m.queue i ≠ [] then .poll 0
      else .poll (i + 1))
  | .joinMark, .go => some (m.setDone, .fill .join (joinFill p))
  | .fill how (x :: todo), .go => some (x.run m, .fill how todo)
  | .fill how [], .go => some (m, .await how 0)
  | .await how i, .go =>
    if p.workerNum ≤ i then some (m, .finish how (finishing p))
    else if m.joined i then some (m, .await how (i + 1))
    else if m.worker i = .exited then some (m.join i, .await how (i + 1))
    else none
  | .finish how (x :: todo), .go => some (x.run m, .finish how todo)
  | .finish _ [], .go => some (m, .returned)
  | _, _ => none

/-- The calls of a pool and its workers. -/
def program (p : Pool) : Program Memory Stage Action Tick where
  start := .start
  act := act p
  env := tick p

/-- A pool after its constructor, with any number of calls. -/
def system (p : Pool) : Transition.System (State Memory Stage) (Event Action Tick) :=
  (program p).system Memory.init

/-- The steps of call `i`. -/
def steps (i k : ℕ) : List (Event Action Tick) := List.replicate k (.act i .go)

/-- The steps of worker `i`. -/
def works (i k : ℕ) : List (Event Action Tick) := List.replicate k (.env (.work i))

/-! ## What one step can do -/

/-- **What a step of `submit` can do**: one constructor for each branch of `submit`, with its
guard. -/
inductive Submits (p : Pool) (m : Memory) (who : Option ℕ) :
    Submit → Memory → Option Submit → Prop where
  | throws (hd : m.done = true) : Submits p m who .done m none
  | goOn (hd : m.done = false) : Submits p m who .done m.accept (some (route who))
  | front (hf : who.any m.flag = true) : Submits p m who .route m (some .pushFront)
  | back (hf : who.any m.flag = false) : Submits p m who .route m (some .push)
  | pushFront {i : ℕ} (hwho : who = some i) :
    Submits p m who .pushFront ((m.pushFront i (some m.submitted)).count who) none
  | push (hcurrent : m.current < p.workerNum) :
    Submits p m who .push ((m.push m.current (some m.submitted)).count who) (some .advance)
  | advance : Submits p m who .advance (m.setCurrent (m.current + 1)) (some .wrap)
  | wrap {c : Option Submit} (hc : c = some .reset ∨ c = none) : Submits p m who .wrap m c
  | reset : Submits p m who .reset (m.setCurrent 0) none

/-- Inversion of a step of `submit`.

**Proof sketch.** One case for each place in the call, and both outcomes of its test. -/
theorem submits_of_submit {p : Pool} {m m' : Memory} {who : Option ℕ} {c : Submit}
    {c' : Option Submit} (h : submit p m who c = some (m', c')) : Submits p m who c m' c' := by
  cases c with
  | done =>
    by_cases hd : m.done = true
    · rw [submit, if_pos hd] at h
      cases h
      exact .throws hd
    · rw [submit, if_neg hd] at h
      cases h
      exact .goOn (Bool.eq_false_iff.2 hd)
  | route =>
    cases h
    split
    · exact .front ‹_›
    · exact .back (Bool.eq_false_iff.2 ‹_›)
  | pushFront =>
    obtain ⟨i, hi, h⟩ := Option.map_eq_some_iff.1 h
    cases h
    exact .pushFront hi
  | push =>
    obtain ⟨hcurrent, h⟩ := Option.ite_none_left_eq_some.1 h
    cases h
    exact .push (not_le.1 hcurrent)
  | advance =>
    cases h
    exact .advance
  | wrap =>
    cases h
    refine .wrap ?_
    split
    · exact .inl rfl
    · exact .inr rfl
  | reset =>
    cases h
    exact .reset

/-- **What a step of a worker can do**: one constructor for each branch of `work`, with its
guard. -/
inductive Works (p : Pool) (m : Memory) (i : ℕ) : Memory → Prop where
  | test (hi : i < p.workerNum) (hold : m.worker i = .top) (hf : m.flag i = false) :
    Works p m i (m.setWorker i .second)
  | leave (hi : i < p.workerNum) (hold : m.worker i = .top ∨ m.worker i = .second) :
    Works p m i (m.setWorker i .exited)
  | enter (hi : i < p.workerNum) (hold : m.worker i = .second) (hd : m.done = false) :
    Works p m i (m.setWorker i .popLocal)
  /-- It finds nothing and goes on. -/
  | search {w : Worker} (hi : i < p.workerNum)
    (hold : m.worker i = .popLocal ∨ ∃ k, m.worker i = .steal k)
    (hw : w = .waiting ∨ ∃ k, w = .steal k) : Works p m i (m.setWorker i w)
  | pop {item : Option ℕ} {rest : List (Option ℕ)} (hi : i < p.workerNum)
    (hold : m.worker i = .popLocal ∨ m.worker i = .waiting) (hq : m.queue i = item :: rest) :
    Works p m i (pop m i i item rest)
  | stolen {k t : ℕ} (hi : i < p.workerNum) (hold : m.worker i = .steal k)
    (hne : position p i k ≠ i) (hq : trySteal (m.queue (position p i k)) = some t) :
    Works p m i (MQStealPool.pop m i (position p i k) (some t) (m.queue (position p i k)).dropLast)
  | execute {t : ℕ} (hi : i < p.workerNum) (hold : m.worker i = .running t none) :
    Works p m i ((m.execute t).setWorker i .top)
  | submit {t : ℕ} {c : Submit} {m' : Memory} {c' : Option Submit} (hi : i < p.workerNum)
    (hold : m.worker i = .running t (some c)) (hs : Submits p m (some i) c m' c') :
    Works p m i (m'.setWorker i (.running t c'))
  | ending (hi : i < p.workerNum) (hold : m.worker i = .ending) :
    Works p m i ((m.setFlag i).setWorker i .top)

/-- Inversion of a step of a worker.

**Proof sketch.** One case for each place of a worker, and each outcome of what it tests or
takes. -/
theorem works_of_work {p : Pool} {m m' : Memory} {i : ℕ} (h : work p m i = some m') :
    Works p m i m' := by
  unfold work at h
  split at h
  · cases h
  rename_i hi
  replace hi : i < p.workerNum := not_le.1 hi
  split at h
  · cases h
    split
    · exact .leave hi (.inl ‹_›)
    · exact .test hi ‹_› (Bool.eq_false_iff.2 ‹_›)
  · cases h
    split
    · exact .leave hi (.inr ‹_›)
    · exact .enter hi ‹_› (Bool.eq_false_iff.2 ‹_›)
  · split at h
    · cases h
      exact .search hi (.inl ‹_›) (.inr ⟨0, rfl⟩)
    · cases h
      exact .pop hi (.inl ‹_›) ‹_›
  · split at h
    · cases h
      exact .search hi (.inr ⟨_, ‹_›⟩) (.inl rfl)
    · split at h
      · cases h
        exact .search hi (.inr ⟨_, ‹_›⟩) (.inr ⟨_, rfl⟩)
      · split at h
        · cases h
          exact .search hi (.inr ⟨_, ‹_›⟩) (.inr ⟨_, rfl⟩)
        · cases h
          exact .stolen hi ‹_› ‹_› ‹_›
  · split at h
    · cases h
    · cases h
      exact .pop hi (.inr ‹_›) ‹_›
  · cases h
    exact .execute hi ‹_›
  · obtain ⟨⟨m₁, c'⟩, hs, rfl⟩ := Option.map_eq_some_iff.1 h
    exact .submit hi ‹_› (submits_of_submit hs)
  · cases h
    exact .ending hi ‹_›
  · cases h

/-- What an event of the workers can do. -/
inductive Ticks (p : Pool) (m : Memory) : Tick → Memory → Prop where
  | work {i : ℕ} {m' : Memory} (h : Works p m i m') : Ticks p m (.work i) m'
  | submit {i t : ℕ} (hi : i < p.workerNum) (hold : m.worker i = .running t none) :
    Ticks p m (.submit i) (m.setWorker i (.running t (some .done)))

/-- Inversion of an event of the workers. -/
theorem ticks_of_tick {p : Pool} {m m' : Memory} {e : Tick} (h : tick p m e = some m') :
    Ticks p m e m' := by
  cases e with
  | work i => exact .work (works_of_work h)
  | submit i =>
    obtain ⟨hi, h⟩ := Option.ite_none_left_eq_some.1 h
    split at h
    · cases h
      exact .submit (not_le.1 hi) ‹_›
    · cases h

/-- **What a step of a call can do**: one constructor for each branch of `act`, with its guard. -/
inductive Acts (p : Pool) (m : Memory) : Stage → Action → Memory → Stage → Prop where
  | callSubmit : Acts p m .start .submit m (.submit .done)
  | callStop : Acts p m .start .stop m .stop
  | callJoin : Acts p m .start .join m .join
  | submit {c : Submit} {m' : Memory} {c' : Option Submit} (hs : Submits p m none c m' c') :
    Acts p m (.submit c) .go m' (afterSubmit c')
  /-- `stop` begins, or does nothing on a pool that is done. -/
  | stop {l' : Stage} (hl' : l' = .returned ∨ l' = .fill .stop (stopFill p)) :
    Acts p m .stop .go m l'
  /-- `join` begins, waits for the queues, or does nothing on a pool that is done. -/
  | join {l l' : Stage} (hl : l = .join ∨ ∃ i, l = .poll i)
    (hl' : l' = .returned ∨ (∃ i, l' = .poll i) ∨ l' = .joinMark ∨
      l' = .fill .join (joinFill p)) :
    Acts p m l .go m l'
  | joinMark : Acts p m .joinMark .go m.setDone (.fill .join (joinFill p))
  | fill (how : Close) (x : Fill) (todo : List Fill) :
    Acts p m (.fill how (x :: todo)) .go (x.run m) (.fill how todo)
  | filled (how : Close) : Acts p m (.fill how []) .go m (.await how 0)
  /-- The thread was joined by another call. -/
  | skip (how : Close) {i : ℕ} (hj : m.joined i = true) :
    Acts p m (.await how i) .go m (.await how (i + 1))
  | await (how : Close) {i : ℕ} (hw : m.worker i = .exited) :
    Acts p m (.await how i) .go (m.join i) (.await how (i + 1))
  | awaited (how : Close) {i : ℕ} (hi : p.workerNum ≤ i) :
    Acts p m (.await how i) .go m (.finish how (finishing p))
  | finish (how : Close) (x : Finish) (todo : List Finish) :
    Acts p m (.finish how (x :: todo)) .go (x.run m) (.finish how todo)
  | finished (how : Close) : Acts p m (.finish how []) .go m .returned

/-- Inversion of a step of a call.

**Proof sketch.** One case for each stage of a call. -/
theorem acts_of_act {p : Pool} {m m' : Memory} {l l' : Stage} {a : Action}
    (h : act p m l a = some (m', l')) : Acts p m l a m' l' := by
  unfold act at h
  split at h
  · cases h
    exact .callSubmit
  · cases h
    exact .callStop
  · cases h
    exact .callJoin
  · obtain ⟨⟨m₁, c'⟩, hs, h⟩ := Option.map_eq_some_iff.1 h
    cases h
    exact .submit (submits_of_submit hs)
  · cases h
    refine .stop ?_
    split
    · exact .inl rfl
    · exact .inr rfl
  · cases h
    refine .join (.inl rfl) ?_
    split
    · exact .inl rfl
    · split
      · exact .inr (.inl ⟨_, rfl⟩)
      · exact .inr (.inr (.inr rfl))
  · cases h
    refine .join (.inr ⟨_, rfl⟩) ?_
    split
    · exact .inr (.inr (.inl rfl))
    · split <;> exact .inr (.inl ⟨_, rfl⟩)
  · cases h
    exact .joinMark
  · cases h
    exact .fill _ _ _
  · cases h
    exact .filled _
  · split at h
    · cases h
      exact .awaited _ ‹_›
    · split at h
      · cases h
        exact .skip _ ‹_›
      · split at h
        · cases h
          exact .await _ ‹_›
        · cases h
  · cases h
    exact .finish _ _ _
  · cases h
    exact .finished _
  · cases h

end HkuUtils.MQStealPool
