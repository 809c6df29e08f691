import Mathlib.Data.List.Range
import Mathlib.Logic.Function.Basic
import HkuUtils.Threads

set_option relaxedAutoImplicit false
set_option autoImplicit false

/-!
# Work-stealing pools

The classes `StealThreadPool` and `GlobalStealThreadPool`. A worker has a queue of its own, for the
tasks that its tasks submit; the other tasks are in a master queue. A worker without a task waits on
a condition variable.

## Main definitions

* `HkuUtils.StealPool.Pool` — the two classes with the arguments of their constructors.
* `HkuUtils.StealPool.Memory` — the members of a pool with its workers.
* `HkuUtils.StealPool.submit` — the function `submit`, called by a worker's task or from outside.
* `HkuUtils.StealPool.work` — the functions `worker_thread` and `run_pending_task`.
* `HkuUtils.StealPool.act`, `program` — the functions `submit`, `stop` and `join`, called by any
  number of threads.

## Main results

* `HkuUtils.StealPool.acts_of_act`, `works_of_work` — what one step can do.
* `HkuUtils.StealPool.step_knows` — a call that has waited for a worker knows that it has exited.

## Design

The operations of a queue and every access of a flag are atomic. The wait of a worker is taken
apart: `m_cv_mutex` is locked, the predicate is evaluated, and the worker blocks and unlocks the
mutex. A blocked worker is woken by a notification or for no reason, and then locks the mutex and
evaluates the predicate again. Which of several blocked workers `notify_one` wakes is part of the
event.

The constructor is over. Tasks are numbered in the order in which they are pushed, and `none` is a
null task. What a task does beside calling `submit` is left out, and so is `wake_up`, which only
notifies: what it does to a blocked worker is to wake it for no reason.
-/

namespace HkuUtils.StealPool

open Threads

/-! ## The members -/

/-- `StealThreadPool` and `GlobalStealThreadPool`. -/
inductive Kind where
  | steal
  | globalSteal
  deriving DecidableEq, Repr

/-- A pool, as it was constructed. -/
structure Pool where
  kind : Kind
  /-- `m_worker_num`. -/
  workerNum : ℕ
  /-- `m_running_until_empty`. -/
  untilEmpty : Bool

/-- Where a call of `submit` is. The notification is a step behind the push. -/
inductive Submit where
  /-- Before the test of `m_thread_need_stop`, in `GlobalStealThreadPool`. -/
  | flag
  /-- Before the test of `m_done`. -/
  | done
  /-- Before the test of `m_interrupt_flags[index]`, in `StealThreadPool`. -/
  | route
  | pushFront
  | push
  /-- Before `m_cv.notify_one()`, after the task was pushed. -/
  | notify (t : ℕ)
  deriving DecidableEq, Repr

/-- Where a worker is in `worker_thread`. Going to sleep takes two steps: the predicate is tested
under the mutex, and then the wait begins. -/
inductive Worker where
  | start
  /-- Before the condition of the loop. -/
  | top
  /-- In the condition of the loop, before its second part. -/
  | second
  | popLocal
  | popMaster
  /-- In `pop_task_from_other_thread_queue`, with the index of its loop. -/
  | steal (k : ℕ)
  /-- In that loop, before `try_steal`. -/
  | stealFrom (k : ℕ)
  /-- Before `m_cv_mutex` is locked. -/
  | lock
  /-- Before the predicate is evaluated. -/
  | test
  /-- The predicate was false. -/
  | block
  /-- Blocked in `m_cv.wait`. -/
  | asleep
  /-- Woken, before `m_cv_mutex` is locked again. -/
  | woken
  /-- In `task()`, and there perhaps in a call of `submit`. -/
  | running (t : ℕ) (call : Option Submit)
  /-- Before the flag of the worker is set. -/
  | ending
  | exited
  deriving DecidableEq, Repr

/-- The members of a pool, its workers, and what is remembered of its tasks. A null task is
`none`. -/
structure Memory where
  /-- `m_done`. -/
  done : Bool
  /-- `m_interrupt_flags`, or `m_thread_need_stop` of the workers. -/
  flag : ℕ → Bool
  /-- `m_master_work_queue`. -/
  master : List (Option ℕ)
  /-- `m_queues`. -/
  queue : ℕ → List (Option ℕ)
  worker : ℕ → Worker
  /-- `m_cv_mutex`. -/
  locked : Bool
  /-- The threads that are not `joinable` any more. -/
  joined : ℕ → Bool
  /-- How many tasks were pushed. -/
  submitted : ℕ
  /-- The tasks whose `submit` has returned. -/
  accepted : List ℕ
  /-- The tasks that were executed. -/
  executed : List ℕ

namespace Memory

/-- A pool after its constructor. -/
def init : Memory :=
  ⟨false, fun _ => false, [], fun _ => [], fun _ => .start, false, fun _ => false, 0, [], []⟩

/-- `m_done = true`. -/
def setDone (m : Memory) : Memory := { m with done := true }

/-- The flag of a worker is set. In `GlobalStealThreadPool` it is found by a pointer, which the
thread of the worker stores when it starts and takes back when it ends. -/
def setFlag (p : Pool) (m : Memory) (i : ℕ) : Memory :=
  if p.kind = .globalSteal ∧ (m.worker i = .start ∨ m.worker i = .exited) then m
  else { m with flag := Function.update m.flag i true }

/-- The content of the master queue is replaced. -/
def setMaster (m : Memory) (items : List (Option ℕ)) : Memory := { m with master := items }

/-- The content of the queue of a worker is replaced. -/
def setQueue (m : Memory) (i : ℕ) (items : List (Option ℕ)) : Memory :=
  { m with queue := Function.update m.queue i items }

/-- A worker goes on. -/
def setWorker (m : Memory) (i : ℕ) (w : Worker) : Memory :=
  { m with worker := Function.update m.worker i w }

/-- `m_cv_mutex` is locked or unlocked. -/
def setLocked (m : Memory) (locked : Bool) : Memory := { m with locked := locked }

/-- A new task is pushed. -/
def count (m : Memory) : Memory := { m with submitted := m.submitted + 1 }

/-- A call of `submit` returns. -/
def accept (m : Memory) (t : ℕ) : Memory := { m with accepted := m.accepted ++ [t] }

/-- A task ends. -/
def execute (m : Memory) (t : ℕ) : Memory := { m with executed := m.executed ++ [t] }

/-- `m_threads[i].join()` returns. -/
def join (m : Memory) (i : ℕ) : Memory := { m with joined := Function.update m.joined i true }

/-- `m_cv.notify_all()`. -/
def wakeAll (p : Pool) (m : Memory) : Memory :=
  { m with
    worker := fun i => if i < p.workerNum ∧ m.worker i = .asleep then .woken else m.worker i }

end Memory

/-- `m_cv.notify_one()`: it wakes the blocked worker `w`, or none is blocked. -/
def notifyOne (p : Pool) (m : Memory) : Option ℕ → Option Memory
  | some w => if w < p.workerNum ∧ m.worker w = .asleep then some (m.setWorker w .woken) else none
  | none => if ∀ i < p.workerNum, m.worker i ≠ .asleep then some m else none

/-! ## The workers -/

/-- The first step of `submit`. -/
def Kind.submit : Kind → Submit
  | .steal => .done
  | .globalSteal => .flag

/-- What follows in `submit` when the pool is not done. Only a worker pushes to a queue of its
own. -/
def route (p : Pool) : Option ℕ → Submit
  | none => .push
  | some _ =>
    match p.kind with
    | .steal => .route
    | .globalSteal => .pushFront

/-- The next step of `submit`, called by the task of a worker or from outside. The call is over when
there is no further step. -/
def submit (p : Pool) (m : Memory) (who w : Option ℕ) : Submit → Option (Memory × Option Submit)
  | .flag => some (m, if who.any m.flag then none else some .done)
  | .done => some (m, if m.done then none else some (route p who))
  | .route => some (m, some (if who.any m.flag then .push else .pushFront))
  | .pushFront =>
    who.map fun i =>
      (((m.setQueue i (some m.submitted :: m.queue i)).count).accept m.submitted, none)
  | .push =>
    some ((m.setMaster (m.master ++ [some m.submitted])).count, some (.notify m.submitted))
  | .notify t => (notifyOne p m w).map fun m' => (m'.accept t, none)

/-- The first part of the condition of the loop of a worker. -/
def firstTest (p : Pool) (m : Memory) (i : ℕ) : Bool :=
  match p.kind with
  | .steal => m.done
  | .globalSteal => m.flag i

/-- The second part of that condition. -/
def secondTest (p : Pool) (m : Memory) (i : ℕ) : Bool :=
  match p.kind with
  | .steal => m.flag i
  | .globalSteal => m.done

/-- What a worker does with an item that it has taken. -/
def afterPop : Option ℕ → Worker
  | none => .ending
  | some t => .running t none

/-- The queue at an index of the loop of `pop_task_from_other_thread_queue`. -/
def position (p : Pool) (i k : ℕ) : ℕ := (i + k + 1) % p.workerNum

/-- The loop of `pop_task_from_other_thread_queue`, before `try_steal`. -/
def stealNext (p : Pool) (m : Memory) (i k : ℕ) : Worker :=
  if p.workerNum ≤ k then .lock
  else if position p i k = i ∨ p.kind = .steal ∧ m.flag (position p i k) = true then .steal (k + 1)
  else .stealFrom k

/-- The predicate of the wait. -/
def ready (p : Pool) (m : Memory) : Bool :=
  m.done || !m.master.isEmpty ||
    match p.kind with
    | .steal => false
    | .globalSteal => (List.range p.workerNum).any fun j => !(m.queue j).isEmpty

/-- The next step of `worker_thread(i)`: its own queue, the master queue, the queues of the others,
and sleep.

`w` is the worker that a notification of this step wakes up. -/
def work (p : Pool) (m : Memory) (i : ℕ) (w : Option ℕ) : Option Memory :=
  if p.workerNum ≤ i then none
  else
    match m.worker i with
    | .start => some (m.setWorker i .top)
    | .top => some (m.setWorker i (if firstTest p m i then .exited else .second))
    | .second => some (m.setWorker i (if secondTest p m i then .exited else .popLocal))
    | .popLocal =>
      match m.queue i with
      | [] => some (m.setWorker i .popMaster)
      | item :: rest => some ((m.setQueue i rest).setWorker i (afterPop item))
    | .popMaster =>
      match m.master with
      | [] => some (m.setWorker i (.steal 0))
      | item :: rest => some ((m.setMaster rest).setWorker i (afterPop item))
    | .steal k => some (m.setWorker i (stealNext p m i k))
    | .stealFrom k =>
      match (m.queue (position p i k)).getLast? with
      | some (some t) =>
        some ((m.setQueue (position p i k) (m.queue (position p i k)).dropLast).setWorker i
          (.running t none))
      | _ => some (m.setWorker i (.steal (k + 1)))
    | .lock | .woken => if m.locked then none else some ((m.setLocked true).setWorker i .test)
    | .test =>
      some (if ready p m then (m.setLocked false).setWorker i .top else m.setWorker i .block)
    | .block => some ((m.setLocked false).setWorker i .asleep)
    | .asleep => none
    | .running t none => some ((m.execute t).setWorker i .top)
    | .running t (some s) =>
      (submit p m (some i) w s).map fun r => r.1.setWorker i (.running t r.2)
    | .ending => some ((Memory.setFlag p m i).setWorker i .top)
    | .exited => none

/-- A step that is not one of a call from outside. -/
inductive Tick where
  /-- A step of worker `i`; if it is `notify_one`, the worker `w` is woken. -/
  | work (i : ℕ) (w : Option ℕ)
  /-- The task that worker `i` executes calls `submit`. -/
  | submit (i : ℕ)
  /-- Worker `i` is woken for no reason. -/
  | spurious (i : ℕ)
  deriving DecidableEq, Repr

/-- The step of an event of the workers: a step of the loop, a task that begins a call of `submit`,
or a wake-up without cause. -/
def tick (p : Pool) (m : Memory) : Tick → Option Memory
  | .work i w => work p m i w
  | .submit i =>
    if p.workerNum ≤ i then none
    else
      match m.worker i with
      | .running t none => some (m.setWorker i (.running t (some p.kind.submit)))
      | _ => none
  | .spurious i =>
    if i < p.workerNum ∧ m.worker i = .asleep then some (m.setWorker i .woken) else none

/-! ## The calls -/

/-- A step of the first part of `stop` and `join`. -/
inductive Fill where
  | setFlag (i : ℕ)
  /-- `m_queues[i]->push_front(FuncWrapper())`. -/
  | pushFront (i : ℕ)
  /-- `m_master_work_queue.push(FuncWrapper())`. -/
  | push
  deriving DecidableEq, Repr

/-- A step of the last part of `stop` and `join`. -/
inductive Finish where
  | setDone
  | clearMaster
  | clear (i : ℕ)
  deriving DecidableEq, Repr

/-- Which function ends a pool. -/
inductive Close where
  | stop
  | join
  deriving DecidableEq, Repr

/-- Where a call is. `stop` and `join` have the same second part. -/
inductive Stage where
  | start
  | submit (s : Submit)
  /-- In `stop`, before the test of `m_done`. -/
  | stop
  /-- In `stop`, before `m_done = true`. -/
  | stopMark
  /-- In `join`, before the test of `m_done`. -/
  | join
  /-- In the loop of `join` that waits for the queues, before the size of the master queue. -/
  | poll
  /-- In that loop, before the size of the queue of a worker. -/
  | pollQueue (i : ℕ)
  /-- In `join`, before `m_done = true` in its first part. -/
  | joinMark
  | fill (how : Close) (todo : List Fill)
  /-- Before `m_cv.notify_all()`. -/
  | notifyAll (how : Close)
  /-- In the loop over the threads. -/
  | await (how : Close) (i : ℕ)
  | finish (how : Close) (todo : List Finish)
  | returned
  /-- `join` has returned, and before that the calls of `submit` for these tasks. -/
  | joined (ts : List ℕ)
  deriving DecidableEq, Repr

/-- How a call goes on. -/
inductive Action where
  | submit
  | stop
  | join
  /-- The next step; if it is `notify_one`, the worker `w` is woken. -/
  | go (w : Option ℕ)
  deriving DecidableEq, Repr

/-- The first part of `stop`, after `m_done` is set. -/
def stopFill (p : Pool) : List Fill :=
  (List.range p.workerNum).flatMap fun i => [.setFlag i, .pushFront i]

/-- The first part of `join`, after `m_done` is set if it is. -/
def joinFill (p : Pool) : List Fill :=
  (if p.untilEmpty then (List.range p.workerNum).map .setFlag else []) ++
    List.replicate p.workerNum .push

/-- The last part of `stop` and `join`. -/
def finishing (p : Pool) : Close → List Finish
  | .stop => .clearMaster :: (List.range p.workerNum).map .clear
  | .join => .setDone :: .clearMaster :: (List.range p.workerNum).map .clear

/-- A step of the first part. -/
def Fill.run (p : Pool) (m : Memory) : Fill → Memory
  | .setFlag i => Memory.setFlag p m i
  | .pushFront i => m.setQueue i (none :: m.queue i)
  | .push => m.setMaster (m.master ++ [none])

/-- A step of the last part. -/
def Finish.run (m : Memory) : Finish → Memory
  | .setDone => m.setDone
  | .clearMaster => m.setMaster []
  | .clear i => m.setQueue i []

/-- Where a call is after a call of `submit` has taken a step. -/
def afterSubmit : Option Submit → Stage
  | some s => .submit s
  | none => .returned

/-- Where a call that ends a pool is at last. -/
def Close.returned (m : Memory) : Close → Stage
  | .stop => .returned
  | .join => .joined m.accepted

/-- The next step of a call. The two classes differ in `submit`, in how `stop` sets `m_done`, and
in the flags. -/
def act (p : Pool) (m : Memory) : Stage → Action → Option (Memory × Stage)
  | .start, .submit => some (m, .submit p.kind.submit)
  | .start, .stop => some (m, .stop)
  | .start, .join => some (m, .join)
  | .submit s, .go w => (submit p m none w s).map fun r => (r.1, afterSubmit r.2)
  | .stop, .go _ =>
    if m.done then some (m, .returned)
    else
      match p.kind with
      | .steal => some (m, .stopMark)
      | .globalSteal => some (m.setDone, .fill .stop (stopFill p))
  | .stopMark, .go _ => some (m.setDone, .fill .stop (stopFill p))
  | .join, .go _ =>
    some (m, if m.done then .joined m.accepted
      else if p.untilEmpty then .poll else .fill .join (joinFill p))
  | .poll, .go _ => some (m, if m.master.length ≠ 0 then .poll else .pollQueue 0)
  | .pollQueue i, .go _ =>
    some (m, if p.workerNum ≤ i then .joinMark
      else if m.queue i ≠ [] then .poll else .pollQueue (i + 1))
  | .joinMark, .go _ => some (m.setDone, .fill .join (joinFill p))
  | .fill how (x :: todo), .go _ => some (x.run p m, .fill how todo)
  | .fill how [], .go _ => some (m, .notifyAll how)
  | .notifyAll how, .go _ => some (Memory.wakeAll p m, .await how 0)
  | .await how i, .go _ =>
    if p.workerNum ≤ i then some (m, .finish how (finishing p how))
    else if m.joined i then some (m, .await how (i + 1))
    else if m.worker i = .exited then some (m.join i, .await how (i + 1))
    else none
  | .finish how (x :: todo), .go _ => some (x.run m, .finish how todo)
  | .finish how [], .go _ => some (m, how.returned m)
  | _, _ => none

/-- The calls of a pool and its workers. -/
def program (p : Pool) : Program Memory Stage Action Tick where
  start := .start
  act := act p
  env := tick p

/-- A pool after its constructor, with any number of calls. -/
def system (p : Pool) : Transition.System (State Memory Stage) (Event Action Tick) :=
  (program p).system Memory.init

/-! ## What one step can do -/

/-- What `notify_one` can do. -/
lemma notifyOne_cases {p : Pool} {m m' : Memory} {w : Option ℕ} (h : notifyOne p m w = some m') :
    (∃ j < p.workerNum, m.worker j = .asleep ∧ m' = m.setWorker j .woken) ∨
      (∀ i < p.workerNum, m.worker i ≠ .asleep) ∧ m' = m := by
  cases w with
  | none =>
    obtain ⟨hnone, h⟩ := Option.ite_none_right_eq_some.1 h
    exact .inr ⟨hnone, (Option.some.inj h).symm⟩
  | some j =>
    obtain ⟨⟨hj, hasleep⟩, h⟩ := Option.ite_none_right_eq_some.1 h
    exact .inl ⟨j, hj, hasleep, (Option.some.inj h).symm⟩

/-- **What a step of `submit` can do**: one constructor for each branch, with its guard. -/
inductive Submits (p : Pool) (m : Memory) (who w : Option ℕ) :
    Submit → Memory → Option Submit → Prop where
  | flag {s : Option Submit} (hs : s = none ∨ s = some .done) : Submits p m who w .flag m s
  | throws (hd : m.done = true) : Submits p m who w .done m none
  | goOn (hd : m.done = false) : Submits p m who w .done m (some (route p who))
  | route {s : Submit} (hs : s = .push ∨ s = .pushFront) : Submits p m who w .route m (some s)
  | pushFront {i : ℕ} (hwho : who = some i) :
    Submits p m who w .pushFront
      (((m.setQueue i (some m.submitted :: m.queue i)).count).accept m.submitted) none
  | push :
    Submits p m who w .push (m.setMaster (m.master ++ [some m.submitted])).count
      (some (.notify m.submitted))
  | notify {m' : Memory} (t : ℕ) (hm : notifyOne p m w = some m') :
    Submits p m who w (.notify t) (m'.accept t) none

/-- Inversion of a step of `submit`.

**Proof sketch.** One case for each stage of the call, and in each for the branches of its step. -/
theorem submits_of_submit {p : Pool} {m m' : Memory} {who w : Option ℕ} {s : Submit}
    {s' : Option Submit} (h : submit p m who w s = some (m', s')) :
    Submits p m who w s m' s' := by
  cases s with
  | flag =>
    cases h
    refine .flag ?_
    split
    · exact .inl rfl
    · exact .inr rfl
  | done =>
    cases h
    split
    · exact .throws ‹_›
    · exact .goOn (Bool.eq_false_iff.2 ‹_›)
  | route =>
    cases h
    refine .route ?_
    split
    · exact .inl rfl
    · exact .inr rfl
  | pushFront =>
    obtain ⟨i, hi, h⟩ := Option.map_eq_some_iff.1 h
    cases h
    exact .pushFront hi
  | push =>
    cases h
    exact .push
  | notify t =>
    obtain ⟨m₁, hm, h⟩ := Option.map_eq_some_iff.1 h
    cases h
    exact .notify t hm

/-- The worker looks for a task. -/
def Worker.looks : Worker → Bool
  | .start | .top | .second | .popLocal | .popMaster | .steal _ | .stealFrom _ => true
  | _ => false

/-- **What a step of a worker can do**: one constructor for each branch of `work`, with its
guard. -/
inductive Works (p : Pool) (m : Memory) (i : ℕ) (w : Option ℕ) : Memory → Prop where
  /-- It finds nothing and goes on, or it leaves the loop. -/
  | move {v : Worker} (hi : i < p.workerNum) (hold : (m.worker i).looks = true)
    (hv : v.looks = true ∨ v = .lock ∨ v = .exited) : Works p m i w (m.setWorker i v)
  | popLocal {item : Option ℕ} {rest : List (Option ℕ)} (hi : i < p.workerNum)
    (hold : m.worker i = .popLocal) (hq : m.queue i = item :: rest) :
    Works p m i w ((m.setQueue i rest).setWorker i (afterPop item))
  | popMaster {item : Option ℕ} {rest : List (Option ℕ)} (hi : i < p.workerNum)
    (hold : m.worker i = .popMaster) (hq : m.master = item :: rest) :
    Works p m i w ((m.setMaster rest).setWorker i (afterPop item))
  | stolen {k t : ℕ} (hi : i < p.workerNum) (hold : m.worker i = .stealFrom k)
    (hq : (m.queue (position p i k)).getLast? = some (some t)) :
    Works p m i w ((m.setQueue (position p i k) (m.queue (position p i k)).dropLast).setWorker i
      (.running t none))
  | lock (hi : i < p.workerNum) (hold : m.worker i = .lock ∨ m.worker i = .woken)
    (hl : m.locked = false) : Works p m i w ((m.setLocked true).setWorker i .test)
  | goOn (hi : i < p.workerNum) (hold : m.worker i = .test) (hready : ready p m = true) :
    Works p m i w ((m.setLocked false).setWorker i .top)
  | block (hi : i < p.workerNum) (hold : m.worker i = .test) (hready : ready p m = false) :
    Works p m i w (m.setWorker i .block)
  | sleep (hi : i < p.workerNum) (hold : m.worker i = .block) :
    Works p m i w ((m.setLocked false).setWorker i .asleep)
  | execute {t : ℕ} (hi : i < p.workerNum) (hold : m.worker i = .running t none) :
    Works p m i w ((m.execute t).setWorker i .top)
  | submit {t : ℕ} {s : Submit} {m' : Memory} {s' : Option Submit} (hi : i < p.workerNum)
    (hold : m.worker i = .running t (some s)) (hs : Submits p m (some i) w s m' s') :
    Works p m i w (m'.setWorker i (.running t s'))
  | ending (hi : i < p.workerNum) (hold : m.worker i = .ending) :
    Works p m i w ((Memory.setFlag p m i).setWorker i .top)

/-- The next state of the loop of `pop_task_from_other_thread_queue`. -/
lemma looks_stealNext (p : Pool) (m : Memory) (i k : ℕ) :
    (stealNext p m i k).looks = true ∨ stealNext p m i k = .lock ∨
      stealNext p m i k = .exited := by
  unfold stealNext
  split
  · exact .inr (.inl rfl)
  · split <;> exact .inl rfl

/-- Inversion of a step of a worker.

**Proof sketch.** One case for each stage of a worker, and in each for the branches of its step. -/
theorem works_of_work {p : Pool} {m m' : Memory} {i : ℕ} {w : Option ℕ}
    (h : work p m i w = some m') : Works p m i w m' := by
  unfold work at h
  split at h
  · cases h
  rename_i hi
  replace hi : i < p.workerNum := not_le.1 hi
  split at h
  · cases h
    exact .move hi (by simp [*, Worker.looks]) (.inl rfl)
  · cases h
    refine .move hi (by simp [*, Worker.looks]) ?_
    split
    · exact .inr (.inr rfl)
    · exact .inl rfl
  · cases h
    refine .move hi (by simp [*, Worker.looks]) ?_
    split
    · exact .inr (.inr rfl)
    · exact .inl rfl
  · split at h
    · cases h
      exact .move hi (by simp [*, Worker.looks]) (.inl rfl)
    · cases h
      exact .popLocal hi ‹_› ‹_›
  · split at h
    · cases h
      exact .move hi (by simp [*, Worker.looks]) (.inl rfl)
    · cases h
      exact .popMaster hi ‹_› ‹_›
  · cases h
    exact .move hi (by simp [*, Worker.looks]) (looks_stealNext p m i _)
  · split at h
    · cases h
      exact .stolen hi ‹_› ‹_›
    · cases h
      exact .move hi (by simp [*, Worker.looks]) (.inl rfl)
  · obtain ⟨hl, h⟩ := Option.ite_none_left_eq_some.1 h
    cases h
    exact .lock hi (.inl ‹_›) (Bool.eq_false_iff.2 hl)
  · obtain ⟨hl, h⟩ := Option.ite_none_left_eq_some.1 h
    cases h
    exact .lock hi (.inr ‹_›) (Bool.eq_false_iff.2 hl)
  · split at h
    · cases h
      exact .goOn hi ‹_› ‹_›
    · cases h
      exact .block hi ‹_› (Bool.eq_false_iff.2 ‹_›)
  · cases h
    exact .sleep hi ‹_›
  · cases h
  · cases h
    exact .execute hi ‹_›
  · obtain ⟨⟨m₁, s'⟩, hs, rfl⟩ := Option.map_eq_some_iff.1 h
    exact .submit hi ‹_› (submits_of_submit hs)
  · cases h
    exact .ending hi ‹_›
  · cases h

/-- What an event of the workers can do. -/
inductive Ticks (p : Pool) (m : Memory) : Tick → Memory → Prop where
  | work {i : ℕ} {w : Option ℕ} {m' : Memory} (h : Works p m i w m') : Ticks p m (.work i w) m'
  | submit {i t : ℕ} (hi : i < p.workerNum) (hold : m.worker i = .running t none) :
    Ticks p m (.submit i) (m.setWorker i (.running t (some p.kind.submit)))
  | spurious {i : ℕ} (hi : i < p.workerNum) (hold : m.worker i = .asleep) :
    Ticks p m (.spurious i) (m.setWorker i .woken)

/-- Inversion of an event of the workers. -/
theorem ticks_of_tick {p : Pool} {m m' : Memory} {e : Tick} (h : tick p m e = some m') :
    Ticks p m e m' := by
  cases e with
  | work i w => exact .work (works_of_work h)
  | submit i =>
    obtain ⟨hi, h⟩ := Option.ite_none_left_eq_some.1 h
    split at h
    · cases h
      exact .submit (not_le.1 hi) ‹_›
    · cases h
  | spurious i =>
    obtain ⟨⟨hi, hold⟩, h⟩ := Option.ite_none_right_eq_some.1 h
    cases h
    exact .spurious hi hold

/-- **What a step of a call can do**: one constructor for each branch of `act`, with its guard. -/
inductive Acts (p : Pool) (m : Memory) : Stage → Action → Memory → Stage → Prop where
  | callSubmit : Acts p m .start .submit m (.submit p.kind.submit)
  | callStop : Acts p m .start .stop m .stop
  | callJoin : Acts p m .start .join m .join
  | submit {s : Submit} {w : Option ℕ} {m' : Memory} {s' : Option Submit}
    (hs : Submits p m none w s m' s') : Acts p m (.submit s) (.go w) m' (afterSubmit s')
  /-- `stop` on a pool that is done. -/
  | stopAgain (hd : m.done = true) (w : Option ℕ) : Acts p m .stop (.go w) m .returned
  /-- `stop` tests `m_done` apart from setting it. -/
  | stopTest (hk : p.kind = .steal) (w : Option ℕ) : Acts p m .stop (.go w) m .stopMark
  | stop (hd : m.done = false) (hk : p.kind = .globalSteal) (w : Option ℕ) :
    Acts p m .stop (.go w) m.setDone (.fill .stop (stopFill p))
  | stopMark (w : Option ℕ) :
    Acts p m .stopMark (.go w) m.setDone (.fill .stop (stopFill p))
  /-- `join` on a pool that is done. -/
  | joinAgain (hd : m.done = true) (w : Option ℕ) :
    Acts p m .join (.go w) m (.joined m.accepted)
  | join (hu : p.untilEmpty = true) (w : Option ℕ) : Acts p m .join (.go w) m .poll
  | hurry (hu : p.untilEmpty = false) (w : Option ℕ) :
    Acts p m .join (.go w) m (.fill .join (joinFill p))
  | poll {l : Stage} (hl : l = .poll ∨ l = .pollQueue 0) (w : Option ℕ) :
    Acts p m .poll (.go w) m l
  | pollQueue {l : Stage} (i : ℕ) (hl : l = .poll ∨ l = .pollQueue (i + 1) ∨ l = .joinMark)
    (w : Option ℕ) : Acts p m (.pollQueue i) (.go w) m l
  | joinMark (w : Option ℕ) :
    Acts p m .joinMark (.go w) m.setDone (.fill .join (joinFill p))
  | fill (how : Close) (x : Fill) (todo : List Fill) (w : Option ℕ) :
    Acts p m (.fill how (x :: todo)) (.go w) (x.run p m) (.fill how todo)
  | filled (how : Close) (w : Option ℕ) : Acts p m (.fill how []) (.go w) m (.notifyAll how)
  | notifyAll (how : Close) (w : Option ℕ) :
    Acts p m (.notifyAll how) (.go w) (Memory.wakeAll p m) (.await how 0)
  /-- The thread was joined by another call. -/
  | skip (how : Close) {i : ℕ} (hj : m.joined i = true) (w : Option ℕ) :
    Acts p m (.await how i) (.go w) m (.await how (i + 1))
  | await (how : Close) {i : ℕ} (hw : m.worker i = .exited) (w : Option ℕ) :
    Acts p m (.await how i) (.go w) (m.join i) (.await how (i + 1))
  | awaited (how : Close) {i : ℕ} (hi : p.workerNum ≤ i) (w : Option ℕ) :
    Acts p m (.await how i) (.go w) m (.finish how (finishing p how))
  | finish (how : Close) (x : Finish) (todo : List Finish) (w : Option ℕ) :
    Acts p m (.finish how (x :: todo)) (.go w) (x.run m) (.finish how todo)
  | finished (how : Close) (w : Option ℕ) :
    Acts p m (.finish how []) (.go w) m (how.returned m)

/-- Inversion of a step of a call.

**Proof sketch.** One case for each stage of a call, and in each for the branches of its step. -/
theorem acts_of_act {p : Pool} {m m' : Memory} {l l' : Stage} {a : Action}
    (h : act p m l a = some (m', l')) : Acts p m l a m' l' := by
  unfold act at h
  split at h
  · cases h
    exact .callSubmit
  · cases h
    exact .callStop
  · cases h
    exact .callJoin
  · obtain ⟨⟨m₁, s'⟩, hs, h⟩ := Option.map_eq_some_iff.1 h
    cases h
    exact .submit (submits_of_submit hs)
  · split at h
    · cases h
      exact .stopAgain ‹_› _
    · split at h
      · cases h
        exact .stopTest ‹_› _
      · cases h
        exact .stop (Bool.eq_false_iff.2 ‹_›) ‹_› _
  · cases h
    exact .stopMark _
  · cases h
    split
    · exact .joinAgain ‹_› _
    · split
      · exact .join ‹_› _
      · exact .hurry (Bool.eq_false_iff.2 ‹_›) _
  · cases h
    refine .poll ?_ _
    split
    · exact .inl rfl
    · exact .inr rfl
  · cases h
    refine .pollQueue _ ?_ _
    split
    · exact .inr (.inr rfl)
    · split
      · exact .inl rfl
      · exact .inr (.inl rfl)
  · cases h
    exact .joinMark _
  · cases h
    exact .fill _ _ _ _
  · cases h
    exact .filled _ _
  · cases h
    exact .notifyAll _ _
  · split at h
    · cases h
      exact .awaited _ ‹_› _
    · split at h
      · cases h
        exact .skip _ ‹_› _
      · split at h
        · cases h
          exact .await _ ‹_› _
        · cases h
  · cases h
    exact .finish _ _ _ _
  · cases h
    exact .finished _ _
  · cases h

/-! ## What a call knows -/

/-- A call that waits for the workers knows which of them have exited. -/
def Knows (p : Pool) (m : Memory) : Stage → Prop
  | .await _ k => ∀ i < k, i < p.workerNum → m.worker i = .exited
  | .finish _ _ => ∀ i < p.workerNum, m.worker i = .exited
  | _ => True

/-- Workers that have exited stay so. -/
def Rely (m m' : Memory) : Prop := ∀ i, m.worker i = .exited → m'.worker i = .exited

/-- A worker that has not exited goes on. -/
lemma rely_setWorker {m m' : Memory} {i : ℕ} (hm : m'.worker = m.worker)
    (hold : m.worker i ≠ .exited) (w : Worker) : Rely m (m'.setWorker i w) := by
  intro j hj
  have hne : j ≠ i := by
    rintro rfl
    exact hold hj
  show Function.update m'.worker i w j = .exited
  rw [Function.update_of_ne hne, hm]
  exact hj

/-- What `submit` does to the workers: it may wake one. -/
lemma worker_submits {p : Pool} {m m' : Memory} {who w : Option ℕ} {s : Submit}
    {s' : Option Submit} (h : Submits p m who w s m' s') :
    m'.worker = m.worker ∨
      ∃ j, m.worker j = .asleep ∧ m'.worker = Function.update m.worker j .woken := by
  cases h with
  | flag | throws | goOn | route | pushFront | push => exact .inl rfl
  | notify t hm =>
    rcases notifyOne_cases hm with ⟨j, hj, hasleep, rfl⟩ | ⟨-, rfl⟩
    · exact .inr ⟨j, hasleep, rfl⟩
    · exact .inl rfl

/-- A step of `submit` leaves the workers that have exited. -/
lemma rely_submits {p : Pool} {m m' : Memory} {who w : Option ℕ} {s : Submit}
    {s' : Option Submit} (h : Submits p m who w s m' s') : Rely m m' := by
  intro i hi
  rcases worker_submits h with heq | ⟨j, hj, heq⟩
  · rw [heq, hi]
  · have hne : i ≠ j := by
      rintro rfl
      rw [hi] at hj
      cases hj
    rw [heq, Function.update_of_ne hne, hi]

/-- The setting of a flag leaves everything else. -/
lemma setFlag_eq (p : Pool) (m : Memory) (i : ℕ) :
    ∃ flag, Memory.setFlag p m i = { m with flag := flag } := by
  unfold Memory.setFlag
  split
  · exact ⟨m.flag, rfl⟩
  · exact ⟨_, rfl⟩

/-- The workers are not changed by the first and the last part of `stop` and `join`. -/
lemma worker_fill (p : Pool) (m : Memory) (x : Fill) : (x.run p m).worker = m.worker := by
  cases x with
  | setFlag i =>
    obtain ⟨flag, h⟩ := setFlag_eq p m i
    rw [Fill.run, h]
  | pushFront i => rfl
  | push => rfl

/-- Clearing queues leaves the workers. -/
lemma worker_finish (m : Memory) (x : Finish) : (x.run m).worker = m.worker := by
  cases x <;> rfl

/-- Threads that were joined are over. -/
def Joined (m : Memory) : Prop := ∀ i, m.joined i = true → m.worker i = .exited

/-- What is not changed by the first part of `stop` and `join`. -/
lemma joined_fill (p : Pool) (m : Memory) (x : Fill) : (x.run p m).joined = m.joined := by
  cases x with
  | setFlag i =>
    obtain ⟨flag, h⟩ := setFlag_eq p m i
    rw [Fill.run, h]
  | pushFront i => rfl
  | push => rfl

/-- What is not changed by `submit`. -/
lemma joined_submits {p : Pool} {m m' : Memory} {who w : Option ℕ} {s : Submit}
    {s' : Option Submit} (h : Submits p m who w s m' s') : m'.joined = m.joined := by
  cases h with
  | flag | throws | goOn | route | pushFront | push => rfl
  | notify t hm => rcases notifyOne_cases hm with ⟨j, hj, hasleep, rfl⟩ | ⟨-, rfl⟩ <;> rfl

/-- A step of a call: the call knows what it has to, and the workers that have exited stay so.

**Proof sketch.** One case for each action. A call that has joined some workers has seen each of
them exit, and exiting is for good. -/
lemma act_knows {p : Pool} {m m' : Memory} {l l' : Stage} {a : Action} (h : Joined m)
    (hl : Knows p m l) (ha : act p m l a = some (m', l')) :
    Joined m' ∧ Knows p m' l' ∧ Rely m m' := by
  cases acts_of_act ha with
  | callSubmit | callStop | callJoin | stopAgain | stopTest | stop | stopMark | joinAgain | join
  | hurry | joinMark | filled => exact ⟨h, trivial, fun _ => id⟩
  | @submit s w _ s' hs =>
    have hrely := rely_submits hs
    refine ⟨fun i hi => hrely i (h i ?_), ?_, hrely⟩
    · rw [← joined_submits hs, hi]
    · cases s' <;> trivial
  | poll hl' w =>
    refine ⟨h, ?_, fun _ => id⟩
    rcases hl' with rfl | rfl <;> trivial
  | pollQueue i hl' w =>
    refine ⟨h, ?_, fun _ => id⟩
    rcases hl' with rfl | rfl | rfl <;> trivial
  | fill how x todo w =>
    refine ⟨fun i hi => ?_, trivial, fun i hi => ?_⟩
    · rw [joined_fill] at hi
      rw [worker_fill, h i hi]
    · rw [worker_fill, hi]
  | notifyAll how w =>
    have hrely : Rely m (Memory.wakeAll p m) := fun i hi => by simp [Memory.wakeAll, hi]
    exact ⟨fun i hi => hrely i (h i hi), fun i hi => absurd hi (Nat.not_lt_zero i), hrely⟩
  | @skip how i hj w =>
    refine ⟨h, fun k hk hkn => ?_, fun _ => id⟩
    rcases Nat.lt_succ_iff_lt_or_eq.1 hk with hk | rfl
    · exact hl k hk hkn
    · exact h k hj
  | @await how i hw w =>
    refine ⟨fun k hk => ?_, fun k hk hkn => ?_, fun _ => id⟩
    · by_cases hki : k = i
      · rw [hki]
        exact hw
      · exact h k (by simpa [Memory.join, hki] using hk)
    · rcases Nat.lt_succ_iff_lt_or_eq.1 hk with hk | rfl
      · exact hl k hk hkn
      · exact hw
  | awaited how hi w => exact ⟨h, fun k hk => hl k (by omega) hk, fun _ => id⟩
  | finish how x todo w =>
    have hworker := worker_finish m x
    have hjoined : (x.run m).joined = m.joined := by cases x <;> rfl
    refine ⟨fun i hi => ?_, fun i hi => ?_, fun i hi => ?_⟩
    · rw [hjoined] at hi
      rw [hworker, h i hi]
    · rw [hworker, hl i hi]
    · rw [hworker, hi]
  | finished how w =>
    refine ⟨h, ?_, fun _ => id⟩
    cases how <;> trivial

/-- A step of the workers leaves those that have exited.

**Proof sketch.** One case for each step. A worker that has exited takes none, and a step moves one
worker only. -/
lemma tick_rely {p : Pool} {m m' : Memory} {e : Tick} (h : tick p m e = some m') :
    m'.joined = m.joined ∧ Rely m m' := by
  have hne {i : ℕ} {v : Worker} (hv : m.worker i = v) (hv' : v ≠ .exited) :
      m.worker i ≠ .exited := hv ▸ hv'
  cases ticks_of_tick h with
  | @work i w _ hw =>
    cases hw with
    | move hi hold hv =>
      refine ⟨rfl, rely_setWorker rfl ?_ _⟩
      intro hexited
      rw [hexited] at hold
      cases hold
    | popLocal hi hold hq => exact ⟨rfl, rely_setWorker rfl (hne hold nofun) _⟩
    | popMaster hi hold hq => exact ⟨rfl, rely_setWorker rfl (hne hold nofun) _⟩
    | stolen hi hold hq => exact ⟨rfl, rely_setWorker rfl (hne hold nofun) _⟩
    | lock hi hold hl =>
      refine ⟨rfl, rely_setWorker rfl ?_ _⟩
      rcases hold with hold | hold <;> exact hne hold nofun
    | goOn hi hold hready => exact ⟨rfl, rely_setWorker rfl (hne hold nofun) _⟩
    | block hi hold hready => exact ⟨rfl, rely_setWorker rfl (hne hold nofun) _⟩
    | sleep hi hold => exact ⟨rfl, rely_setWorker rfl (hne hold nofun) _⟩
    | execute hi hold => exact ⟨rfl, rely_setWorker rfl (hne hold nofun) _⟩
    | @submit t s m₁ s' hi hold hs =>
      refine ⟨(joined_submits hs : m₁.joined = m.joined), fun j hj => ?_⟩
      have hji : j ≠ i := by
        rintro rfl
        rw [hold] at hj
        cases hj
      show Function.update m₁.worker i _ j = .exited
      rw [Function.update_of_ne hji]
      exact rely_submits hs j hj
    | ending hi hold =>
      obtain ⟨flag, hflag⟩ := setFlag_eq p m i
      rw [hflag]
      exact ⟨rfl, rely_setWorker rfl (hne hold nofun) _⟩
  | submit hi hold => exact ⟨rfl, rely_setWorker rfl (hne hold nofun) _⟩
  | spurious hi hold => exact ⟨rfl, rely_setWorker rfl (hne hold nofun) _⟩

/-- One step of the whole. -/
theorem step_knows {p : Pool} {s t : State Memory Stage} {e : Event Action Tick}
    (h : Joined s.shared ∧ ∀ l ∈ s.threads, Knows p s.shared l)
    (hstep : (system p).step s e = some t) :
    Joined t.shared ∧ ∀ l ∈ t.threads, Knows p t.shared l := by
  refine Program.step_rely (I := Joined) (Q := Knows p) (R := Rely) h ?_ ?_ ?_ ?_ hstep
  · trivial
  · intro i a l m l' _ _ hl ha
    exact act_knows h.1 hl ha
  · intro d m _ hd
    obtain ⟨hjoined, hrely⟩ := tick_rely hd
    refine ⟨fun i hi => hrely i (h.1 i ?_), hrely⟩
    rw [← hjoined, hi]
  · intro m l hrely hl
    cases l with
    | await how k => exact fun i hi hin => hrely i (hl i hi hin)
    | finish how todo => exact fun i hi => hrely i (hl i hi)
    | _ => trivial

end HkuUtils.StealPool
