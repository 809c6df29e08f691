import Mathlib.Logic.Function.Basic
import HkuUtils.Threads

set_option relaxedAutoImplicit false
set_option autoImplicit false

/-!
# The global pool with several queues

The class `GlobalMQThreadPool`. Each worker has a queue of its own and a flag in its thread, whose
address it registers when it starts. Who ends the pool sets the flags that are registered and pushes
one null task to each queue.

## Main definitions

* `HkuUtils.GlobalMQPool.Memory` — the members of a pool, its workers and the call of `join`.
* `HkuUtils.GlobalMQPool.work` — the function `worker_thread`.
* `HkuUtils.GlobalMQPool.joinStep` — the function `join`.
* `HkuUtils.GlobalMQPool.act`, `program` — the function `submit`, called by any number of threads.

## Design

The operations of a queue and every access of a flag are atomic, and `wait_and_pop` is a step that
is possible when the queue is not empty. The constructor is over, but the workers need not have
started. There is one call of `join` and none of `stop`, since nothing protects `m_threads` against
a second one. A task may submit as well; then `submit` reads the flag of the worker. `none` is a
null task.
-/

namespace HkuUtils.GlobalMQPool

open Threads

/-! ## The members -/

/-- A pool, as it was constructed. -/
structure Pool where
  /-- `m_worker_num`. -/
  workerNum : ℕ
  /-- `m_runnging_until_empty`. -/
  untilEmpty : Bool

/-- Where a worker is in `worker_thread`. Each access to `m_done`, to a flag or to a queue is a
step of its own. -/
inductive Worker where
  /-- Before `m_interrupt_flags[index] = &m_thread_need_stop`. -/
  | starting
  /-- Before the condition of the loop. -/
  | top
  /-- In the condition of the loop, after `m_thread_need_stop.isSet()` was true. -/
  | flagged
  /-- In `wait_and_pop`. -/
  | waiting
  /-- In `task()`. -/
  | running (t : ℕ)
  /-- Before `m_thread_need_stop.set()`. -/
  | ending
  /-- Before `m_interrupt_flags[index] = nullptr`. -/
  | leaving
  | exited
  deriving DecidableEq, Repr

/-- Where the call of `join` is. It waits for the queues to be empty and sets `m_done` and the
flags, or does nothing of this, and then pushes the null tasks and waits for the threads. -/
inductive Join where
  | idle
  /-- Before the test of `m_done`. -/
  | test
  /-- In the loop that waits for the queues to be empty, before `m_queues[i]->size()`. -/
  | poll (i : ℕ)
  /-- Before `m_done = true` in the first part. -/
  | mark
  /-- In the loop over the flags. -/
  | setFlag (i : ℕ)
  /-- In the loop over the null tasks. -/
  | pushNull (i : ℕ)
  /-- In the loop over the threads. -/
  | await (i : ℕ)
  /-- In the loop over the queues. -/
  | clear (i : ℕ)
  /-- Before the last `m_done = true`. -/
  | finish
  | returned
  deriving DecidableEq, Repr

/-- The members of a pool, its workers, the call of `join`, and who has taken a null task. -/
structure Memory where
  /-- `m_done`. -/
  done : Bool
  /-- `m_thread_need_stop` of a worker. -/
  flag : ℕ → Bool
  /-- `m_interrupt_flags[i]` is not null. -/
  registered : ℕ → Bool
  /-- `m_queues`. -/
  queue : ℕ → List (Option ℕ)
  worker : ℕ → Worker
  join : Join
  /-- How many tasks were pushed. -/
  submitted : ℕ
  /-- The worker has taken a null task. -/
  ended : ℕ → Bool

namespace Memory

/-- A pool after its constructor. -/
def init : Memory :=
  ⟨false, fun _ => false, fun _ => false, fun _ => [], fun _ => .starting, .idle, 0,
    fun _ => false⟩

/-- A flag is set. -/
def setFlag (m : Memory) (i : ℕ) : Memory := { m with flag := Function.update m.flag i true }

/-- `m_interrupt_flags[i]` is written. -/
def register (m : Memory) (i : ℕ) (b : Bool) : Memory :=
  { m with registered := Function.update m.registered i b }

/-- The content of a queue is replaced. -/
def setQueue (m : Memory) (i : ℕ) (items : List (Option ℕ)) : Memory :=
  { m with queue := Function.update m.queue i items }

/-- `push`. -/
def push (m : Memory) (i : ℕ) (item : Option ℕ) : Memory := m.setQueue i (m.queue i ++ [item])

/-- A worker goes on. -/
def setWorker (m : Memory) (i : ℕ) (w : Worker) : Memory :=
  { m with worker := Function.update m.worker i w }

/-- The call of `join` goes on. -/
def setJoin (m : Memory) (j : Join) : Memory := { m with join := j }

/-- A worker takes a null task. -/
def takeNull (m : Memory) (i : ℕ) : Memory := { m with ended := Function.update m.ended i true }

end Memory

/-! ## The workers -/

/-- The next step of `worker_thread(i)`. In the loop it tests its flag and `m_done`, and waits at
its queue for a task. -/
def work (p : Pool) (m : Memory) (i : ℕ) : Option Memory :=
  if p.workerNum ≤ i then none
  else
    match m.worker i with
    | .starting => some ((m.register i true).setWorker i .top)
    | .top => some (m.setWorker i (if m.flag i then .flagged else .waiting))
    | .flagged => some (m.setWorker i (if m.done then .leaving else .waiting))
    | .waiting =>
      match m.queue i with
      | [] => none
      | none :: rest => some (((m.setQueue i rest).takeNull i).setWorker i .ending)
      | some t :: rest => some ((m.setQueue i rest).setWorker i (.running t))
    | .running _ => some (m.setWorker i .top)
    | .ending => some ((m.setFlag i).setWorker i .top)
    | .leaving => some ((m.register i false).setWorker i .exited)
    | .exited => none

/-! ## The calls -/

/-- The next step of `join`. In a pool that does not run until it is empty, `m_done` is set only
behind the wait for the threads. -/
def joinStep (p : Pool) (m : Memory) : Option Memory :=
  match m.join with
  | .idle => some (m.setJoin .test)
  | .test =>
    some (m.setJoin (if m.done then .returned else if p.untilEmpty then .poll 0 else .pushNull 0))
  | .poll i =>
    some (m.setJoin
      (if p.workerNum ≤ i then .mark else if m.queue i = [] then .poll (i + 1) else .poll 0))
  | .mark => some ({ m with done := true }.setJoin (.setFlag 0))
  | .setFlag i =>
    some (if p.workerNum ≤ i then m.setJoin (.pushNull 0)
      else (if m.registered i then m.setFlag i else m).setJoin (.setFlag (i + 1)))
  | .pushNull i =>
    some (if p.workerNum ≤ i then m.setJoin (.await 0)
      else (m.push i none).setJoin (.pushNull (i + 1)))
  | .await i =>
    if p.workerNum ≤ i then some (m.setJoin (.clear 0))
    else if m.worker i = .exited then some (m.setJoin (.await (i + 1)))
    else none
  | .clear i =>
    some (if p.workerNum ≤ i then m.setJoin .finish
      else (m.setQueue i []).setJoin (.clear (i + 1)))
  | .finish => some ({ m with done := true }.setJoin .returned)
  | .returned => none

/-- Where a call of `submit` is. -/
inductive Submit where
  | start
  /-- After the test of the flag of the calling thread. -/
  | admitted
  /-- In the loop over the queues. -/
  | scan (i index : ℕ) (minCount : Option ℕ)
  | push (i : ℕ)
  | returned
  deriving DecidableEq, Repr

/-- How a call of `submit` goes on: it is made by a worker or by another thread, or it goes on. -/
inductive Action where
  | submit (caller : Option ℕ)
  | go
  deriving DecidableEq, Repr

/-- The next step of `submit`, with the size of a queue; `none` is the largest number. -/
def scan (p : Pool) (m : Memory) (i index : ℕ) (minCount : Option ℕ) : Submit :=
  if p.workerNum ≤ i then .push index
  else if (m.queue i).length = 0 then .push i
  else if minCount.all ((m.queue i).length < ·) then .scan (i + 1) i (some (m.queue i).length)
  else .scan (i + 1) index minCount

/-- The next step of a call of `submit`. -/
def act (p : Pool) (m : Memory) : Submit → Action → Option (Memory × Submit)
  | .start, .submit caller => some (m, if caller.any m.flag then .returned else .admitted)
  | .admitted, .go => some (m, if m.done then .returned else .scan 0 0 none)
  | .scan i index minCount, .go => some (m, scan p m i index minCount)
  | .push i, .go =>
    if p.workerNum ≤ i then none
    else some ({ m.push i (some m.submitted) with submitted := m.submitted + 1 }, .returned)
  | _, _ => none

/-- Who takes a step besides the calls of `submit`. -/
inductive Turn where
  | worker (i : ℕ)
  | join
  deriving DecidableEq, Repr

/-- A step of a worker or of `join`. -/
def turn (p : Pool) (m : Memory) : Turn → Option Memory
  | .worker i => work p m i
  | .join => joinStep p m

/-- The calls of a pool and its workers. -/
def program (p : Pool) : Program Memory Submit Action Turn where
  start := .start
  act := act p
  env := turn p

/-- A pool after its constructor, with one call of `join` and any number of calls of `submit`. -/
def system (p : Pool) : Transition.System (State Memory Submit) (Event Action Turn) :=
  (program p).system Memory.init

end HkuUtils.GlobalMQPool
