import Mathlib.Logic.Function.Basic
import HkuUtils.Threads

set_option relaxedAutoImplicit false
set_option autoImplicit false

/-!
# Thread pools with sentinels

The classes `ThreadPool` and `MQThreadPool`. The first has one queue for all workers, the second one
queue for each worker. Who ends a pool pushes null tasks to the same queues as the tasks, and a
worker that takes one of them ends.

## Main definitions

* `HkuUtils.ThreadPool.Pool` — the two classes with the arguments of their constructors.
* `HkuUtils.ThreadPool.Memory` — the members of a pool with its workers.
* `HkuUtils.ThreadPool.work` — the function `worker_thread`.
* `HkuUtils.ThreadPool.act`, `program` — the functions `submit`, `stop` and `join`, called by any
  number of threads.

## Main results

* `HkuUtils.ThreadPool.acts_of_act`, `works_of_work` — what one step can do.

## Design

The operations of a queue and every access of a flag are atomic, and `wait_and_pop` is a step that
is possible when the queue is not empty. The constructor is over and all workers have started. Tasks
are numbered in the order in which they are pushed, and `none` is a null task. A thread is one call,
and a task may make calls as well.
-/

namespace HkuUtils.ThreadPool

open Threads

/-! ## The members -/

/-- `ThreadPool` and `MQThreadPool`. -/
inductive Kind where
  | central
  | multi
  deriving DecidableEq, Repr

/-- A pool, as it was constructed. -/
structure Pool where
  kind : Kind
  /-- `m_worker_num`. -/
  workerNum : ℕ
  /-- `m_running_until_empty`. -/
  untilEmpty : Bool
  workerNum_pos : 0 < workerNum

/-- Where a worker is in `worker_thread`. Both parts of the condition of its loop are steps of
their own. -/
inductive Worker where
  /-- Before the condition of the loop. -/
  | top
  /-- In the condition of the loop, after `local_stop_flag->isSet()` was true. -/
  | flagged
  /-- In `wait_and_pop`. -/
  | waiting
  /-- In `task()`. -/
  | running (t : ℕ)
  /-- Before `local_stop_flag->set()`. -/
  | ending
  | exited
  deriving DecidableEq, Repr

/-- The worker has not left the loop. -/
def Worker.isLive : Worker → Bool
  | .top | .flagged | .waiting | .running _ => true
  | .ending | .exited => false

/-- The members of a pool, its workers, and what is remembered of its tasks. A null task is
`none`. -/
structure Memory where
  /-- `m_done`. -/
  done : Bool
  /-- `m_thread_need_stop`. -/
  flag : ℕ → Bool
  /-- `m_queues`; the one queue of `ThreadPool` has the number zero. -/
  queue : ℕ → List (Option ℕ)
  worker : ℕ → Worker
  /-- The threads that are not `joinable` any more. -/
  joined : ℕ → Bool
  /-- `m_mutex_join`. -/
  locked : Bool
  /-- How many tasks were pushed. -/
  submitted : ℕ
  /-- How many tasks had been pushed when `join` was last called. -/
  promised : ℕ
  /-- The tasks that were executed. -/
  executed : List ℕ

namespace Memory

/-- A pool after its constructor. -/
def init : Memory :=
  ⟨false, fun _ => false, fun _ => [], fun _ => .top, fun _ => false, false, 0, 0, []⟩

/-- `m_done = true`. -/
def setDone (m : Memory) : Memory := { m with done := true }

/-- `m_thread_need_stop[i].set()`. -/
def setFlag (m : Memory) (i : ℕ) : Memory := { m with flag := Function.update m.flag i true }

/-- The content of a queue is replaced. -/
def setQueue (m : Memory) (q : ℕ) (items : List (Option ℕ)) : Memory :=
  { m with queue := Function.update m.queue q items }

/-- `push`. -/
def push (m : Memory) (q : ℕ) (item : Option ℕ) : Memory := m.setQueue q (m.queue q ++ [item])

/-- A new task is pushed. -/
def submit (m : Memory) (q : ℕ) : Memory :=
  { m.push q (some m.submitted) with submitted := m.submitted + 1 }

/-- A worker goes on. -/
def setWorker (m : Memory) (i : ℕ) (w : Worker) : Memory :=
  { m with worker := Function.update m.worker i w }

/-- A task ends. -/
def execute (m : Memory) (t : ℕ) : Memory := { m with executed := m.executed ++ [t] }

/-- `m_threads[i].join()` returns. -/
def join (m : Memory) (i : ℕ) : Memory := { m with joined := Function.update m.joined i true }

/-- `m_mutex_join` is locked or unlocked. -/
def setLocked (m : Memory) (locked : Bool) : Memory := { m with locked := locked }

/-- `join` is called. -/
def promise (m : Memory) : Memory := { m with promised := m.submitted }

end Memory

/-! ## The workers -/

/-- The queue of a worker. -/
def Pool.queueOf (p : Pool) (i : ℕ) : ℕ :=
  match p.kind with
  | .central => 0
  | .multi => i

/-- The condition of the loop of a worker. -/
def loopTest (p : Pool) (m : Memory) (i : ℕ) : Worker :=
  match p.kind with
  | .central => if m.done then .exited else .waiting
  | .multi => if m.flag i then .flagged else .waiting

/-- What a worker does after a null task. -/
def afterNull (p : Pool) : Worker :=
  match p.kind with
  | .central => .exited
  | .multi => .ending

/-- The next step of `worker_thread(i)`. The two classes differ in which queue a worker takes from,
and in what a null task does. -/
def work (p : Pool) (m : Memory) (i : ℕ) : Option Memory :=
  if p.workerNum ≤ i then none
  else
    match m.worker i with
    | .top => some (m.setWorker i (loopTest p m i))
    | .flagged => some (m.setWorker i (if m.done then .exited else .waiting))
    | .waiting =>
      match m.queue (p.queueOf i) with
      | [] => none
      | none :: rest => some ((m.setQueue (p.queueOf i) rest).setWorker i (afterNull p))
      | some t :: rest => some ((m.setQueue (p.queueOf i) rest).setWorker i (.running t))
    | .running t => some ((m.execute t).setWorker i .top)
    | .ending => some ((m.setFlag i).setWorker i .exited)
    | .exited => none

/-! ## The calls -/

/-- The first part of `stop` and `join`. -/
inductive Fill where
  | setFlag (i : ℕ)
  /-- `push(FuncWrapper())`. -/
  | pushNull (q : ℕ)
  deriving DecidableEq, Repr

/-- The last part of `stop` and `join`. -/
inductive Finish where
  | setDone
  | clear (q : ℕ)
  deriving DecidableEq, Repr

/-- Which function ends a pool, and what it has promised. -/
inductive Close where
  | stop
  /-- The tasks below the number were submitted before the call. -/
  | join (promised : ℕ)
  deriving DecidableEq, Repr

/-- Where a call is. A call of `join` remembers how many tasks had been submitted when it began. -/
inductive Stage where
  | start
  /-- In `submit`, before the test of `m_done`. -/
  | submit
  /-- In the loop of `submit` over the queues. -/
  | scan (i index : ℕ) (minCount : Option ℕ)
  /-- In that loop, after `!m_thread_need_stop[i].isSet()` was true. -/
  | size (i index : ℕ) (minCount : Option ℕ)
  | push (q : ℕ)
  /-- In `stop`, before `m_done.exchange(true)`. -/
  | stop
  /-- In `join`, before the test of `m_done`. -/
  | join (promised : ℕ)
  /-- In `join`, before `m_done = true` in its first part. -/
  | mark (promised : ℕ)
  | fill (how : Close) (todo : List Fill)
  /-- Before `m_mutex_join` is locked. -/
  | lock (how : Close)
  /-- In the loop over the threads. -/
  | await (how : Close) (i : ℕ)
  | finish (how : Close) (todo : List Finish)
  | returned (promised : ℕ)
  deriving DecidableEq, Repr

/-- How a call goes on. -/
inductive Action where
  | submit
  | stop
  | join
  | go
  deriving DecidableEq, Repr

/-- What was promised by a call that ends a pool. -/
def Close.promised : Close → ℕ
  | .stop => 0
  | .join promised => promised

/-- The first part of `stop`. -/
def stopFill (p : Pool) : List Fill :=
  match p.kind with
  | .central => List.replicate p.workerNum (.pushNull 0)
  | .multi => (List.range p.workerNum).flatMap fun i => [.setFlag i, .pushNull i]

/-- The first part of `join`. -/
def joinFill (p : Pool) : List Fill :=
  match p.kind with
  | .central => List.replicate (2 * p.workerNum) (.pushNull 0)
  | .multi =>
    (if p.untilEmpty then [] else (List.range p.workerNum).map .setFlag) ++
      (List.range p.workerNum).map .pushNull

/-- The last part of `stop` and `join`. -/
def finishing (p : Pool) : Close → List Finish
  | .stop =>
    match p.kind with
    | .central => [.clear 0]
    | .multi => (List.range p.workerNum).map .clear
  | .join _ =>
    match p.kind with
    | .central => [.setDone, .clear 0]
    | .multi => [.setDone]

/-- A step of the first part. -/
def Fill.run (m : Memory) : Fill → Memory
  | .setFlag i => m.setFlag i
  | .pushNull q => m.push q none

/-- A step of the last part. -/
def Finish.run (m : Memory) : Finish → Memory
  | .setDone => m.setDone
  | .clear q => m.setQueue q []

/-- The next step of `submit`, in the loop over the queues. -/
def scan (p : Pool) (m : Memory) (i index : ℕ) (minCount : Option ℕ) : Stage :=
  if p.workerNum ≤ i then .push index
  else if m.flag i then .scan (i + 1) index minCount
  else .size i index minCount

/-- The next step of `submit`, with the size of a queue; `none` is the largest number. -/
def size (m : Memory) (i index : ℕ) (minCount : Option ℕ) : Stage :=
  let curCount := (m.queue i).length
  if curCount = 0 then .push i
  else if minCount.all (curCount < ·) then .scan (i + 1) i (some curCount)
  else .scan (i + 1) index minCount

/-- The next step of a call. In the class with a queue for each worker, `submit` looks for a short
queue first. -/
def act (p : Pool) (m : Memory) : Stage → Action → Option (Memory × Stage)
  | .start, .submit => some (m, .submit)
  | .start, .stop => some (m, .stop)
  | .start, .join => some (m.promise, .join m.submitted)
  | .submit, .go =>
    some (m, if m.done then .returned 0
      else match p.kind with
        | .central => .push 0
        | .multi => .scan 0 0 none)
  | .scan i index minCount, .go => some (m, scan p m i index minCount)
  | .size i index minCount, .go => some (m, size m i index minCount)
  | .push q, .go => some (m.submit q, .returned 0)
  | .stop, .go =>
    if m.done then some (m, .returned 0) else some (m.setDone, .fill .stop (stopFill p))
  | .join promised, .go =>
    some (m, if m.done then .returned promised
      else if p.untilEmpty then .fill (.join promised) (joinFill p) else .mark promised)
  | .mark promised, .go => some (m.setDone, .fill (.join promised) (joinFill p))
  | .fill how (x :: todo), .go => some (x.run m, .fill how todo)
  | .fill how [], .go => some (m, .lock how)
  | .lock how, .go => if m.locked then none else some (m.setLocked true, .await how 0)
  | .await how i, .go =>
    if p.workerNum ≤ i then some (m.setLocked false, .finish how (finishing p how))
    else if m.joined i then some (m, .await how (i + 1))
    else if m.worker i = .exited then some (m.join i, .await how (i + 1))
    else none
  | .finish how (x :: todo), .go => some (x.run m, .finish how todo)
  | .finish how [], .go => some (m, .returned how.promised)
  | _, _ => none

/-- The calls of a pool and its workers. -/
def program (p : Pool) : Program Memory Stage Action ℕ where
  start := .start
  act := act p
  env := work p

/-- A pool after its constructor, with any number of calls. -/
def system (p : Pool) : Transition.System (State Memory Stage) (Event Action ℕ) :=
  (program p).system Memory.init

/-! ## What one step can do -/

/-- The call is one of `submit`, and has not returned. -/
def Stage.isSubmit : Stage → Bool
  | .submit | .scan .. | .size .. | .push _ => true
  | _ => false

/-- **What a step of a call can do**: one constructor for each branch of `act`, with its guard. -/
inductive Acts (p : Pool) (m : Memory) : Stage → Action → Memory → Stage → Prop where
  | callSubmit : Acts p m .start .submit m .submit
  | callStop : Acts p m .start .stop m .stop
  | callJoin : Acts p m .start .join m.promise (.join m.submitted)
  /-- `submit` tests a flag or a size, or throws. -/
  | search {l l' : Stage} (hl : l.isSubmit = true) (hl' : l'.isSubmit = true ∨ l' = .returned 0) :
    Acts p m l .go m l'
  | push (q : ℕ) : Acts p m (.push q) .go (m.submit q) (.returned 0)
  /-- `stop` on a pool that is done. -/
  | stopAgain (hd : m.done = true) : Acts p m .stop .go m (.returned 0)
  | stop (hd : m.done = false) : Acts p m .stop .go m.setDone (.fill .stop (stopFill p))
  /-- `join` on a pool that is done. -/
  | joinAgain (hd : m.done = true) (k : ℕ) : Acts p m (.join k) .go m (.returned k)
  | join (hd : m.done = false) (hu : p.untilEmpty = true) (k : ℕ) :
    Acts p m (.join k) .go m (.fill (.join k) (joinFill p))
  | hurry (hu : p.untilEmpty = false) (k : ℕ) : Acts p m (.join k) .go m (.mark k)
  | mark (k : ℕ) : Acts p m (.mark k) .go m.setDone (.fill (.join k) (joinFill p))
  | fill (how : Close) (x : Fill) (todo : List Fill) :
    Acts p m (.fill how (x :: todo)) .go (x.run m) (.fill how todo)
  | filled (how : Close) : Acts p m (.fill how []) .go m (.lock how)
  | lock (how : Close) : Acts p m (.lock how) .go (m.setLocked true) (.await how 0)
  /-- The thread was joined by another call. -/
  | skip (how : Close) {i : ℕ} (hj : m.joined i = true) :
    Acts p m (.await how i) .go m (.await how (i + 1))
  | await (how : Close) {i : ℕ} (hw : m.worker i = .exited) :
    Acts p m (.await how i) .go (m.join i) (.await how (i + 1))
  | awaited (how : Close) {i : ℕ} (hi : p.workerNum ≤ i) :
    Acts p m (.await how i) .go (m.setLocked false) (.finish how (finishing p how))
  | finish (how : Close) (x : Finish) (todo : List Finish) :
    Acts p m (.finish how (x :: todo)) .go (x.run m) (.finish how todo)
  | finished (how : Close) : Acts p m (.finish how []) .go m (.returned how.promised)

/-- Looking for the shortest queue is a stage of `submit`. -/
lemma isSubmit_scan (p : Pool) (m : Memory) (i index : ℕ) (minCount : Option ℕ) :
    (scan p m i index minCount).isSubmit = true := by
  unfold scan
  split
  · rfl
  · split <;> rfl

/-- Looking at one queue is a stage of `submit`. -/
lemma isSubmit_size (m : Memory) (i index : ℕ) (minCount : Option ℕ) :
    (size m i index minCount).isSubmit = true := by
  simp only [size]
  split
  · rfl
  · split <;> rfl

/-- Inversion of a step of a call.

**Proof sketch.** One case for each stage of a call, and in each for the branches of its step. -/
theorem acts_of_act {p : Pool} {m m' : Memory} {l l' : Stage} {a : Action}
    (h : act p m l a = some (m', l')) : Acts p m l a m' l' := by
  unfold act at h
  split at h
  · cases h
    exact .callSubmit
  · cases h
    exact .callStop
  · cases h
    exact .callJoin
  · cases h
    refine .search rfl ?_
    split
    · exact .inr rfl
    · left
      cases p.kind <;> rfl
  · cases h
    exact .search rfl (.inl (isSubmit_scan p _ _ _ _))
  · cases h
    exact .search rfl (.inl (isSubmit_size _ _ _ _))
  · cases h
    exact .push _
  · split at h
    · cases h
      exact .stopAgain ‹_›
    · cases h
      exact .stop (Bool.eq_false_iff.2 ‹_›)
  · cases h
    split
    · exact .joinAgain ‹_› _
    · split
      · exact .join (Bool.eq_false_iff.2 ‹_›) ‹_› _
      · exact .hurry (Bool.eq_false_iff.2 ‹_›) _
  · cases h
    exact .mark _
  · cases h
    exact .fill _ _ _
  · cases h
    exact .filled _
  · split at h
    · cases h
    · cases h
      exact .lock _
  · split at h
    · cases h
      exact .awaited _ ‹_›
    · split at h
      · cases h
        exact .skip _ ‹_›
      · split at h
        · cases h
          exact .await _ ‹_›
        · cases h
  · cases h
    exact .finish _ _ _
  · cases h
    exact .finished _
  · cases h

/-- **What a step of a worker can do**: one constructor for each branch of `work`, with its
guard. -/
inductive Works (p : Pool) (m : Memory) (i : ℕ) : Memory → Prop where
  /-- It goes on in the condition of the loop or to its body. -/
  | move {w : Worker} (hi : i < p.workerNum) (hold : m.worker i = .top ∨ m.worker i = .flagged)
    (hw : w = .flagged ∨ w = .waiting) : Works p m i (m.setWorker i w)
  /-- It leaves the loop by its condition. -/
  | leave (hi : i < p.workerNum) (hold : m.worker i = .top ∨ m.worker i = .flagged)
    (hd : m.done = true) : Works p m i (m.setWorker i .exited)
  | null {rest : List (Option ℕ)} (hi : i < p.workerNum) (hold : m.worker i = .waiting)
    (hq : m.queue (p.queueOf i) = none :: rest) :
    Works p m i ((m.setQueue (p.queueOf i) rest).setWorker i (afterNull p))
  | take {t : ℕ} {rest : List (Option ℕ)} (hi : i < p.workerNum) (hold : m.worker i = .waiting)
    (hq : m.queue (p.queueOf i) = some t :: rest) :
    Works p m i ((m.setQueue (p.queueOf i) rest).setWorker i (.running t))
  | execute {t : ℕ} (hi : i < p.workerNum) (hold : m.worker i = .running t) :
    Works p m i ((m.execute t).setWorker i .top)
  | ending (hi : i < p.workerNum) (hold : m.worker i = .ending) :
    Works p m i ((m.setFlag i).setWorker i .exited)

/-- Inversion of a step of a worker.

**Proof sketch.** One case for each stage of a worker, and in each for the branches of its step. -/
theorem works_of_work {p : Pool} {m m' : Memory} {i : ℕ} (h : work p m i = some m') :
    Works p m i m' := by
  unfold work at h
  split at h
  · cases h
  rename_i hi
  replace hi : i < p.workerNum := not_le.1 hi
  split at h
  · rename_i hold
    cases h
    unfold loopTest
    split
    · split
      · exact .leave hi (.inl hold) ‹_›
      · exact .move hi (.inl hold) (.inr rfl)
    · split
      · exact .move hi (.inl hold) (.inl rfl)
      · exact .move hi (.inl hold) (.inr rfl)
  · rename_i hold
    cases h
    split
    · exact .leave hi (.inr hold) ‹_›
    · exact .move hi (.inr hold) (.inr rfl)
  · rename_i hold
    split at h
    · cases h
    · cases h
      exact .null hi hold ‹_›
    · cases h
      exact .take hi hold ‹_›
  · cases h
    exact .execute hi ‹_›
  · cases h
    exact .ending hi ‹_›
  · cases h

end HkuUtils.ThreadPool
