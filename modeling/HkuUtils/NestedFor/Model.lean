import Mathlib.Logic.Function.Basic
import HkuUtils.Algorithm.Ranges
import HkuUtils.Transition

set_option relaxedAutoImplicit false
set_option autoImplicit false

/-!
# Nested parallel loops on the global pool

`global_parallel_for_index` and its variants submit their tasks to the global
`GlobalStealThreadPool` and help with its tasks until their own are done. The body of a task may
call them again, and what a thread helps with is executed on top of the call that waits.

## Main definitions

* `HkuUtils.NestedFor.Code` — a body, with its calls of the functions.
* `HkuUtils.NestedFor.globalParallelForIndex` and the three others — the calls.
* `HkuUtils.NestedFor.State` — the queues of the pool, the futures and the stacks of the threads.
* `HkuUtils.NestedFor.step` — the next step of a thread.
* `HkuUtils.NestedFor.system` — the workers and any number of other threads.

## Main results

* `HkuUtils.NestedFor.steps_of_step` — what one step can do.

## Design

* The operations of a queue and the test of a future are atomic. The pool is not being stopped, and
  there are no null tasks.
* A body is its tree of calls. What it does between two of them is left out, and of their results
  only whether an exception was thrown. The bodies of a tree are finite, the tree is so as well, but
  a call may have any number of tasks.
* A thread is its stack of frames, the current one first. A worker without a frame is in its own
  loop, and another thread begins with the frame of its own program.
* A worker that sleeps may wake up at any time, and so `wake_up` and `notify_one` are no steps.
* The numbers of the frames, in the order of their start, the thread that submitted a task and the
  tasks of the calls that have exited are only remembered.
-/

namespace HkuUtils.NestedFor

open Transition Algorithm

/-! ## The bodies -/

/-- What is left to do of a body: it returns, it throws, or it calls one of the functions with the
body `f` and goes on with `next`, which is told whether the call returns normally. -/
inductive Code where
  | done
  | throw
  | call (single enableNested : Bool) (start stop threshold : ℕ) (f : ℕ → Code)
    (next : Bool → Code)

namespace Code

/-- A body, and what is done after it. -/
def andThen : Code → (Bool → Code) → Code
  | .done, next => next true
  | .throw, next => next false
  | .call single enableNested start stop threshold f next, after =>
    .call single enableNested start stop threshold f fun ok => (next ok).andThen after

/-- The loop over some indices. It ends with the first exception. -/
def loop (f : ℕ → Code) : List ℕ → Code
  | [] => .done
  | i :: is => (f i).andThen fun ok => if ok then loop f is else .throw

end Code

/-- `global_parallel_for_index_void`. -/
def globalParallelForIndexVoid (start stop : ℕ) (f : ℕ → Code) (next : Bool → Code)
    (threshold : ℕ := 2) (enableNested : Bool := true) : Code :=
  .call false enableNested start stop threshold f next

/-- `global_parallel_for_index`. -/
def globalParallelForIndex (start stop : ℕ) (f : ℕ → Code) (next : Bool → Code)
    (threshold : ℕ := 2) (enableNested : Bool := true) : Code :=
  .call false enableNested start stop threshold f next

/-- `global_parallel_for_index_void_single`. -/
def globalParallelForIndexVoidSingle (start stop : ℕ) (f : ℕ → Code) (next : Bool → Code)
    (threshold : ℕ := 1) (enableNested : Bool := true) : Code :=
  .call true enableNested start stop threshold f next

/-- `global_parallel_for_index_single`. -/
def globalParallelForIndexSingle (start stop : ℕ) (f : ℕ → Code) (next : Bool → Code)
    (threshold : ℕ := 1) (enableNested : Bool := true) : Code :=
  .call true enableNested start stop threshold f next

/-! ## The threads and the pool -/

/-- The pool and the threads that use it. -/
structure Group where
  /-- `worker_num()`. -/
  workerNum : ℕ
  /-- `std::thread::hardware_concurrency()`. -/
  hardware : ℕ
  /-- The programs of the threads that are not workers. -/
  mains : List Code

/-- How many threads there are. The workers come first. -/
def Group.threads (g : Group) : ℕ := g.workerNum + g.mains.length

/-- A call that has submitted tasks. -/
structure Call where
  /-- `tasks`. -/
  futures : List ℕ
  next : Bool → Code

/-- Where a call is in `wait_for_all_non_blocking`. The Boolean tells the first call of
`run_available_task_once` in a round from the second. -/
inductive Wait where
  /-- In the loop over the futures. -/
  | check (todo : List ℕ)
  | popLocal (first : Bool)
  /-- In `pop_task_from_other_thread_queue`, with the index of its loop. -/
  | steal (first : Bool) (k : ℕ)
  | popMaster (first : Bool)
  /-- In `task()`. -/
  | helping (first : Bool)
  | sleep
  deriving DecidableEq, Repr

/-- Where a frame is. -/
inductive Point where
  | code (c : Code)
  /-- In the loop that submits the tasks, each with its indices. -/
  | submit (todo : List (List ℕ)) (f : ℕ → Code) (call : Call)
  | wait (w : Wait) (call : Call)
  /-- In the loop over `tasks`, before `get`. -/
  | get (todo : List ℕ) (call : Call)

/-- A task that was started, or the program of a thread. -/
structure Frame where
  task : Option ℕ
  no : ℕ
  point : Point

/-- Where a worker is that executes no task. -/
inductive Idle where
  | popLocal
  | popMaster
  /-- In `pop_task_from_other_thread_queue`, with the index of its loop. -/
  | steal (k : ℕ)
  | asleep
  deriving DecidableEq, Repr

/-- The pool, the futures and the threads. A thread has a stack of frames, since a task may call
the function again and help with others while it waits. -/
structure State where
  /-- How many tasks were submitted. -/
  submitted : ℕ
  /-- The body of a task. -/
  body : ℕ → Code
  /-- The futures that are ready, with whether the task has returned normally. -/
  result : ℕ → Option Bool
  /-- `m_master_work_queue`. -/
  master : List ℕ
  /-- `m_queues`. -/
  queue : ℕ → List ℕ
  idle : ℕ → Idle
  stack : ℕ → List Frame
  /-- How many frames were started. -/
  started : ℕ
  /-- Who submitted a task. -/
  home : ℕ → ℕ
  /-- The tasks of the calls that have exited. -/
  exited : List ℕ

/-- A queue of the pool. -/
inductive Source where
  /-- The front of the queue of a worker. -/
  | own (i : ℕ)
  /-- The back of the queue of a worker. -/
  | other (i : ℕ)
  | master

namespace State

/-- A frame starts for each thread that is not a worker. -/
def init (g : Group) : State where
  submitted := 0
  body := fun _ => .done
  result := fun _ => none
  master := []
  queue := fun _ => []
  idle := fun _ => .popLocal
  stack := fun i =>
    if i < g.workerNum then []
    else (g.mains[i - g.workerNum]?.map fun c => ⟨none, i - g.workerNum, .code c⟩).toList
  started := g.mains.length
  home := fun _ => 0
  exited := []

/-- The content of a queue is replaced. -/
def setQueue (s : State) (i : ℕ) (items : List ℕ) : State :=
  { s with queue := Function.update s.queue i items }

/-- The content of the master queue is replaced. -/
def setMaster (s : State) (items : List ℕ) : State := { s with master := items }

/-- A worker goes on in its loop. -/
def setIdle (s : State) (i : ℕ) (w : Idle) : State :=
  { s with idle := Function.update s.idle i w }

/-- The stack of a thread is replaced. -/
def setStack (s : State) (i : ℕ) (frames : List Frame) : State :=
  { s with stack := Function.update s.stack i frames }

/-- `try_pop` and `try_steal`. The own queue and the master queue are taken from the front, and
another one from the back. -/
def pop (s : State) : Source → Option (ℕ × State)
  | .own i =>
    match s.queue i with
    | [] => none
    | t :: rest => some (t, s.setQueue i rest)
  | .other i => (s.queue i).getLast?.map fun t => (t, s.setQueue i (s.queue i).dropLast)
  | .master =>
    match s.master with
    | [] => none
    | t :: rest => some (t, s.setMaster rest)

/-- A task starts on top of some frames. -/
def begin (s : State) (i t : ℕ) (frames : List Frame) : State :=
  { s.setStack i (⟨some t, s.started, .code (s.body t)⟩ :: frames) with started := s.started + 1 }

/-- `submit`. A worker pushes to the front of its own queue. -/
def push (g : Group) (s : State) (i : ℕ) (body : Code) : State :=
  { if i < g.workerNum then s.setQueue i (s.submitted :: s.queue i)
    else s.setMaster (s.master ++ [s.submitted]) with
    submitted := s.submitted + 1
    body := Function.update s.body s.submitted body
    home := Function.update s.home s.submitted i }

/-- The future of a task becomes ready. -/
def setResult (s : State) (task : Option ℕ) (ok : Bool) : State :=
  match task with
  | none => s
  | some t => { s with result := Function.update s.result t (some ok) }

/-- A call exits. -/
def leave (s : State) (call : Call) : State := { s with exited := s.exited ++ call.futures }

variable (s : State) (task : Option ℕ) (ok : Bool)

/-- A result leaves the queues as they are. -/
@[simp]
lemma setResult_queue : (s.setResult task ok).queue = s.queue := by
  cases task <;> rfl

/-- A result leaves the master queue as it is. -/
@[simp]
lemma setResult_master : (s.setResult task ok).master = s.master := by
  cases task <;> rfl

/-- A result leaves the places of the tasks as they are. -/
@[simp]
lemma setResult_home : (s.setResult task ok).home = s.home := by
  cases task <;> rfl

/-- A result leaves the stacks as they are. -/
@[simp]
lemma setResult_stack : (s.setResult task ok).stack = s.stack := by
  cases task <;> rfl

/-- A result leaves what was submitted as it is. -/
@[simp]
lemma setResult_submitted : (s.setResult task ok).submitted = s.submitted := by
  cases task <;> rfl

/-- A result leaves what was started as it is. -/
@[simp]
lemma setResult_started : (s.setResult task ok).started = s.started := by
  cases task <;> rfl

/-- A result leaves the workers that ended as they are. -/
@[simp]
lemma setResult_exited : (s.setResult task ok).exited = s.exited := by
  cases task <;> rfl

/-- A future that is ready stays so. -/
lemma result_setResult {t : ℕ} (ht : s.result t ≠ none) :
    (s.setResult task ok).result t ≠ none := by
  cases task with
  | none => exact ht
  | some u =>
    show Function.update s.result u (some ok) t ≠ none
    by_cases htu : t = u
    · rw [htu, Function.update_self]
      exact Option.some_ne_none ok
    · rwa [Function.update_of_ne htu]

/-- A new task leaves the stacks as they are. -/
@[simp]
lemma push_stack (g : Group) (i : ℕ) (body : Code) : (s.push g i body).stack = s.stack := by
  rw [push]
  split <;> rfl

/-- A new task leaves what was started as it is. -/
@[simp]
lemma push_started (g : Group) (i : ℕ) (body : Code) : (s.push g i body).started = s.started := by
  rw [push]
  split <;> rfl

/-- A new task leaves the workers that ended as they are. -/
@[simp]
lemma push_exited (g : Group) (i : ℕ) (body : Code) : (s.push g i body).exited = s.exited := by
  rw [push]
  split <;> rfl

end State

/-! ## The steps -/

/-- The indices of the tasks of a call. -/
def pieces (g : Group) (single : Bool) (start stop : ℕ) : List (List ℕ) :=
  if single then (indices start stop).map fun i => [i]
  else (parallelIndexRange g.hardware start stop g.workerNum).map fun r => indices r.1 r.2

/-- A call of one of the functions, up to the loop that submits the tasks. -/
def enter (g : Group) (i : ℕ) (single enableNested : Bool) (start stop threshold : ℕ)
    (f : ℕ → Code) (next : Bool → Code) : Point :=
  if stop ≤ start then .code (next true)
  else if stop - start < threshold ∨ enableNested = false ∧ i < g.workerNum then
    .code ((Code.loop f (indices start stop)).andThen next)
  else if pieces g single start stop = [] then .code (next true)
  else .submit (pieces g single start stop) f ⟨[], next⟩

/-- The start of `run_available_task_once`. -/
def attempt (g : Group) (i : ℕ) (first : Bool) : Wait :=
  if i < g.workerNum then .popLocal first else .popMaster first

/-- What a call does after the task that it has helped with. -/
def resume (g : Group) (i : ℕ) : Point → Point
  | .wait (.helping true) call => .wait (attempt g i false) call
  | .wait (.helping false) call => .wait (.check call.futures) call
  | point => point

/-- The frames below one that has ended. -/
def below (g : Group) (i : ℕ) : List Frame → List Frame
  | [] => []
  | F :: frames => { F with point := resume g i F.point } :: frames

/-- The queue at an index of the loop of `pop_task_from_other_thread_queue`. -/
def position (g : Group) (i k : ℕ) : ℕ := (i + k + 1) % g.workerNum

/-- The next step of a worker that executes no task: its own queue, the master queue, the queues of
the others, and sleep. -/
def stepIdle (g : Group) (s : State) (i : ℕ) : State :=
  match s.idle i with
  | .popLocal =>
    match s.pop (.own i) with
    | some (t, s') => (s'.setIdle i .popLocal).begin i t []
    | none => s.setIdle i .popMaster
  | .popMaster =>
    match s.pop .master with
    | some (t, s') => (s'.setIdle i .popLocal).begin i t []
    | none => s.setIdle i (.steal 0)
  | .steal k =>
    if g.workerNum ≤ k then s.setIdle i .asleep
    else if position g i k = i then s.setIdle i (.steal (k + 1))
    else
      match s.pop (.other (position g i k)) with
      | some (t, s') => (s'.setIdle i .popLocal).begin i t []
      | none => s.setIdle i (.steal (k + 1))
  | .asleep => s.setIdle i .popLocal

/-- Where a call looks for a task to help with, and where it goes on if there is none; or where it
goes on anyway. -/
def look (g : Group) (s : State) (i : ℕ) (call : Call) : Wait → Option (Source × Bool) × Point
  | .check [] => (none, .get call.futures call)
  | .check (t :: todo) =>
    (none, .wait (if (s.result t).isSome then .check todo else attempt g i true) call)
  | .popLocal first => (some (.own i, first), .wait (.steal first 0) call)
  | .steal first k =>
    if g.workerNum ≤ k then (none, .wait (.popMaster first) call)
    else if position g i k = i then (none, .wait (.steal first (k + 1)) call)
    else (some (.other (position g i k), first), .wait (.steal first (k + 1)) call)
  | .popMaster first =>
    (some (.master, first), if first then .get call.futures call else .wait .sleep call)
  | .helping first => (none, .wait (.helping first) call)
  | .sleep => (none, .wait (.check call.futures) call)

/-- The next step of a thread in a frame: the code of the task, the loop that submits, the wait
that helps, and the loop over the futures. -/
def stepFrame (g : Group) (s : State) (i : ℕ) (F : Frame) (rest : List Frame) : Option State :=
  match F.point with
  | .code .done => some ((s.setResult F.task true).setStack i (below g i rest))
  | .code .throw => some ((s.setResult F.task false).setStack i (below g i rest))
  | .code (.call single enableNested start stop threshold f next) =>
    some (s.setStack i
      ({ F with point := enter g i single enableNested start stop threshold f next } :: rest))
  | .submit [] _ call =>
    some (s.setStack i ({ F with point := .wait (.check call.futures) call } :: rest))
  | .submit (piece :: todo) f call =>
    some ((s.push g i (Code.loop f piece)).setStack i
      ({ F with point := .submit todo f ⟨call.futures ++ [s.submitted], call.next⟩ } :: rest))
  | .wait (.helping _) _ => none
  | .wait w call =>
    match (look g s i call w).1.bind fun r => (s.pop r.1).map fun x => (x, r.2) with
    | some ((t, s'), first) =>
      some (s'.begin i t ({ F with point := .wait (.helping first) call } :: rest))
    | none => some (s.setStack i ({ F with point := (look g s i call w).2 } :: rest))
  | .get [] call =>
    some ((s.leave call).setStack i ({ F with point := .code (call.next true) } :: rest))
  | .get (t :: todo) call =>
    (s.result t).map fun ok =>
      if ok then s.setStack i ({ F with point := .get todo call } :: rest)
      else (s.leave call).setStack i ({ F with point := .code (call.next false) } :: rest)

/-- The next step of a thread. -/
def step (g : Group) (s : State) (i : ℕ) : Option State :=
  match s.stack i with
  | [] => if i < g.workerNum then some (stepIdle g s i) else none
  | F :: rest => stepFrame g s i F rest

/-- The workers and the other threads, in any order of their steps. -/
def system (g : Group) : System State ℕ where
  init := .init g
  step := step g

/-! ## What one step can do -/

/-- **How a frame goes on by itself**, without touching what the threads share. -/
inductive Next (g : Group) (s : State) (i : ℕ) : Point → Point → Prop where
  | enter {single enableNested : Bool} {start stop threshold : ℕ} {f : ℕ → Code}
    {next : Bool → Code} :
    Next g s i (.code (.call single enableNested start stop threshold f next))
      (enter g i single enableNested start stop threshold f next)
  | wait {f : ℕ → Code} {call : Call} :
    Next g s i (.submit [] f call) (.wait (.check call.futures) call)
  | allReady {call : Call} : Next g s i (.wait (.check []) call) (.get call.futures call)
  | ready {t : ℕ} {todo : List ℕ} {call : Call} (h : s.result t ≠ none) :
    Next g s i (.wait (.check (t :: todo)) call) (.wait (.check todo) call)
  | attempt {t : ℕ} {todo : List ℕ} {call : Call} :
    Next g s i (.wait (.check (t :: todo)) call) (.wait (attempt g i true) call)
  | noLocal {first : Bool} {call : Call} (h : s.queue i = []) :
    Next g s i (.wait (.popLocal first) call) (.wait (.steal first 0) call)
  | steal {first : Bool} {k : ℕ} {call : Call} :
    Next g s i (.wait (.steal first k) call) (.wait (.steal first (k + 1)) call)
  | noOther {first : Bool} {k : ℕ} {call : Call} :
    Next g s i (.wait (.steal first k) call) (.wait (.popMaster first) call)
  | noTask {call : Call} (h : s.master = []) :
    Next g s i (.wait (.popMaster true) call) (.get call.futures call)
  | tired {call : Call} : Next g s i (.wait (.popMaster false) call) (.wait .sleep call)
  | sleep {call : Call} : Next g s i (.wait .sleep call) (.wait (.check call.futures) call)
  | got {t : ℕ} {todo : List ℕ} {call : Call} (h : s.result t ≠ none) :
    Next g s i (.get (t :: todo) call) (.get todo call)

/-- The future at which a call exits: there is none left, or the task has thrown. -/
def Last (s : State) (todo : List ℕ) : Prop :=
  todo = [] ∨ ∃ t behind, todo = t :: behind ∧ s.result t = some false

/-- **What a thread can do**: one constructor for each kind of step, with its guard. -/
inductive Steps (g : Group) (s : State) (i : ℕ) : State → Prop where
  | idle (hi : i < g.workerNum) (hstack : s.stack i = []) (w : Idle) : Steps g s i (s.setIdle i w)
  | begin (hi : i < g.workerNum) (hstack : s.stack i = []) {source : Source} {t : ℕ} {s' : State}
    (hpop : s.pop source = some (t, s')) : Steps g s i ((s'.setIdle i .popLocal).begin i t [])
  | finish {F : Frame} {rest : List Frame} (hstack : s.stack i = F :: rest) (ok : Bool)
    {c : Code} (hpoint : F.point = .code c) :
    Steps g s i ((s.setResult F.task ok).setStack i (below g i rest))
  | goOn {F : Frame} {rest : List Frame} (hstack : s.stack i = F :: rest) {point : Point}
    (hnext : Next g s i F.point point) :
    Steps g s i (s.setStack i ({ F with point := point } :: rest))
  | push {F : Frame} {rest : List Frame} (hstack : s.stack i = F :: rest) {piece : List ℕ}
    {todo : List (List ℕ)} {f : ℕ → Code} {call : Call}
    (hpoint : F.point = .submit (piece :: todo) f call) :
    Steps g s i ((s.push g i (Code.loop f piece)).setStack i
      ({ F with point := .submit todo f ⟨call.futures ++ [s.submitted], call.next⟩ } :: rest))
  | help {F : Frame} {rest : List Frame} (hstack : s.stack i = F :: rest) {w : Wait} {call : Call}
    (hpoint : F.point = .wait w call) {source : Source} {t : ℕ} {s' : State}
    (hpop : s.pop source = some (t, s')) (first : Bool) :
    Steps g s i (s'.begin i t ({ F with point := .wait (.helping first) call } :: rest))
  | leave {F : Frame} {rest : List Frame} (hstack : s.stack i = F :: rest) {todo : List ℕ}
    {call : Call} (hpoint : F.point = .get todo call) (hlast : Last s todo) (ok : Bool) :
    Steps g s i ((s.leave call).setStack i ({ F with point := .code (call.next ok) } :: rest))

variable {g : Group} {s : State} {i : ℕ}

/-- A worker finds its own queue empty. -/
lemma pop_own_eq_none : s.pop (.own i) = none ↔ s.queue i = [] := by
  rw [State.pop]
  cases s.queue i <;> simp

/-- A thread finds the master queue empty. -/
lemma pop_master_eq_none : s.pop .master = none ↔ s.master = [] := by
  rw [State.pop]
  cases s.master <;> simp

/-- What is popped is taken from one queue.

**Proof sketch.** A worker takes the first task of its own queue or of the master queue, or the
last one of the queue of another; what is left are the other tasks. -/
lemma pop_cases {source : Source} {t : ℕ} {s' : State} (h : s.pop source = some (t, s')) :
    (∃ j items, s' = s.setQueue j items ∧ (s.queue j).Perm (t :: items)) ∨
      ∃ items, s' = s.setMaster items ∧ s.master.Perm (t :: items) := by
  cases source with
  | own j =>
    rw [State.pop] at h
    split at h
    · cases h
    · next u rest hq =>
      cases h
      exact .inl ⟨j, rest, rfl, hq ▸ .refl _⟩
  | other j =>
    obtain ⟨u, hu, hs⟩ := Option.map_eq_some_iff.1 h
    cases hs
    obtain ⟨items, hq⟩ := List.getLast?_eq_some_iff.1 hu
    refine .inl ⟨j, (s.queue j).dropLast, rfl, ?_⟩
    rw [hq, List.dropLast_concat]
    exact List.perm_append_singleton t items
  | master =>
    rw [State.pop] at h
    split at h
    · cases h
    · next u rest hm =>
      cases h
      exact .inr ⟨rest, rfl, hm ▸ .refl _⟩

/-- A worker that executes no task goes on in its loop, or starts a task. -/
lemma steps_stepIdle (hi : i < g.workerNum) (hstack : s.stack i = []) :
    Steps g s i (stepIdle g s i) := by
  have hpop : ∀ source w, Steps g s i (match s.pop source with
      | some (t, s') => (s'.setIdle i .popLocal).begin i t []
      | none => s.setIdle i w) := by
    intro source w
    split
    · next h => exact .begin hi hstack h
    · exact .idle hi hstack w
  rw [stepIdle]
  split
  · exact hpop _ _
  · exact hpop _ _
  · split
    · exact .idle hi hstack _
    · split
      · exact .idle hi hstack _
      · exact hpop _ _
  · exact .idle hi hstack _

/-- A call that waits and finds nothing to help with goes on.

**Proof sketch.** One case for each place of the loop of waiting: a result is there or not, and
each of the queues that is looked at has nothing. -/
lemma next_look {w : Wait} {call : Call} (hw : ∀ first, w ≠ .helping first)
    (hnone : ∀ source first, (look g s i call w).1 = some (source, first) → s.pop source = none) :
    Next g s i (.wait w call) (look g s i call w).2 := by
  cases w with
  | check todo =>
    cases todo with
    | nil => exact .allReady
    | cons t todo =>
      rw [look]
      by_cases h : (s.result t).isSome
      · rw [if_pos h]
        exact .ready (Option.isSome_iff_ne_none.1 h)
      · rw [if_neg h]
        exact .attempt
  | popLocal first => exact .noLocal (pop_own_eq_none.1 (hnone _ _ rfl))
  | steal first k =>
    rw [look]
    split
    · exact .noOther
    · split <;> exact .steal
  | popMaster first =>
    cases first with
    | true => exact .noTask (pop_master_eq_none.1 (hnone _ _ rfl))
    | false => exact .tired
  | helping first => exact absurd rfl (hw first)
  | sleep => exact .sleep

/-- Inversion of a step.

**Proof sketch.** One case for each stack: without a frame the worker looks for a task, and
otherwise the innermost frame goes on from its point. In a call that waits, a task is found or not;
if it is, the worker helps with it. -/
theorem steps_of_step {s' : State} (h : step g s i = some s') : Steps g s i s' := by
  rw [step] at h
  split at h
  · next hstack =>
    split at h
    · next hi =>
      cases h
      exact steps_stepIdle hi hstack
    · cases h
  · next F rest hstack =>
    rw [stepFrame] at h
    split at h
    · next hpoint =>
      cases h
      exact .finish hstack true hpoint
    · next hpoint =>
      cases h
      exact .finish hstack false hpoint
    · next hpoint =>
      cases h
      exact .goOn hstack (hpoint ▸ .enter)
    · next hpoint =>
      cases h
      exact .goOn hstack (hpoint ▸ .wait)
    · next hpoint =>
      cases h
      exact .push hstack hpoint
    · cases h
    · next w call hw hpoint =>
      split at h
      · next t s₁ first heq =>
        cases h
        obtain ⟨r, -, hr⟩ := Option.bind_eq_some_iff.1 heq
        obtain ⟨x, hx, hxr⟩ := Option.map_eq_some_iff.1 hr
        obtain ⟨rfl, rfl⟩ := Prod.mk.inj hxr
        exact .help hstack hpoint hx r.2
      · next heq =>
        cases h
        refine .goOn hstack (hpoint ▸ next_look (fun first hf => hw first hf) ?_)
        intro source first hlook
        rw [hlook, Option.bind_some, Option.map_eq_none_iff] at heq
        exact heq
    · next hpoint =>
      cases h
      exact .leave hstack hpoint (.inl rfl) true
    · next t todo call hpoint =>
      obtain ⟨ok, hok, hs⟩ := Option.map_eq_some_iff.1 h
      cases ok with
      | true =>
        cases hs
        exact .goOn hstack (hpoint ▸ .got (hok ▸ Option.some_ne_none true))
      | false =>
        cases hs
        exact .leave hstack hpoint (.inr ⟨t, todo, rfl, hok⟩) false

end HkuUtils.NestedFor
