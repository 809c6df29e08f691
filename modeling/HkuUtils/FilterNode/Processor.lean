import HkuUtils.Algorithm.VoidLoops
import HkuUtils.FilterNode.Selection

set_option relaxedAutoImplicit false
set_option autoImplicit false

/-!
# The serial event processor

An `AsyncSerialEventProcessor` has a pool with one worker. A dispatched event becomes a task that
looks for the tree of the event and runs it. The queue of the pool keeps the order of the events,
and the destructor ends the pool with `join` or with `stop`.

## Main definitions

* `HkuUtils.FilterNode.Trees`, `addAction` — `m_trees`.
* `HkuUtils.FilterNode.Processor`, `processor` — a processor, its pool and its owner, who dispatches
  a list of events and then destroys the processor.
* `HkuUtils.FilterNode.trace` — what an event should do.
* `HkuUtils.FilterNode.InOrder` — the tasks are executed in the order of their submission.
* `HkuUtils.FilterNode.Serial` — what holds of a processor.

## Main results

* `HkuUtils.FilterNode.act_inOrder`, `work_inOrder`, `act_closes` — one step of the pool.
* `HkuUtils.FilterNode.step_serial` — one step of a processor.
* `HkuUtils.FilterNode.serial_and_lossless` — what a processor has done.

## Design

The pool is the one of `ThreadPool.Model`. The worker begins to run a tree in one step and ends in
another one, in which the run takes effect; a run does not throw (`run_selects`). The trees are
complete before the first event is dispatched.
-/

namespace HkuUtils.FilterNode

open Threads Transition ThreadPool

variable {E N D σ : Type}

/-! ## A processor -/

/-- `m_trees`. -/
abbrev Trees (E N : Type) : Type := E → Option (Node N)

/-- `addAction`: a child of the tree of the event, or its tree; a null pointer is refused. -/
def addAction [DecidableEq E] (trees : Trees E N) (event : E) :
    Option (Node N) → Except String (Trees E N)
  | none => .error "Input action is null!"
  | some action =>
    match trees event with
    | some tree => (tree.addChild (some action)).map fun t => Function.update trees event (some t)
    | none => .ok (Function.update trees event (some action))

/-- `new ThreadPool(1)`. -/
def serialPool : Pool := ⟨.central, 1, true, Nat.one_pos⟩

/-- What the worker does with the trees. -/
inductive Call (E D : Type) where
  | began (event : E) (data : D)
  | ended (event : E) (data : D)
  /-- The warning that there is no tree for the event. -/
  | unmatched (event : E)
  deriving DecidableEq, Repr

/-- Where the thread is that dispatches the events. It submits one task for each event to a pool
with one worker and then destroys the processor. -/
inductive Owner where
  /-- In the call of `submit` for event `i`. -/
  | dispatching (i : ℕ) (stage : Stage)
  /-- `submit` has thrown. -/
  | thrown
  /-- In `join` or `stop` in the destructor of the processor. -/
  | quitting (stage : Stage)
  /-- In the destructor of the pool. -/
  | closing (stage : Stage)
  | destroyed

/-- A processor with what it has done. -/
structure Processor (E N D σ : Type) where
  memory : Memory
  /-- The worker runs a tree. -/
  running : Bool
  calls : List (Call E D)
  /-- The state of the filters and processes, with their log. -/
  world : σ × List (Record N)
  owner : Owner

section Model

variable (b : Behaviour N D σ) (trees : Trees E N) (quitWait : Bool) (events : List (E × D))

/-- The next step of the owner. The calls of `submit`, `join` and `stop` are those of the pool,
stage by stage. -/
def stepOwner (s : Processor E N D σ) : Option (Processor E N D σ) :=
  match s.owner with
  | .dispatching i stage =>
    if events.length ≤ i then some { s with owner := .quitting .start }
    else if stage = .submit ∧ s.memory.done = true then some { s with owner := .thrown }
    else
      (act serialPool s.memory stage (if stage = .start then .submit else .go)).map fun r =>
        { s with
          memory := r.1
          owner := if r.2 = .returned 0 then .dispatching (i + 1) .start else .dispatching i r.2 }
  | .quitting (.returned _) => some { s with owner := .closing .start }
  | .quitting stage =>
    (act serialPool s.memory stage
      (if stage = .start then if quitWait then .join else .stop else .go)).map fun r =>
        { s with memory := r.1, owner := .quitting r.2 }
  | .closing (.returned _) => some { s with owner := .destroyed }
  | .closing stage =>
    if stage = .start ∧ s.memory.done = true then some { s with owner := .destroyed }
    else
      (act serialPool s.memory stage (if stage = .start then .join else .go)).map fun r =>
        { s with memory := r.1, owner := .closing r.2 }
  | .thrown => none
  | .destroyed => none

/-- The next step of the worker. In a task it looks for the tree, begins to run it, and ends. -/
def stepWorker (s : Processor E N D σ) : Option (Processor E N D σ) :=
  match s.memory.worker 0 with
  | .running t =>
    events[t]?.bind fun d =>
      match trees d.1 with
      | none => (work serialPool s.memory 0).map fun m =>
          { s with memory := m, calls := s.calls ++ [.unmatched d.1] }
      | some tree =>
        if s.running then
          (work serialPool s.memory 0).map fun m =>
            { s with
              memory := m
              running := false
              calls := s.calls ++ [.ended d.1 d.2]
              world := (run b d.2 tree s.world).2 }
        else some { s with running := true, calls := s.calls ++ [.began d.1 d.2] }
  | _ => (work serialPool s.memory 0).map fun m => { s with memory := m }

/-- Who takes the next step. -/
inductive Turn where
  | owner
  | worker

/-- A step of a processor. -/
def stepProcessor (s : Processor E N D σ) : Turn → Option (Processor E N D σ)
  | .owner => stepOwner quitWait events s
  | .worker => stepWorker b trees events s

/-- A processor after its constructor, and the events that will be dispatched. -/
def processor (w : σ) : System (Processor E N D σ) Turn where
  init := ⟨Memory.init, false, [], (w, []), .dispatching 0 .start⟩
  step := stepProcessor b trees quitWait events

end Model

/-! ## What an event should do -/

/-- The calls for an event. -/
def trace (trees : Trees E N) (d : E × D) : List (Call E D) :=
  if (trees d.1).isSome then [.began d.1 d.2, .ended d.1 d.2] else [.unmatched d.1]

/-- The effect of an event. -/
def effect (b : Behaviour N D σ) (trees : Trees E N) (world : σ × List (Record N)) (d : E × D) :
    σ × List (Record N) :=
  match trees d.1 with
  | none => world
  | some tree => (run b d.2 tree world).2

/-! ## The order of the tasks -/

variable {m m' : Memory} {l l' : Stage} {a : Action}

/-- The task that a worker executes. -/
def current : Worker → List ℕ
  | .running t => [t]
  | _ => []

/-- The tasks that were executed, the one that is being executed and those in the queue are the
submitted ones in their order. What is in the queue does not matter any more when the worker has
exited. -/
def InOrder (m : Memory) : Prop :=
  ∃ rest, m.executed ++ current (m.worker 0) ++ rest = List.range m.submitted ∧
    (m.worker 0 ≠ .exited → (m.queue 0).filterMap id = rest)

/-- Steps that do not concern the tasks. -/
lemma InOrder.same (h : InOrder m) (hexecuted : m'.executed = m.executed)
    (hworker : m'.worker 0 = m.worker 0) (hsubmitted : m'.submitted = m.submitted)
    (hqueue : m.worker 0 ≠ .exited → (m'.queue 0).filterMap id = (m.queue 0).filterMap id) :
    InOrder m' := by
  obtain ⟨rest, heq, hrest⟩ := h
  refine ⟨rest, by rw [hexecuted, hworker, hsubmitted, heq], fun hne => ?_⟩
  rw [hworker] at hne
  rw [hqueue hne, hrest hne]

/-- A step of a call keeps the order.

**Proof sketch.** One case for each action. A submission appends the next number to the queue and
to what was submitted, and null tasks are not counted. -/
lemma act_inOrder (h : InOrder m) (hl : Knows serialPool m l) (hpush : ∀ q, l = .push q → q = 0)
    (ha : act serialPool m l a = some (m', l')) : InOrder m' := by
  cases acts_of_act ha with
  | push q =>
    obtain rfl := hpush q rfl
    obtain ⟨rest, heq, hrest⟩ := h
    refine ⟨rest ++ [m.submitted], ?_, fun hne => ?_⟩
    · show m.executed ++ current (m.worker 0) ++ (rest ++ [m.submitted]) =
        List.range (m.submitted + 1)
      rw [← List.append_assoc, heq, List.range_succ]
    · have hqueue : (m.submit 0).queue 0 = m.queue 0 ++ [some m.submitted] := by
        simp [Memory.submit, Memory.push, Memory.setQueue]
      rw [hqueue, List.filterMap_append, hrest hne]
      rfl
  | fill how x todo =>
    cases x with
    | setFlag i => exact h.same rfl rfl rfl fun _ => rfl
    | pushNull q =>
      refine h.same rfl rfl rfl fun _ => ?_
      by_cases hq : q = 0
      · subst hq
        simp [Fill.run, Memory.push, Memory.setQueue]
      · simp [Fill.run, Memory.push, Memory.setQueue, Function.update_of_ne (Ne.symm hq)]
  | finish how x todo =>
    have hexited : m.worker 0 = .exited := hl 0 Nat.one_pos
    cases x with
    | setDone => exact h.same rfl rfl rfl fun _ => rfl
    | clear q => exact h.same rfl rfl rfl fun hne => absurd hexited hne
  | _ => exact h.same rfl rfl rfl fun _ => rfl

/-- The worker goes on without a task, before and after. -/
lemma InOrder.setWorker (h : InOrder m) {w : Worker} {items : List (Option ℕ)}
    (hold : current (m.worker 0) = []) (hw : current w = [])
    (hitems : w ≠ .exited → m.worker 0 ≠ .exited ∧ items = m.queue 0) :
    InOrder ((m.setQueue 0 items).setWorker 0 w) := by
  obtain ⟨rest, heq, hrest⟩ := h
  refine ⟨rest, ?_, ?_⟩
  · rw [hold] at heq
    simp only [Memory.setWorker, Memory.setQueue, Function.update_self, hw]
    exact heq
  · simp only [Memory.setWorker, Memory.setQueue, Function.update_self]
    intro hne
    obtain ⟨hlive, rfl⟩ := hitems hne
    exact hrest hlive

/-- A step of the worker keeps the order.

**Proof sketch.** One case for each step. A task goes from the front of the queue to the worker and
from there to the end of those that were executed, so their order stays. -/
lemma work_inOrder (h : InOrder m) (hw : work serialPool m 0 = some m') : InOrder m' := by
  have hsame : m.setQueue 0 (m.queue 0) = m := by simp [Memory.setQueue]
  cases works_of_work hw with
  | @move w hi hold hnew =>
    rw [← hsame]
    refine h.setWorker ?_ ?_ fun _ => ⟨?_, rfl⟩
    · rcases hold with hold | hold <;> rw [hold] <;> rfl
    · rcases hnew with rfl | rfl <;> rfl
    · rcases hold with hold | hold <;> simp [hold]
  | leave hi hold hd =>
    rw [← hsame]
    refine h.setWorker ?_ rfl fun hne => absurd rfl hne
    rcases hold with hold | hold <;> rw [hold] <;> rfl
  | null hi hold hq => exact h.setWorker (by rw [hold]; rfl) rfl fun hne => absurd rfl hne
  | @take t items hi hold hq =>
    obtain ⟨rest, heq, hrest⟩ := h
    have hrest' := hrest (by simp [hold])
    have hq' : m.queue 0 = some t :: items := hq
    rw [hq'] at hrest'
    have hsplit : rest = t :: items.filterMap id := by rw [← hrest']; rfl
    rw [hold, hsplit] at heq
    refine ⟨items.filterMap id, ?_, fun _ => ?_⟩
    · simp only [Memory.setWorker, Memory.setQueue, Function.update_self, current]
      rw [← heq]
      simp [current]
    · simp [Memory.setWorker, Memory.setQueue, serialPool, Pool.queueOf]
  | @execute t hi hold =>
    obtain ⟨rest, heq, hrest⟩ := h
    rw [hold] at heq
    refine ⟨rest, ?_, fun _ => hrest (by simp [hold])⟩
    simp only [Memory.setWorker, Memory.execute, Function.update_self, current]
    rw [← heq]
    simp [current]
  | ending hi hold =>
    rw [← hsame]
    exact h.setWorker (by rw [hold]; rfl) rfl fun hne => absurd rfl hne

/-- What was executed are the first tasks. -/
lemma InOrder.executed_eq (h : InOrder m) : m.executed = List.range m.executed.length ∧
    m.executed.length ≤ m.submitted := by
  obtain ⟨rest, heq, -⟩ := h
  have hlength := congrArg List.length heq
  simp only [List.length_append, List.length_range] at hlength
  refine ⟨?_, by omega⟩
  have htake := congrArg (List.take m.executed.length) heq
  rw [List.append_assoc, List.take_left, List.take_range] at htake
  rwa [Nat.min_eq_left (by omega)] at htake

/-- The task that is being executed is the next one. -/
lemma InOrder.running_eq (h : InOrder m) {t : ℕ} (ht : m.worker 0 = .running t) :
    t = m.executed.length ∧ t < m.submitted := by
  obtain ⟨rest, heq, -⟩ := h
  rw [ht] at heq
  have hget := congrArg (fun l => l[m.executed.length]?) heq
  have hlength := congrArg List.length heq
  simp only [List.length_append, List.length_range, current, List.length_singleton] at hlength
  have hlt : m.executed.length < m.submitted := by omega
  simp [current, List.getElem?_range hlt] at hget
  exact ⟨hget, hget ▸ hlt⟩

/-- No call changes a worker. -/
lemma act_worker {p : Pool} (ha : act p m l a = some (m', l')) : m'.worker = m.worker := by
  cases acts_of_act ha with
  | fill how x todo => cases x <;> rfl
  | finish how x todo => cases x <;> rfl
  | _ => rfl

/-- Only `submit` submits a task. -/
lemma act_submitted {p : Pool} (hpush : ∀ q, l ≠ .push q) (ha : act p m l a = some (m', l')) :
    m'.submitted = m.submitted := by
  cases acts_of_act ha with
  | push q => exact absurd rfl (hpush q)
  | fill how x todo => cases x <;> rfl
  | finish how x todo => cases x <;> rfl
  | _ => rfl

/-- The worker ends its task. -/
lemma work_running {t : ℕ} (ht : m.worker 0 = .running t) (hw : work serialPool m 0 = some m') :
    m' = (m.execute t).setWorker 0 .top := by
  have hpos : ¬ serialPool.workerNum ≤ 0 := by decide
  rw [work, if_neg hpos, ht] at hw
  exact (Option.some.inj hw).symm

/-- A worker without a task ends none. -/
lemma work_executed (hnone : ∀ t, m.worker 0 ≠ .running t) (hw : work serialPool m 0 = some m') :
    m'.executed = m.executed := by
  cases works_of_work hw with
  | @execute t hi hold => exact absurd hold (hnone t)
  | _ => rfl

/-! ## The end of the pool -/

/-- A call of `stop` or `join` that ends the pool: at first the pool is not done, and in the end the
worker has exited. -/
def Closes (m : Memory) (l : Stage) : Prop :=
  m.locked = Algorithm.isAwait l ∧
    match l with
    | .start | .stop | .join _ => m.done = false
    | .fill .. | .lock _ | .await .. | .finish .. => True
    | .returned _ => m.worker 0 = .exited
    | _ => False

/-- A step of a call that ends the pool. -/
lemma act_closes (h : Closes m l) (hl : Knows serialPool m l) (hsubmit : a ≠ .submit)
    (ha : act serialPool m l a = some (m', l')) : Closes m' l' := by
  obtain ⟨hlocked, hstage⟩ := h
  cases acts_of_act ha with
  | callSubmit => exact absurd rfl hsubmit
  | callStop | callJoin => exact ⟨hlocked, hstage⟩
  | search hs _ => cases l <;> first | exact hstage.elim | exact absurd hs Bool.false_ne_true
  | push q | mark k => exact hstage.elim
  | stopAgain hd | joinAgain hd k => exact absurd (hstage.symm.trans hd) Bool.false_ne_true
  | hurry hnot k => exact absurd hnot (by decide)
  | stop hd | join hd _ k => exact ⟨hlocked, trivial⟩
  | fill how x todo => exact ⟨by cases x <;> exact hlocked, trivial⟩
  | filled how | skip how _ | await how _ => exact ⟨hlocked, trivial⟩
  | lock how | awaited how _ => exact ⟨rfl, trivial⟩
  | finish how x todo => exact ⟨by cases x <;> exact hlocked, trivial⟩
  | finished how => exact ⟨hlocked, hl 0 Nat.one_pos⟩

/-- A call that ends the pool submits nothing. -/
lemma Closes.ne_push (h : Closes m l) (q : ℕ) : l ≠ .push q := by
  rintro rfl
  exact h.2

/-- A step of the worker leaves a call that ends the pool. -/
lemma Closes.work (h : Closes m l) (hsound : Sound serialPool m)
    (hw : work serialPool m 0 = some m') : Closes m' l := by
  obtain ⟨hlocked, hstage⟩ := h
  have hlocked' := work_locked hw
  have hdone := (work_submitted hw).2.2
  refine ⟨hlocked'.trans hlocked, ?_⟩
  cases l with
  | start | stop | join => exact hdone.trans hstage
  | returned k => exact (work_sound hsound hw).2.exited 0 hstage
  | _ => exact hstage

/-! ## What holds of a processor -/

/-- The worker has exited, and if the destructor waits all tasks were executed. -/
def Ended (quitWait : Bool) (n : ℕ) (m : Memory) : Prop :=
  m.worker 0 = .exited ∧ (quitWait = true → ∀ t < n, t ∈ m.executed)

/-- What the owner of a processor has done so far, of `n` events. Behind the destructor the worker
has exited, and if the destructor waits all events were processed. -/
def Owner.Fits (quitWait : Bool) (n : ℕ) (m : Memory) : Owner → Prop
  | .dispatching i stage =>
    (Fresh serialPool m ∧ m.locked = false) ∧ m.submitted = i ∧ Submits serialPool stage ∧
      ∀ k, stage ≠ .returned k
  | .thrown => False
  | .quitting stage =>
    Knows serialPool m stage ∧ Closes m stage ∧ (quitWait = true → Algorithm.Joins stage ∧
      (stage = .start ∧ Fresh serialPool m ∧ m.submitted = n ∨ Joining serialPool n m stage))
  | .closing stage =>
    Knows serialPool m stage ∧ Algorithm.Joins stage ∧ m.locked = Algorithm.isAwait stage ∧
      Ended quitWait n m
  | .destroyed => Ended quitWait n m

/-- The calls for the first `k` events. -/
def callsBefore (trees : Trees E N) (events : List (E × D)) (k : ℕ) : List (Call E D) :=
  (events.take k).flatMap (trace trees)

/-- The effect of the first `k` events. -/
def worldBefore (b : Behaviour N D σ) (trees : Trees E N) (events : List (E × D)) (w : σ) (k : ℕ) :
    σ × List (Record N) :=
  (events.take k).foldl (effect b trees) (w, [])

/-- What holds of a processor: what was done is what the events of the executed tasks should do, and
the worker may have begun with the next one. -/
structure Serial (b : Behaviour N D σ) (trees : Trees E N) (quitWait : Bool)
    (events : List (E × D)) (w : σ) (s : Processor E N D σ) : Prop where
  sound : Sound serialPool s.memory
  inOrder : InOrder s.memory
  bounded : s.memory.submitted ≤ events.length
  calls : s.running = false ∧ s.calls = callsBefore trees events s.memory.executed.length ∨
    s.running = true ∧ ∃ d tree, s.memory.worker 0 = .running s.memory.executed.length ∧
      events[s.memory.executed.length]? = some d ∧ trees d.1 = some tree ∧
      s.calls = callsBefore trees events s.memory.executed.length ++ [.began d.1 d.2]
  world : s.world = worldBefore b trees events w s.memory.executed.length
  fits : s.owner.Fits quitWait events.length s.memory

variable {b : Behaviour N D σ} {trees : Trees E N} {quitWait : Bool} {events : List (E × D)} {w : σ}

/-- The calls for one more event. -/
lemma callsBefore_succ {k : ℕ} {d : E × D} (hd : events[k]? = some d) :
    callsBefore trees events (k + 1) = callsBefore trees events k ++ trace trees d := by
  rw [callsBefore, List.take_add_one, hd, List.flatMap_append]
  simp [callsBefore]

/-- The effect of one more event. -/
lemma worldBefore_succ {k : ℕ} {d : E × D} (hd : events[k]? = some d) :
    worldBefore b trees events w (k + 1) = effect b trees (worldBefore b trees events w k) d := by
  rw [worldBefore, List.take_add_one, hd, List.foldl_append]
  rfl

/-- The calls for the first events come first. -/
lemma callsBefore_isPrefix (trees : Trees E N) (events : List (E × D)) (k : ℕ) :
    callsBefore trees events k <+: events.flatMap (trace trees) := by
  refine ⟨(events.drop k).flatMap (trace trees), ?_⟩
  rw [callsBefore, ← List.flatMap_append, List.take_append_drop]

/-- A step of the worker leaves what the owner has done.

**Proof sketch.** One case for each stage of the owner. The worker submits nothing, takes no lock,
and leaves executed what was executed. -/
lemma Owner.Fits.work {n : ℕ} {o : Owner} (hsound : Sound serialPool m) (h : o.Fits quitWait n m)
    (hw : work serialPool m 0 = some m') : o.Fits quitWait n m' := by
  have hrely := (work_sound hsound hw).2
  have hlocked := work_locked hw
  have hsubmitted := (work_submitted hw).1
  have hended : Ended quitWait n m → Ended quitWait n m' := fun h =>
    ⟨hrely.exited 0 h.1, fun hq t ht => hrely.executed t (h.2 hq t ht)⟩
  cases o with
  | dispatching i stage =>
    exact ⟨⟨work_fresh h.1.1 hw, hlocked.trans h.1.2⟩, hsubmitted.trans h.2.1, h.2.2⟩
  | thrown => exact h
  | quitting stage =>
    obtain ⟨hknows, hcloses, hwait⟩ := h
    refine ⟨hrely.knows hknows, hcloses.work hsound hw, fun hq => ?_⟩
    obtain ⟨hjoins, hcase⟩ := hwait hq
    refine ⟨hjoins, ?_⟩
    rcases hcase with ⟨hstart, hfresh, hsub⟩ | hjoining
    · exact .inl ⟨hstart, work_fresh hfresh hw, hsubmitted.trans hsub⟩
    · exact .inr (hjoining.work hsound hw)
  | closing stage =>
    obtain ⟨hknows, hjoins, hlock, hdone⟩ := h
    exact ⟨hrely.knows hknows, hjoins, hlocked.trans hlock, hended hdone⟩
  | destroyed => exact hended h

/-- A step of the owner that changes only its position. -/
lemma Serial.move {s : Processor E N D σ} (h : Serial b trees quitWait events w s) {o : Owner}
    (hfits : o.Fits quitWait events.length s.memory) :
    Serial b trees quitWait events w { s with owner := o } :=
  ⟨h.sound, h.inOrder, h.bounded, h.calls, h.world, hfits⟩

/-- A step of the owner in a function of the pool. -/
lemma Serial.act {s : Processor E N D σ} (h : Serial b trees quitWait events w s)
    (hl : Knows serialPool s.memory l) (hpush : ∀ q, l = .push q → q = 0)
    (ha : act serialPool s.memory l a = some (m', l')) (hbound : m'.submitted ≤ events.length)
    {o : Owner} (hfits : o.Fits quitWait events.length m') :
    Serial b trees quitWait events w { s with memory := m', owner := o } := by
  refine ⟨(act_sound h.sound hl ha).1, act_inOrder h.inOrder hl hpush ha, hbound, ?_, ?_, hfits⟩
  · rw [Algorithm.act_executed ha, act_worker ha]
    exact h.calls
  · rw [Algorithm.act_executed ha]
    exact h.world

/-- A call of `submit` pushes to the one queue. -/
lemma push_of_submits (h : Submits serialPool l) (q : ℕ) (hq : l = .push q) : q = 0 := by
  subst hq
  obtain ⟨_, _, rfl⟩ := h
  rfl

/-- A call of `join` pushes no task. -/
lemma ne_push_of_joins (h : Algorithm.Joins l) (q : ℕ) : l ≠ .push q := by
  rintro rfl
  exact h

/-- A step of the owner.

**Proof sketch.** One case for each place of the owner: it dispatches the events one after the
other, then destroys the pool, which joins the worker. What it dispatches is the next task in the
order. -/
lemma stepOwner_serial {s t : Processor E N D σ} (h : Serial b trees quitWait events w s)
    (hstep : stepOwner quitWait events s = some t) : Serial b trees quitWait events w t := by
  have hfits := h.fits
  rw [stepOwner] at hstep
  split at hstep
  · next i stage hc =>
    rw [hc] at hfits
    obtain ⟨⟨hfresh, hlocked⟩, hsub, hsubmits, hret⟩ := hfits
    split at hstep
    · next hlen =>
      cases hstep
      have hn : s.memory.submitted = events.length := le_antisymm h.bounded (hsub ▸ hlen)
      exact h.move ⟨trivial, ⟨hlocked, hfresh.done⟩, fun _ => ⟨trivial, .inl ⟨rfl, hfresh, hn⟩⟩⟩
    · next hlen =>
      split at hstep
      · next hdone => exact absurd (hfresh.done.symm.trans hdone.2) Bool.false_ne_true
      · obtain ⟨⟨m', l'⟩, ha, rfl⟩ := Option.map_eq_some_iff.1 hstep
        obtain ⟨hfresh', hsubmits', hlocked', hcase⟩ :=
          Algorithm.act_submits hfresh hsubmits hret ha
        have hbound : m'.submitted ≤ events.length := by
          rcases hcase with ⟨-, hsub'⟩ | ⟨-, hsub'⟩ <;> omega
        refine h.act (Algorithm.knows_of_submits hsubmits) (push_of_submits hsubmits) ha hbound ?_
        rcases hcase with ⟨rfl, hsub'⟩ | ⟨hret', hsub'⟩
        · rw [if_pos rfl]
          exact ⟨⟨hfresh', hlocked'.trans hlocked⟩, by rw [hsub', hsub], trivial, nofun⟩
        · rw [if_neg (hret' 0)]
          exact ⟨⟨hfresh', hlocked'.trans hlocked⟩, hsub'.trans hsub, hsubmits', hret'⟩
  · next k hc =>
    rw [hc] at hfits
    obtain ⟨-, ⟨hlocked, hexited⟩, hwait⟩ := hfits
    cases hstep
    refine h.move ⟨trivial, trivial, hlocked, hexited, fun hq t ht => ?_⟩
    exact ((hwait hq).2.resolve_left fun hstart => by cases hstart.1).executed ht
  · next stage hstage hc =>
    rw [hc] at hfits
    obtain ⟨hknows, hcloses, hwait⟩ := hfits
    obtain ⟨⟨m', l'⟩, ha, rfl⟩ := Option.map_eq_some_iff.1 hstep
    have hbound : m'.submitted ≤ events.length :=
      (act_submitted hcloses.ne_push ha).le.trans h.bounded
    have hsubmit : (if stage = .start then if quitWait = true then Action.join else .stop
        else .go) ≠ .submit := by split_ifs <;> nofun
    refine h.act hknows (fun q hq => absurd hq (hcloses.ne_push q)) ha hbound
      ⟨(act_sound h.sound hknows ha).2.1, act_closes hcloses hknows hsubmit ha, fun hq => ?_⟩
    obtain ⟨hjoins, hcase⟩ := hwait hq
    rw [if_pos hq] at ha
    have hjoining := joining_of_step rfl hknows hcase ha
    exact ⟨(Algorithm.act_joins rfl hjoins hcloses.1 ha).1, .inr hjoining⟩
  · next k hc =>
    rw [hc] at hfits
    cases hstep
    exact h.move hfits.2.2.2
  · next stage hstage hc =>
    rw [hc] at hfits
    obtain ⟨hknows, hjoins, hlocked, hended⟩ := hfits
    split at hstep
    · cases hstep
      exact h.move hended
    · obtain ⟨⟨m', l'⟩, ha, rfl⟩ := Option.map_eq_some_iff.1 hstep
      obtain ⟨hjoins', hlocked'⟩ := Algorithm.act_joins rfl hjoins hlocked ha
      obtain ⟨-, hknows', hrely⟩ := act_sound h.sound hknows ha
      have hbound : m'.submitted ≤ events.length :=
        (act_submitted (ne_push_of_joins hjoins) ha).le.trans h.bounded
      exact h.act hknows (fun q hq => absurd hq (ne_push_of_joins hjoins q)) ha hbound
        ⟨hknows', hjoins', hlocked', hrely.exited 0 hended.1,
          fun hq t ht => hrely.executed t (hended.2 hq t ht)⟩
  · cases hstep
  · cases hstep

/-- The worker ends the task of an event, and has done for it what is to be done. -/
lemma Serial.execute {s : Processor E N D σ} (h : Serial b trees quitWait events w s)
    {d : E × D} (hd : events[s.memory.executed.length]? = some d)
    (hrun : s.memory.worker 0 = .running s.memory.executed.length)
    (hw : work serialPool s.memory 0 = some m') {calls : List (Call E D)}
    {world : σ × List (Record N)}
    (hcalls : calls = callsBefore trees events s.memory.executed.length ++ trace trees d)
    (hworld : world = effect b trees s.world d) :
    Serial b trees quitWait events w ⟨m', false, calls, world, s.owner⟩ := by
  have hlength : m'.executed.length = s.memory.executed.length + 1 := by
    rw [work_running hrun hw]
    exact List.length_append
  refine ⟨(work_sound h.sound hw).1, work_inOrder h.inOrder hw, ?_, .inl ⟨rfl, ?_⟩, ?_,
    h.fits.work h.sound hw⟩
  · exact (work_submitted hw).1.le.trans h.bounded
  · rw [hlength, callsBefore_succ hd]
    exact hcalls
  · rw [hlength, worldBefore_succ hd, ← h.world]
    exact hworld

/-- A step of the worker.

**Proof sketch.** A task is executed in one step for each call of a tree or a filter, and these
calls are the trace of its event. When the last one has been made, the task counts as executed and
the world is the one behind its event. -/
lemma stepWorker_serial {s t : Processor E N D σ} (h : Serial b trees quitWait events w s)
    (hstep : stepWorker b trees events s = some t) : Serial b trees quitWait events w t := by
  rw [stepWorker] at hstep
  split at hstep
  · next k hrun =>
    obtain ⟨rfl, -⟩ := h.inOrder.running_eq hrun
    obtain ⟨d, hd, hstep⟩ := Option.bind_eq_some_iff.1 hstep
    split at hstep
    · next hnone =>
      obtain ⟨m', hw, rfl⟩ := Option.map_eq_some_iff.1 hstep
      rcases h.calls with ⟨hidle, hcalls⟩ | ⟨-, d', tree, -, hd', htree, -⟩
      · rw [hidle]
        refine h.execute hd hrun hw ?_ ?_
        · rw [hcalls, trace, hnone]
          rfl
        · rw [effect, hnone]
      · obtain rfl : d = d' := Option.some.inj (hd.symm.trans hd')
        rw [hnone] at htree
        cases htree
    · next tree htree =>
      split at hstep
      · next hbegun =>
        obtain ⟨m', hw, rfl⟩ := Option.map_eq_some_iff.1 hstep
        rcases h.calls with ⟨hidle, -⟩ | ⟨-, d', -, -, hd', -, hcalls⟩
        · rw [hbegun] at hidle
          cases hidle
        · obtain rfl : d = d' := Option.some.inj (hd.symm.trans hd')
          refine h.execute hd hrun hw ?_ ?_
          · rw [hcalls, trace, htree, List.append_assoc]
            rfl
          · rw [effect, htree]
      · next hbegun =>
        cases hstep
        rcases h.calls with ⟨hidle, hcalls⟩ | ⟨hbegun', -⟩
        · refine ⟨h.sound, h.inOrder, h.bounded, .inr ⟨rfl, d, tree, hrun, hd, htree, ?_⟩, h.world,
            h.fits⟩
          exact congrArg (· ++ _) hcalls
        · exact absurd hbegun' hbegun
  · next hnone =>
    obtain ⟨m', hw, rfl⟩ := Option.map_eq_some_iff.1 hstep
    have hexecuted := work_executed hnone hw
    refine ⟨(work_sound h.sound hw).1, work_inOrder h.inOrder hw,
      (work_submitted hw).1.le.trans h.bounded, ?_, ?_, h.fits.work h.sound hw⟩
    · rw [hexecuted]
      refine h.calls.imp id ?_
      rintro ⟨-, _, _, hrun, -⟩
      exact absurd hrun (hnone _)
    · rw [hexecuted]
      exact h.world

/-- **One step keeps what holds of a processor.** -/
theorem step_serial {s t : Processor E N D σ} {e : Turn}
    (h : Serial b trees quitWait events w s)
    (hstep : stepProcessor b trees quitWait events s e = some t) :
    Serial b trees quitWait events w t := by
  cases e with
  | owner => exact stepOwner_serial h hstep
  | worker => exact stepWorker_serial h hstep

/-- At first nothing was dispatched. -/
lemma serial_init (b : Behaviour N D σ) (trees : Trees E N) (quitWait : Bool)
    (events : List (E × D)) (w : σ) :
    Serial b trees quitWait events w (processor b trees quitWait events w).init := by
  refine ⟨sound_init, ⟨[], rfl, fun _ => rfl⟩, Nat.zero_le _, .inl ⟨rfl, rfl⟩, rfl, ?_⟩
  refine ⟨⟨⟨rfl, fun _ _ => rfl, fun _ => List.not_mem_nil, ?_⟩, rfl⟩, rfl, trivial, nofun⟩
  exact fun t ht => absurd ht (Nat.not_lt_zero t)

/-- What holds of a processor holds after every schedule. -/
lemma serial_of_run {s : Processor E N D σ} {es : List Turn}
    (hrun : (processor b trees quitWait events w).run es = some s) :
    Serial b trees quitWait events w s :=
  System.run_invariant (serial_init b trees quitWait events w)
    (fun _ _ _ h hstep => step_serial h hstep) hrun

/-! ## A processor that waits comes to its end -/

/-- If the worker of the pool can go on, the worker of the processor can. -/
lemma exists_stepWorker {s : Processor E N D σ} (h : Serial b trees quitWait events w s)
    (hw : ∃ i m', work serialPool s.memory i = some m') :
    ∃ t, stepWorker b trees events s = some t := by
  obtain ⟨i, m', hw⟩ := hw
  obtain rfl : i = 0 := by
    by_contra hi
    have hle : serialPool.workerNum ≤ i := Nat.one_le_iff_ne_zero.2 hi
    rw [work, if_pos hle] at hw
    cases hw
  rw [stepWorker, hw]
  split
  · next k hrun =>
    obtain ⟨-, hlt⟩ := h.inOrder.running_eq hrun
    rw [List.getElem?_eq_getElem (hlt.trans_le h.bounded), Option.bind_some]
    split
    · exact ⟨_, rfl⟩
    · split <;> exact ⟨_, rfl⟩
  · exact ⟨_, rfl⟩

/-- What a processor that was destroyed has done. -/
def Processor.result (s : Processor E N D σ) : Option (List (Call E D) × σ × List (Record N)) :=
  match s.owner with
  | .destroyed => some (s.calls, s.world)
  | _ => none

/-- **A processor that is not destroyed can go on.**

**Proof sketch.** By cases on the owner: a call of `submit` can go on, `join` can go on or waits
for the worker, and a worker that has not exited can go on. -/
theorem exists_stepProcessor {s : Processor E N D σ} (h : Serial b trees true events w s)
    (hres : s.result = none) : ∃ e t, stepProcessor b trees true events s e = some t := by
  have hworker : (∃ i m', work serialPool s.memory i = some m') →
      ∃ e t, stepProcessor b trees true events s e = some t := by
    intro hw
    obtain ⟨t, ht⟩ := exists_stepWorker h hw
    exact ⟨.worker, t, ht⟩
  have howner : (∃ t, stepOwner true events s = some t) →
      ∃ e t, stepProcessor b trees true events s e = some t := fun ⟨t, ht⟩ => ⟨.owner, t, ht⟩
  have hfits := h.fits
  cases hc : s.owner with
  | thrown =>
    rw [hc] at hfits
    exact hfits.elim
  | destroyed => simp [Processor.result, hc] at hres
  | dispatching i stage =>
    rw [hc] at hfits
    obtain ⟨r, hr⟩ := Algorithm.exists_act_submits (m := s.memory) hfits.2.2.1 hfits.2.2.2
    refine howner ?_
    rw [stepOwner, hc]
    dsimp only
    rw [hr]
    split
    · exact ⟨_, rfl⟩
    · split <;> exact ⟨_, rfl⟩
  | quitting stage =>
    rw [hc] at hfits
    obtain ⟨hknows, hcloses, hwait⟩ := hfits
    rcases Algorithm.joins_cases hknows (hwait rfl).1 hcloses.1 with ⟨k, rfl⟩ | ⟨hret, r, hr⟩ | hw
    · refine howner ⟨{ s with owner := .closing .start }, ?_⟩
      rw [stepOwner, hc]
    · refine howner ⟨{ s with memory := r.1, owner := .quitting r.2 }, ?_⟩
      rw [stepOwner, hc]
      cases stage with
      | returned k => exact absurd rfl (hret k)
      | _ => exact congrArg (Option.map _) hr
    · exact hworker hw
  | closing stage =>
    rw [hc] at hfits
    obtain ⟨hknows, hjoins, hlocked, -⟩ := hfits
    rcases Algorithm.joins_cases hknows hjoins hlocked with ⟨k, rfl⟩ | ⟨hret, r, hr⟩ | hw
    · refine howner ⟨{ s with owner := .destroyed }, ?_⟩
      rw [stepOwner, hc]
    · refine howner ?_
      have hstep : stepOwner true events s =
          if stage = .start ∧ s.memory.done = true then some { s with owner := .destroyed }
          else
            (act serialPool s.memory stage (if stage = .start then .join else .go)).map fun r =>
              { s with memory := r.1, owner := .closing r.2 } := by
        rw [stepOwner, hc]
        cases stage with
        | returned k => exact absurd rfl (hret k)
        | _ => rfl
      rw [hstep, hr]
      split <;> exact ⟨_, rfl⟩
    · exact hworker hw

/-- How many steps of the pool are left to the owner of `n` events. -/
def Owner.left (n : ℕ) : Owner → ℕ
  | .dispatching i stage => (n - i) * 22 + Algorithm.rank serialPool stage + 45
  | .quitting stage => Algorithm.rank serialPool stage + 23
  | .closing stage => Algorithm.rank serialPool stage + 1
  | .thrown | .destroyed => 0

/-- How many steps are left. Every step of the pool may come with the beginning of a task. -/
def Processor.measure (n : ℕ) (s : Processor E N D σ) : ℕ :=
  2 * (Algorithm.load serialPool s.memory + s.owner.left n) + if s.running then 0 else 1

/-- A step of the owner.

**Proof sketch.** One case for each place of the owner. The events that are left, and the rank of
the call under way, fall by more than is added to the load; what the worker is running stays. -/
lemma stepOwner_measure_lt {s t : Processor E N D σ} (h : Serial b trees true events w s)
    (hstep : stepOwner true events s = some t) :
    t.measure events.length < s.measure events.length := by
  suffices hleft : Algorithm.load serialPool t.memory + t.owner.left events.length <
      Algorithm.load serialPool s.memory + s.owner.left events.length ∧ t.running = s.running by
    rw [Processor.measure, Processor.measure, hleft.2]
    omega
  have hstart : Algorithm.rank serialPool .start = 21 := rfl
  have hreturned : ∀ k, Algorithm.rank serialPool (.returned k) = 0 := fun _ => rfl
  have hfits := h.fits
  rw [stepOwner] at hstep
  split at hstep
  · next i stage hc =>
    rw [hc] at hfits
    obtain ⟨⟨hfresh, -⟩, -, hsubmits, hret⟩ := hfits
    split at hstep
    · cases hstep
      refine ⟨?_, rfl⟩
      simp only [hc, Owner.left, hstart]
      omega
    · next hlen =>
      split at hstep
      · next hdone => exact absurd (hfresh.done.symm.trans hdone.2) Bool.false_ne_true
      · obtain ⟨⟨m', l'⟩, ha, rfl⟩ := Option.map_eq_some_iff.1 hstep
        have hleft := Algorithm.submits_left_lt hfresh hsubmits hret (not_le.1 hlen) ha
        rw [show 11 * serialPool.workerNum + 11 = 22 from rfl] at hleft
        refine ⟨?_, rfl⟩
        simp only [hc]
        split at hleft
        · next hreturned =>
          simp only [if_pos hreturned, Owner.left]
          omega
        · next hnot =>
          simp only [if_neg hnot, Owner.left]
          omega
  · next k hc =>
    cases hstep
    refine ⟨?_, rfl⟩
    simp only [hc, Owner.left, hstart, hreturned]
    omega
  · next stage hstage hc =>
    rw [hc] at hfits
    obtain ⟨⟨m', l'⟩, ha, rfl⟩ := Option.map_eq_some_iff.1 hstep
    have hrank := Algorithm.rank_joins_lt (hfits.2.2 rfl).1 ha
    refine ⟨?_, rfl⟩
    simp only [hc, Owner.left]
    omega
  · next k hc =>
    cases hstep
    refine ⟨?_, rfl⟩
    simp only [hc, Owner.left]
    omega
  · next stage hstage hc =>
    rw [hc] at hfits
    split at hstep
    · cases hstep
      refine ⟨?_, rfl⟩
      simp only [hc, Owner.left]
      omega
    · obtain ⟨⟨m', l'⟩, ha, rfl⟩ := Option.map_eq_some_iff.1 hstep
      have hrank := Algorithm.rank_joins_lt hfits.2.1 ha
      refine ⟨?_, rfl⟩
      simp only [hc, Owner.left]
      omega
  · cases hstep
  · cases hstep

/-- A step of the worker.

**Proof sketch.** Either the worker of the pool takes a step, which lowers the load, or it begins a
call within a task and the task counts as running from then on. -/
lemma stepWorker_measure_lt {s t : Processor E N D σ} (n : ℕ)
    (hstep : stepWorker b trees events s = some t) : t.measure n < s.measure n := by
  have hwork : ∀ {m' r c x}, work serialPool s.memory 0 = some m' →
      (s.running = true ∨ r = s.running) →
      Processor.measure n (⟨m', r, c, x, s.owner⟩ : Processor E N D σ) < s.measure n := by
    intro m' r c x hw hr
    have hload := Algorithm.load_work_lt hw
    simp only [Processor.measure]
    rcases hr with hr | rfl
    · rw [hr]
      cases r <;> simp <;> omega
    · omega
  rw [stepWorker] at hstep
  split at hstep
  · obtain ⟨d, -, hstep⟩ := Option.bind_eq_some_iff.1 hstep
    split at hstep
    · obtain ⟨m', hw, rfl⟩ := Option.map_eq_some_iff.1 hstep
      exact hwork hw (.inr rfl)
    · split at hstep
      · next hbegun =>
        obtain ⟨m', hw, rfl⟩ := Option.map_eq_some_iff.1 hstep
        exact hwork hw (.inl hbegun)
      · next hbegun =>
        cases hstep
        simp only [Processor.measure, if_neg hbegun]
        exact Nat.lt_succ_self _
  · obtain ⟨m', hw, rfl⟩ := Option.map_eq_some_iff.1 hstep
    exact hwork hw (.inr rfl)

/-- **One step leaves less to do.** -/
theorem stepProcessor_measure_lt {s t : Processor E N D σ} {e : Turn}
    (h : Serial b trees true events w s)
    (hstep : stepProcessor b trees true events s e = some t) :
    t.measure events.length < s.measure events.length := by
  cases e with
  | owner => exact stepOwner_measure_lt h hstep
  | worker => exact stepWorker_measure_lt events.length hstep

/-! ## What a processor has done -/

/-- The calls are the first ones of what the events should do. -/
lemma Serial.calls_prefix {s : Processor E N D σ} (h : Serial b trees quitWait events w s) :
    s.calls <+: events.flatMap (trace trees) := by
  rcases h.calls with ⟨-, hcalls⟩ | ⟨-, d, tree, -, hd, htree, hcalls⟩
  · rw [hcalls]
    exact callsBefore_isPrefix trees events _
  · have hnext : s.calls <+: callsBefore trees events (s.memory.executed.length + 1) := by
      rw [hcalls, callsBefore_succ hd, List.prefix_append_right_inj, trace, htree]
      exact ⟨[.ended d.1 d.2], rfl⟩
    exact hnext.trans (callsBefore_isPrefix trees events _)

/-- What a processor that was destroyed has done for its events: a first part of them was
processed, in their order, and all of them if the destructor waits.

**Proof sketch.** The worker has exited, so that it is in no task, and what was executed is an
initial part of what was submitted. -/
lemma Serial.destroyed {s : Processor E N D σ} (h : Serial b trees quitWait events w s)
    (hd : s.owner = .destroyed) :
    ∃ k ≤ events.length, s.calls = callsBefore trees events k ∧
      s.world = worldBefore b trees events w k ∧ (quitWait = true → k = events.length) := by
  have hfits := h.fits
  rw [hd] at hfits
  obtain ⟨hexecuted, hle⟩ := h.inOrder.executed_eq
  refine ⟨s.memory.executed.length, hle.trans h.bounded, ?_, h.world, fun hq => ?_⟩
  · rcases h.calls with ⟨-, hcalls⟩ | ⟨-, _, _, hrun, -⟩
    · exact hcalls
    · rw [hfits.1] at hrun
      cases hrun
  · refine le_antisymm (hle.trans h.bounded) ?_
    by_contra hlt
    have hmem := hfits.2 hq _ (not_le.1 hlt)
    rw [hexecuted, List.mem_range, List.length_range] at hmem
    exact lt_irrefl _ hmem

/-- **The processor is serial, and loses no event if it waits.** In every schedule, whether the
destructor waits or not, the calls of the worker are the first ones of what the dispatched events
should do: one run of the tree for each event that has one, one after the other, in the order of the
events. When the processor is destroyed they are those of the first events, with their effect.
If the destructor waits then every schedule comes to its end, and all events were processed.

**Proof sketch.** `InOrder` says that the tasks executed, the one that is executed and those in the
queue are the submitted ones in their order; nothing is pushed in front of another task, and a null
task that was pushed later is behind them all. If the destructor waits then its call of `join` is a
`Joining`, so that all tasks were executed. -/
theorem serial_and_lossless (b : Behaviour N D σ) (trees : Trees E N) (events : List (E × D))
    (w : σ) :
    (∀ quitWait es s, (processor b trees quitWait events w).run es = some s →
      s.calls <+: events.flatMap (trace trees) ∧
      (s.owner = .destroyed → ∃ k ≤ events.length,
        s.calls = (events.take k).flatMap (trace trees) ∧
        s.world = (events.take k).foldl (effect b trees) (w, []))) ∧
    (processor b trees true events w).Returns Processor.result
      (events.flatMap (trace trees), events.foldl (effect b trees) (w, [])) := by
  constructor
  · intro quitWait es s hrun
    have h := serial_of_run hrun
    refine ⟨h.calls_prefix, fun hd => ?_⟩
    obtain ⟨k, hk, hcalls, hworld, -⟩ := h.destroyed hd
    exact ⟨k, hk, hcalls, hworld⟩
  · refine System.returns_of_measure (I := Serial b trees true events w)
      (μ := Processor.measure events.length) (serial_init b trees true events w)
      (fun _ _ _ h hstep => ⟨step_serial h hstep, stepProcessor_measure_lt h hstep⟩)
      (fun _ h => exists_stepProcessor h) ?_
    intro s r h hres
    rw [Processor.result] at hres
    split at hres
    · next hd =>
      cases hres
      obtain ⟨k, -, hcalls, hworld, hall⟩ := h.destroyed hd
      rw [hall rfl] at hcalls hworld
      rw [hcalls, hworld, callsBefore, worldBefore, List.take_length]
    · cases hres

end HkuUtils.FilterNode
