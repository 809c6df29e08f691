import Mathlib.Data.Finset.Card
import Mathlib.Data.List.AList
import HkuUtils.TimerManager.Points
import HkuUtils.Transition

set_option relaxedAutoImplicit false
set_option autoImplicit false

/-!
# The timer manager

A `TimerManager` keeps its timers in a table and the next point of each in a priority queue. A
detection thread submits what is due to a thread pool; calls from other threads add and remove
timers, and one thread starts and stops the detection.

## Main definitions

* `HkuUtils.TimerManager.State` — the manager and the threads that are inside of it.
* `HkuUtils.TimerManager.examine`, `dispatch` — the locked section of the detection thread.
* `HkuUtils.TimerManager.rebuild` — the locked section of `start`.
* `HkuUtils.TimerManager.system` — the interleavings.

## Main results

* `HkuUtils.TimerManager.moves_of_step`, `examines_of_examine`, `dispatches_of_dispatch` — what a
  step can do.
* `HkuUtils.TimerManager.getNewTimerId_isSome` — a free id is found while the table is not full.

## Design

* What happens under `m_mutex` is one step; the test of `m_stop`, each `notify_all`, the start of
  the detection thread and the wait for its end are steps of their own.
* `start` and `stop` are called by one thread at a time, since `m_detect_thread` is not protected;
  the constructor calls `start`, and the destructor `stop`.
* The queue is a list, and the event of the detection thread names the entry that is on top, one
  with the least point; so the order of entries with the same point is left open.
* A thread that waits can wake up at any time.
* An exception that leaves the detection thread ends the process, and the system has no step there.
-/

namespace HkuUtils.TimerManager

open Transition

/-! ## The state -/

/-- `IntervalS`: an entry of the priority queue. -/
structure IntervalS where
  timePoint : ℤ
  timerId : ℤ
  deriving DecidableEq

/-- `m_timers`. -/
abbrev Timers := AList fun _ : ℤ => Timer

/-- What happened to the timers. -/
inductive Record where
  /-- The id was given to the timer that the call created with the function. -/
  | allocated (id : ℤ) (call : AddCall) (func : ℕ)
  /-- A call of `removeTimer` returned. -/
  | removed (id : ℤ)
  /-- The function of the timer with the id was submitted to the pool. -/
  | submitted (id : ℤ) (func : ℕ)
  deriving DecidableEq

/-- Where the thread is that calls `start` and `stop`. Between two of its steps the detection
thread and the calls that add timers may act. -/
inductive Control where
  | idle
  /-- `start` has cleared `m_stop`. -/
  | starting
  /-- `start` has built the queue, and will notify. -/
  | announcing
  /-- `start` will run the detection thread. -/
  | spawning
  /-- `stop` has seen that `m_stop` is not set. -/
  | stopping
  /-- `stop` has set `m_stop`, and will notify. -/
  | waking
  /-- `stop` waits for the end of the detection thread. -/
  | joining
  deriving DecidableEq

/-- Where the detection thread is. Its locked section, from the look at the queue to the wait, is
one step. -/
inductive Detect where
  /-- There is no thread. -/
  | absent
  /-- Before the test of `m_stop`. -/
  | testing
  /-- `m_stop` was not set, and the clock was read. -/
  | locking (now : Clock)
  /-- In `m_cond.wait`. -/
  | waiting
  /-- In `m_cond.wait_for`. -/
  | waitingFor
  /-- The thread has ended and was not joined. -/
  | exited
  deriving DecidableEq

/-- The manager, the threads inside of it and what has happened, with the last record first. -/
structure State where
  /-- `m_stop`. -/
  stop : Bool
  /-- `m_queue`. -/
  queue : List IntervalS
  /-- `m_timers`. -/
  timers : Timers
  /-- `m_current_timer_id`. -/
  current : ℤ
  /-- `m_tg` is not null. -/
  pool : Bool
  control : Control
  detect : Detect
  /-- The calls that have added a timer and will notify. -/
  pending : ℕ
  log : List Record
  deriving DecidableEq

/-- The state of the constructors, which call `start` next; `extended` is `m_use_extend_tg`. -/
def init (extended : Bool) : State :=
  ⟨true, [], ∅, -1, extended, .idle, .absent, 0, []⟩

/-! ## Ids -/

/-- The id after `id`. -/
def nextId (id : ℤ) : ℤ := if maxInt ≤ id then 0 else id + 1

/-- The first id from `id` on that is not in the table. -/
def freeId (timers : Timers) : ℕ → ℤ → Option ℤ
  | 0, _ => none
  | fuel + 1, id => if id ∈ timers then freeId timers fuel (nextId id) else some id

/-- `getNewTimerId`, with `none` for -1. One more try than there are timers is enough. -/
def getNewTimerId (timers : Timers) (current : ℤ) : Option ℤ :=
  if maxInt ≤ timers.entries.length then none
  else freeId timers (timers.entries.length + 1) (nextId current)

/-- A new id is not in the table. -/
lemma freeId_notMem {timers : Timers} {fuel : ℕ} {id new : ℤ}
    (h : freeId timers fuel id = some new) : new ∉ timers := by
  induction fuel generalizing id with
  | zero => simp [freeId] at h
  | succ fuel ih =>
    rw [freeId] at h
    split at h
    · exact ih h
    · next hid => exact Option.some.inj h ▸ hid

/-- A new id is not in the table. -/
lemma getNewTimerId_notMem {timers : Timers} {current new : ℤ}
    (h : getNewTimerId timers current = some new) : new ∉ timers := by
  rw [getNewTimerId] at h
  split at h
  · simp at h
  · exact freeId_notMem h

/-- An id that is not free is in the table, and so are those after it that were tried. -/
lemma mem_of_freeId {timers : Timers} {fuel : ℕ} {id : ℤ} (h : freeId timers fuel id = none) :
    ∀ k < fuel, nextId^[k] id ∈ timers := by
  induction fuel generalizing id with
  | zero => exact fun k hk => absurd hk (Nat.not_lt_zero k)
  | succ fuel ih =>
    rw [freeId] at h
    split at h
    · next hid =>
      intro k hk
      cases k with
      | zero => exact hid
      | succ k => exact ih h k (Nat.lt_of_succ_lt_succ hk)
    · simp at h

/-- The ids go round. -/
lemma iterate_nextId {id : ℤ} (h0 : 0 ≤ id) (h1 : id ≤ maxInt) (k : ℕ) :
    nextId^[k] id = (id + k) % (maxInt + 1) := by
  induction k generalizing id with
  | zero =>
    rw [Function.iterate_zero_apply, Nat.cast_zero, add_zero, Int.emod_eq_of_lt h0 (by omega)]
  | succ k ih =>
    rw [Function.iterate_succ_apply, nextId]
    unfold maxInt at *
    split
    · next hmax =>
      rw [ih le_rfl (by decide)]
      obtain rfl : id = 2147483647 := le_antisymm h1 hmax
      push_cast
      omega
    · rw [ih (by omega) (by omega)]
      push_cast
      omega

/-- **A free id is found** while the table is not full.

**Proof sketch.** If no id were free, then the ids that are tried would all be keys of the table.
They are distinct, as the successor runs through all ids before it comes back, and there is one
more of them than the table has entries. -/
theorem getNewTimerId_isSome {timers : Timers} {current : ℤ} (h0 : -1 ≤ current)
    (hfull : timers.entries.length < maxInt) : (getNewTimerId timers current).isSome := by
  have hnext : 0 ≤ nextId current ∧ nextId current ≤ maxInt := by
    rw [nextId]
    split
    · exact ⟨le_rfl, by decide⟩
    · omega
  rw [getNewTimerId, if_neg (not_le.2 hfull)]
  by_contra hnone
  have hmem := mem_of_freeId (Option.not_isSome_iff_eq_none.1 hnone)
  -- The ids that were tried are distinct keys, one more than there are.
  have hinj : Set.InjOn (fun k : ℕ => nextId^[k] (nextId current))
      (Finset.range (timers.entries.length + 1)) := by
    intro j hj k hk hjk
    simp only [Finset.coe_range, Set.mem_Iio] at hj hk
    simp only [iterate_nextId hnext.1 hnext.2] at hjk
    unfold maxInt at *
    omega
  have hmaps : ∀ k ∈ Finset.range (timers.entries.length + 1),
      nextId^[k] (nextId current) ∈ timers.keys.toFinset := by
    intro k hk
    rw [List.mem_toFinset, ← AList.mem_keys]
    exact hmem k (Finset.mem_range.1 hk)
  have hcard := Finset.card_le_card_of_injOn _ hmaps hinj
  rw [Finset.card_range, List.toFinset_card_of_nodup timers.keys_nodup, AList.keys,
    List.keys, List.length_map] at hcard
  omega

/-! ## The steps -/

/-- `notify_all`. -/
def State.notify (s : State) : State :=
  match s.detect with
  | .waiting | .waitingFor => { s with detect := .testing }
  | _ => s

/-- A notification leaves the flag as it is. -/
@[simp] lemma State.notify_stop (s : State) : s.notify.stop = s.stop := by
  rw [State.notify]
  split <;> rfl

/-- A notification leaves the queue as it is. -/
@[simp] lemma State.notify_queue (s : State) : s.notify.queue = s.queue := by
  rw [State.notify]
  split <;> rfl

/-- A notification leaves the timers as they are. -/
@[simp] lemma State.notify_timers (s : State) : s.notify.timers = s.timers := by
  rw [State.notify]
  split <;> rfl

/-- A notification leaves the pool as it is. -/
@[simp] lemma State.notify_pool (s : State) : s.notify.pool = s.pool := by
  rw [State.notify]
  split <;> rfl

/-- A notification leaves the thread that controls where it is. -/
@[simp] lemma State.notify_control (s : State) : s.notify.control = s.control := by
  rw [State.notify]
  split <;> rfl

/-- A notification leaves the calls under way as they are. -/
@[simp] lemma State.notify_pending (s : State) : s.notify.pending = s.pending := by
  rw [State.notify]
  split <;> rfl

/-- A notification is not recorded. -/
@[simp] lemma State.notify_log (s : State) : s.notify.log = s.log := by
  rw [State.notify]
  split <;> rfl

/-- After a notification no thread waits for one. -/
lemma State.notify_detect (s : State) : s.notify.detect ≠ .waiting := by
  rw [State.notify]
  split
  · simp
  · simp
  · next h _ => exact h

/-- A notification does not start or end the detection thread. -/
lemma State.notify_absent (s : State) : s.notify.detect = .absent ↔ s.detect = .absent := by
  rw [State.notify]
  split <;> simp [*]

/-- `_removeTimer`. -/
def State.removed (s : State) (id : ℤ) : State := { s with timers := s.timers.erase id }

/-- `_addFunc`: the checks, and the section that adds the timer. The notification is a step of its
own, behind it. -/
def addFunc (F : Arith) (s : State) (call : AddCall) (f : ℕ) (before now : Clock) :
    Option State :=
  (call.timer f before).bind fun timer =>
    (firstPoint F timer now).bind fun point =>
      (getNewTimerId s.timers s.current).map fun id =>
        { s with
          timers := s.timers.insert id timer
          current := id
          queue := ⟨point, id⟩ :: s.queue
          pending := s.pending + 1
          log := .allocated id call f :: s.log }

/-- `removeTimer`. -/
def removeTimer (s : State) (id : ℤ) : State :=
  match s.timers.lookup id with
  | some timer =>
    { s with
      timers := s.timers.insert id { timer with repeatNum := 0 }
      log := .removed id :: s.log }
  | none => { s with log := .removed id :: s.log }

/-- The repeat number after a run. -/
def Timer.spend (timer : Timer) : Timer :=
  if timer.repeatNum = maxInt then timer else { timer with repeatNum := timer.repeatNum - 1 }

/-- `detectThread` after it has taken a due entry off the queue and has read the clock again.

The timer is submitted to the pool, and put back with its next point if it has runs left. -/
def dispatch (s : State) (e : IntervalS) (now : Clock) : Option State :=
  match s.timers.lookup e.timerId with
  | none => some { s with detect := .testing }
  | some timer =>
    if s.pool then
      let s := { s with detect := .testing, log := .submitted e.timerId timer.func :: s.log }
      if timer.spend.repeatNum ≤ 0 then some (s.removed e.timerId)
      else
        (nextPoint timer.spend e.timePoint now).map fun
          | none => s.removed e.timerId
          | some point =>
            { s with
              timers := s.timers.insert e.timerId timer.spend
              queue := ⟨point, e.timerId⟩ :: s.queue }
    else none

/-- The locked section of `detectThread`, where entry `i` of the queue is on top. The difference to
its point has to be a `TimeDelta`. -/
def examine (s : State) (now : Clock) (i : ℕ) (again : Clock) : Option State :=
  if s.queue = [] then some { s with detect := .waiting }
  else
    s.queue[i]?.bind fun e =>
      if ∀ x ∈ s.queue, e.timePoint ≤ x.timePoint then
        if e.timePoint = 0 then some { s with detect := .exited }
        else if 100000000 * day ≤ e.timePoint - now.now then none
        else if now.now < e.timePoint then some { s with detect := .waitingFor }
        else dispatch { s with queue := s.queue.eraseIdx i } e again
      else none

/-- What the loop of `start` finds: the new queue, the invalid timers, and whether it came to the
end of the table without an exception. -/
structure Rebuilt where
  queue : List IntervalS
  invalid : List ℤ
  complete : Bool

/-- The loop of `start`. The clock is read for each timer. -/
def rebuild (F : Arith) (clock : ℤ → Clock) : List ((_ : ℤ) × Timer) → Rebuilt
  | [] => ⟨[], [], true⟩
  | x :: xs =>
    let rest := rebuild F clock xs
    match restartPoint F x.2 (clock x.1) with
    | none => ⟨[], [], false⟩
    | some none => { rest with invalid := x.1 :: rest.invalid }
    | some (some point) => { rest with queue := ⟨point, x.1⟩ :: rest.queue }

/-- The locked section of `start`, and what an exception in it leaves. -/
def restart (F : Arith) (s : State) (clock : ℤ → Clock) : State :=
  let r := rebuild F clock s.timers.entries
  if r.complete then
    { s with
      queue := r.queue
      pool := true
      timers := r.invalid.foldl (fun timers id => timers.erase id) s.timers
      control := .announcing }
  else { s with queue := r.queue, pool := true, control := .idle }

/-- What a thread does next. What the clock shows is part of the event. -/
inductive Event where
  /-- A call adds a timer with the function `f`; it reads the clock once or twice. -/
  | add (call : AddCall) (f : ℕ) (before now : Clock)
  /-- A call that has added a timer notifies. -/
  | addNotify
  | remove (id : ℤ)
  /-- The detection thread tests `m_stop`, and reads the clock. -/
  | test (now : Clock)
  /-- The detection thread finds the entry `i` on top of the queue. -/
  | examine (i : ℕ) (again : Clock)
  /-- The detection thread wakes up by itself. -/
  | wakeup
  | start
  | rebuild (clock : ℤ → Clock)
  | announce
  | spawn
  | stop
  | clear
  | wake
  | join

/-- The step of an event. One that does not fit the place of its thread is no step. -/
def step (F : Arith) (extended : Bool) (s : State) : Event → Option State
  | .add call f before now => addFunc F s call f before now
  | .addNotify => if 0 < s.pending then some { s.notify with pending := s.pending - 1 } else none
  | .remove id => some (removeTimer s id)
  | .test now =>
    if s.detect = .testing then
      some { s with detect := if s.stop then .exited else .locking now }
    else none
  | .examine i again =>
    match s.detect with
    | .locking now => examine s now i again
    | _ => none
  | .wakeup =>
    if s.detect = .waiting ∨ s.detect = .waitingFor then some { s with detect := .testing }
    else none
  | .start =>
    if s.control = .idle then
      some (if s.stop then { s with stop := false, control := .starting } else s)
    else none
  | .rebuild clock => if s.control = .starting then some (restart F s clock) else none
  | .announce =>
    if s.control = .announcing then some { s.notify with control := .spawning } else none
  | .spawn =>
    if s.control = .spawning then some { s with control := .idle, detect := .testing } else none
  | .stop =>
    if s.control = .idle then
      some { s with control := if s.stop then .joining else .stopping }
    else none
  | .clear =>
    if s.control = .stopping then some { s with stop := true, queue := [], control := .waking }
    else none
  | .wake => if s.control = .waking then some { s.notify with control := .joining } else none
  | .join =>
    if s.control = .joining ∧ (s.detect = .absent ∨ s.detect = .exited) then
      some { s with control := .idle, detect := .absent, pool := extended && s.pool }
    else none

/-- The interleavings. -/
def system (F : Arith) (extended : Bool) : System State Event where
  init := init extended
  step := step F extended

/-! ## What a step can do -/

/-- **What happens to an entry that is due**: its timer is gone, has ended, or runs again. -/
inductive Dispatches (s : State) (e : IntervalS) (now : Clock) : State → Prop where
  /-- There is no timer with the id. -/
  | orphan (ht : s.timers.lookup e.timerId = none) :
    Dispatches s e now { s with detect := .testing }
  /-- The timer has ended. -/
  | last {timer : Timer} (ht : s.timers.lookup e.timerId = some timer)
    (hend : timer.spend.repeatNum ≤ 0 ∨ nextPoint timer.spend e.timePoint now = some none) :
    Dispatches s e now
      { s with
        detect := .testing
        log := .submitted e.timerId timer.func :: s.log
        timers := s.timers.erase e.timerId }
  /-- The timer runs again. -/
  | again {timer : Timer} {point : ℤ} (ht : s.timers.lookup e.timerId = some timer)
    (hpos : 0 < timer.spend.repeatNum)
    (hp : nextPoint timer.spend e.timePoint now = some (some point)) :
    Dispatches s e now
      { s with
        detect := .testing
        log := .submitted e.timerId timer.func :: s.log
        timers := s.timers.insert e.timerId timer.spend
        queue := ⟨point, e.timerId⟩ :: s.queue }

/-- Inversion of a dispatch. -/
lemma dispatches_of_dispatch {s t : State} {e : IntervalS} {now : Clock}
    (h : dispatch s e now = some t) : Dispatches s e now t := by
  rw [dispatch] at h
  split at h
  · next ht => exact Option.some.inj h ▸ .orphan ht
  · next timer ht =>
    rw [Option.ite_none_right_eq_some] at h
    obtain ⟨_, h⟩ := h
    dsimp only at h
    split at h
    · next hend => exact Option.some.inj h ▸ .last ht (.inl hend)
    · next hpos =>
      obtain ⟨next, hn, rfl⟩ := Option.map_eq_some_iff.1 h
      cases next with
      | none => exact .last ht (.inr hn)
      | some point => exact .again ht (not_le.1 hpos) hn

/-- **What the locked section of the detection thread can do**: wait, end, sleep until the first
entry is due, or take it. -/
inductive Examines (s : State) (now : Clock) (i : ℕ) (again : Clock) : State → Prop where
  | wait (hq : s.queue = []) : Examines s now i again { s with detect := .waiting }
  | finish {e : IntervalS} (hi : s.queue[i]? = some e) (h0 : e.timePoint = 0) :
    Examines s now i again { s with detect := .exited }
  | sleep {e : IntervalS} (hi : s.queue[i]? = some e) (hlt : now.now < e.timePoint) :
    Examines s now i again { s with detect := .waitingFor }
  | due {e : IntervalS} {t : State} (hi : s.queue[i]? = some e) (h0 : e.timePoint ≠ 0)
    (hle : e.timePoint ≤ now.now)
    (hd : Dispatches { s with queue := s.queue.eraseIdx i } e again t) :
    Examines s now i again t

/-- Inversion of the locked section. -/
lemma examines_of_examine {s t : State} {now again : Clock} {i : ℕ}
    (h : examine s now i again = some t) : Examines s now i again t := by
  rw [examine] at h
  split at h
  · next hq => exact Option.some.inj h ▸ .wait hq
  · obtain ⟨e, hi, h⟩ := Option.bind_eq_some_iff.1 h
    rw [Option.ite_none_right_eq_some] at h
    obtain ⟨_, h⟩ := h
    split at h
    · next h0 => exact Option.some.inj h ▸ .finish hi h0
    · next h0 =>
      rw [Option.ite_none_left_eq_some] at h
      obtain ⟨_, h⟩ := h
      split at h
      · next hlt => exact Option.some.inj h ▸ .sleep hi hlt
      · next hle => exact .due hi h0 (not_lt.1 hle) (dispatches_of_dispatch h)

/-- The due entry that an event takes off the queue. An entry with the least point of all is not
taken but ends the detection thread. -/
def taken (s : State) : Event → Option IntervalS
  | .examine i _ =>
    match s.detect with
    | .locking now => s.queue[i]?.filter fun e => e.timePoint ≠ 0 ∧ e.timePoint ≤ now.now
    | _ => none
  | _ => none

/-- **What an event can do**: one constructor for each branch of `step`, with its guards. -/
inductive Moves (F : Arith) (extended : Bool) (s : State) : Event → State → Prop where
  | add {call : AddCall} {f : ℕ} {before now : Clock} {timer : Timer} {point id : ℤ}
    (ht : call.timer f before = some timer) (hp : firstPoint F timer now = some point)
    (hid : getNewTimerId s.timers s.current = some id) :
    Moves F extended s (.add call f before now)
      { s with
        timers := s.timers.insert id timer
        current := id
        queue := ⟨point, id⟩ :: s.queue
        pending := s.pending + 1
        log := .allocated id call f :: s.log }
  | addNotify (hp : 0 < s.pending) :
    Moves F extended s .addNotify { s.notify with pending := s.pending - 1 }
  | remove {id : ℤ} : Moves F extended s (.remove id) (removeTimer s id)
  | test {now : Clock} (hd : s.detect = .testing) :
    Moves F extended s (.test now) { s with detect := if s.stop then .exited else .locking now }
  | examine {i : ℕ} {now again : Clock} {t : State} (hd : s.detect = .locking now)
    (hex : Examines s now i again t) : Moves F extended s (.examine i again) t
  | wakeup (hd : s.detect = .waiting ∨ s.detect = .waitingFor) :
    Moves F extended s .wakeup { s with detect := .testing }
  | started (hc : s.control = .idle) (hs : s.stop = false) : Moves F extended s .start s
  | start (hc : s.control = .idle) (hs : s.stop = true) :
    Moves F extended s .start { s with stop := false, control := .starting }
  | rebuild {clock : ℤ → Clock} (hc : s.control = .starting) :
    Moves F extended s (.rebuild clock) (restart F s clock)
  | announce (hc : s.control = .announcing) :
    Moves F extended s .announce { s.notify with control := .spawning }
  | spawn (hc : s.control = .spawning) :
    Moves F extended s .spawn { s with control := .idle, detect := .testing }
  | stop (hc : s.control = .idle) :
    Moves F extended s .stop { s with control := if s.stop then .joining else .stopping }
  | clear (hc : s.control = .stopping) :
    Moves F extended s .clear { s with stop := true, queue := [], control := .waking }
  | wake (hc : s.control = .waking) :
    Moves F extended s .wake { s.notify with control := .joining }
  | join (hc : s.control = .joining) (hd : s.detect = .absent ∨ s.detect = .exited) :
    Moves F extended s .join
      { s with control := .idle, detect := .absent, pool := extended && s.pool }

/-- Inversion of a step.

**Proof sketch.** One case for each event, and in each one for the guards of its branch. -/
theorem moves_of_step {F : Arith} {extended : Bool} {s t : State} {e : Event}
    (h : step F extended s e = some t) : Moves F extended s e t := by
  cases e with
  | add call f before now =>
    obtain ⟨timer, ht, h⟩ := Option.bind_eq_some_iff.1 h
    obtain ⟨point, hp, h⟩ := Option.bind_eq_some_iff.1 h
    obtain ⟨id, hid, rfl⟩ := Option.map_eq_some_iff.1 h
    exact .add ht hp hid
  | remove id => exact Option.some.inj h ▸ .remove
  | examine i again =>
    rw [step] at h
    split at h
    · next hd => exact .examine hd (examines_of_examine h)
    · simp at h
  | start =>
    obtain ⟨hc, h⟩ := Option.ite_none_right_eq_some.1 h
    cases hs : s.stop with
    | false => exact (by simpa [hs] using h : s = t) ▸ .started hc hs
    | true =>
      rw [hs] at h
      exact Option.some.inj h ▸ .start hc hs
  | addNotify =>
    obtain ⟨hc, h⟩ := Option.ite_none_right_eq_some.1 h
    exact Option.some.inj h ▸ .addNotify hc
  | test now =>
    obtain ⟨hc, h⟩ := Option.ite_none_right_eq_some.1 h
    exact Option.some.inj h ▸ .test hc
  | wakeup =>
    obtain ⟨hc, h⟩ := Option.ite_none_right_eq_some.1 h
    exact Option.some.inj h ▸ .wakeup hc
  | rebuild clock =>
    obtain ⟨hc, h⟩ := Option.ite_none_right_eq_some.1 h
    exact Option.some.inj h ▸ .rebuild hc
  | announce =>
    obtain ⟨hc, h⟩ := Option.ite_none_right_eq_some.1 h
    exact Option.some.inj h ▸ .announce hc
  | spawn =>
    obtain ⟨hc, h⟩ := Option.ite_none_right_eq_some.1 h
    exact Option.some.inj h ▸ .spawn hc
  | stop =>
    obtain ⟨hc, h⟩ := Option.ite_none_right_eq_some.1 h
    exact Option.some.inj h ▸ .stop hc
  | clear =>
    obtain ⟨hc, h⟩ := Option.ite_none_right_eq_some.1 h
    exact Option.some.inj h ▸ .clear hc
  | wake =>
    obtain ⟨hc, h⟩ := Option.ite_none_right_eq_some.1 h
    exact Option.some.inj h ▸ .wake hc
  | join =>
    obtain ⟨hc, h⟩ := Option.ite_none_right_eq_some.1 h
    exact Option.some.inj h ▸ .join hc.1 hc.2

/-- What the step of a due entry does.

**Proof sketch.** One case for what the thread finds at the front of the queue; only an entry that
is due is taken. -/
lemma dispatches_of_taken {F : Arith} {extended : Bool} {s t : State} {i : ℕ} {again : Clock}
    (hstep : step F extended s (.examine i again) = some t) {x : IntervalS}
    (hx : x ∈ taken s (.examine i again)) :
    s.queue[i]? = some x ∧ Dispatches { s with queue := s.queue.eraseIdx i } x again t := by
  cases moves_of_step hstep with
  | @examine _ now _ _ hd hex =>
    obtain ⟨hi, h0, hle⟩ : s.queue[i]? = some x ∧ x.timePoint ≠ 0 ∧ x.timePoint ≤ now.now := by
      simpa [taken, hd, Option.filter_eq_some_iff] using hx
    refine ⟨hi, ?_⟩
    cases hex with
    | wait hq => simp [hq] at hi
    | finish hi' h0' =>
      obtain rfl := Option.some.inj (hi.symm.trans hi')
      exact absurd h0' h0
    | sleep hi' hlt =>
      obtain rfl := Option.some.inj (hi.symm.trans hi')
      exact absurd hlt (not_lt.2 hle)
    | due hi' _ _ hd' =>
      obtain rfl := Option.some.inj (hi.symm.trans hi')
      exact hd'

end HkuUtils.TimerManager
