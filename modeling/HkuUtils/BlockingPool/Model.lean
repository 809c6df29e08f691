import Mathlib.Algebra.Order.Ring.Int
import HkuUtils.Transition
import HkuUtils.Pool.Stock

set_option relaxedAutoImplicit false
set_option autoImplicit false

/-!
# The blocking pools

`ResourcePool` and `ResourceVersionPool` of `ResourcePool.h`. Each function holds `m_mutex` from
its first line to its last, so each is one step; only `getWaitFor` gives the mutex away, while it
waits on `m_cond`. The two classes differ in the version test of `returnResource` only, so they
are one model with a `Kind`; `ResourcePool.system` and `ResourceVersionPool.system` are its two
instances.

A call that returns a handle or waits is known by its number, which also names the closer of its
handle.

## Main definitions

* `HkuUtils.BlockingPool.State` — the members of the pool, the handles of the callers and the
  threads that wait.
* `HkuUtils.BlockingPool.get`, `getWaitFor`, `resume`, `returnResource`, `release`,
  `releaseIdleResource`, `setParam`, `setParameter`, `incVersion`, `destroy` — the functions of
  the classes.
* `HkuUtils.BlockingPool.Event`, `step`, `system` — the pool as a transition system.

## Main results

* `HkuUtils.BlockingPool.fires_of_step` — what each event can do.

## Design

A thread that waits sleeps until it is notified, wakes without cause or has waited for
`ms_timeout`; then it needs the mutex again, and others may have it first. The lists `sleeping`,
`notified` and `timedOut` say where each waiting thread is. The mutable limits `maxPoolSize(num)`
and `maxIdleSize(num)` are not modelled.
-/

namespace HkuUtils.BlockingPool

open Transition

variable {P N V : Type}

/-- The exceptions of `get` and `getWaitFor`. -/
inductive GetError where
  /-- `CreateResourceException`: the construction of a new resource failed. -/
  | createFailed (how : Construction)
  /-- `GetResourceTimeoutException`: there was no idle resource at the end of the wait. -/
  | timeout
  deriving DecidableEq, Repr

/-- The text of an exception. -/
def GetError.message : GetError → String
  | .createFailed how => how.message.getD ""
  | .timeout => "Failed get resource!"

/-- How a call ends, or that it waits. -/
inductive GetResult (P : Type) where
  | lent (h : Handle P)
  /-- A null pointer. -/
  | null
  | waits
  | threw (e : GetError)
  deriving DecidableEq, Repr

/-- A thread in `m_cond.wait` or `m_cond.wait_for`. -/
structure Waiter where
  /-- The number of the call. -/
  call : ℕ
  /-- `ms_timeout > 0`: the wait has an end. -/
  timed : Bool
  deriving DecidableEq, Repr

/-- A pool with its callers.

Behind the members of the class stand the threads that wait in its condition variable, by what has
become of their waits. -/
structure State (P : Type) extends Stock P where
  /-- `m_maxPoolSize`. -/
  maxPoolSize : ℕ
  /-- `m_maxIdelSize`. -/
  maxIdelSize : ℕ
  /-- `m_param`. -/
  param : P
  /-- `m_version`. -/
  version : BitVec 32
  /-- `m_closer_set`. -/
  closerSet : Finset ℕ
  /-- The threads that sleep in `m_cond`. -/
  sleeping : List Waiter
  /-- The threads that were notified, or woke without cause, and wait for the mutex. -/
  notified : List Waiter
  /-- The calls whose wait has timed out and that wait for the mutex. -/
  timedOut : List ℕ
  /-- How many calls have returned a handle at once or waited. -/
  calls : ℕ
  /-- The pool has not been destroyed. -/
  alive : Bool
  deriving DecidableEq

namespace State

/-- `m_maxPoolSize > 0 && m_count >= m_maxPoolSize`. -/
def full (s : State P) : Bool := 0 < s.maxPoolSize ∧ s.maxPoolSize ≤ s.count

/-- `result = ResourcePtr(p, ResourceCloser(this))` goes to the caller of `c`, and
`m_closer_set.insert(std::get_deleter<ResourceCloser>(result))`. -/
def lend (s : State P) (c : ℕ) (p : Resource P) : State P :=
  { s with toStock := s.toStock.lend c p, closerSet := insert c s.closerSet }

/-- The front is popped, `rest` stays on the queue. -/
def pop (s : State P) (rest : List (Resource P)) : State P :=
  { s with toStock := s.toStock.pop rest }

/-- The resource that a construction makes. -/
def fresh (s : State P) : Resource P := ⟨s.made, s.version, s.param⟩

/-- `p = new ResourceType(m_param)` and `m_count++`. -/
def construct (s : State P) : State P := { s with toStock := s.toStock.construct }

/-- The handle with the closer `c` is gone. -/
def drop (s : State P) (c : ℕ) : State P := { s with toStock := s.toStock.drop c }

/-- `m_resourceList.push(p)`. -/
def push (s : State P) (p : Resource P) : State P := { s with toStock := s.toStock.push p }

/-- `delete p` and `m_count--`. -/
def discard (s : State P) (p : Resource P) : State P := { s with toStock := s.toStock.discard p }

/-- `m_cond.notify_all()`. -/
def notifyAll (s : State P) : State P :=
  { s with notified := s.notified ++ s.sleeping, sleeping := [] }

/-- `m_closer_set.erase(closer)`. -/
def unregister (s : State P) (c : ℕ) : State P :=
  { s with closerSet := s.closerSet.erase c }

end State

/-! ## The functions of the classes -/

/-- A new resource is made and lent, or the construction fails. -/
def create (s : State P) (how : Construction) : State P × GetResult P :=
  match how with
  | .ok =>
    ({ (s.construct.lend s.calls s.fresh) with calls := s.calls + 1 },
      .lent ⟨s.calls, s.fresh, true⟩)
  | how => (s, .threw (.createFailed how))

/-- The resource at the front of the queue is lent. -/
def take (s : State P) (p : Resource P) (rest : List (Resource P)) : State P × GetResult P :=
  ({ ((s.pop rest).lend s.calls p) with calls := s.calls + 1 }, .lent ⟨s.calls, p, true⟩)

/-- `get`. `how` is the end of a construction, if there is one. -/
def get (s : State P) (how : Construction) : State P × GetResult P :=
  match s.resourceList with
  | [] => if s.full then (s, .null) else create s how
  | p :: rest => take s p rest

/-- `getWaitFor` up to its end or to its wait; `getAndWait` is `getWaitFor(0)`. -/
def getWaitFor (s : State P) (ms_timeout : ℕ) (how : Construction) : State P × GetResult P :=
  match s.resourceList with
  | [] =>
    if s.full then
      ({ s with sleeping := ⟨s.calls, 0 < ms_timeout⟩ :: s.sleeping, calls := s.calls + 1 },
        .waits)
    else create s how
  | p :: rest => take s p rest

/-- `getWaitFor` when it has the mutex again, with the state without the waiting thread: the
predicate of the wait is whether the queue has a resource. Without one, a thread that was notified
sleeps again and one that has timed out throws. -/
def resume (s : State P) (c : ℕ) : Option (State P × GetResult P) :=
  match s.notified.find? (·.call = c) with
  | some w =>
    let s := { s with notified := s.notified.erase w }
    match s.resourceList with
    | [] => some ({ s with sleeping := w :: s.sleeping }, .waits)
    | p :: rest => some ((s.pop rest).lend c p, .lent ⟨c, p, true⟩)
  | none =>
    if c ∈ s.timedOut then
      let s := { s with timedOut := s.timedOut.erase c }
      match s.resourceList with
      | [] => some (s, .threw .timeout)
      | p :: rest => some ((s.pop rest).lend c p, .lent ⟨c, p, true⟩)
    else none

/-- `returnResource`. -/
def returnResource (k : Kind) (s : State P) (p : Resource P) (closer : ℕ) : State P :=
  if k.stale s.version p = false ∧ s.resourceList.length < s.maxIdelSize then
    ((s.push p).notifyAll).unregister closer
  else (s.discard p).unregister closer

/-- The last copy of a `ResourcePtr` is dropped and its `ResourceCloser` runs. A closer that is
still bound to a destroyed pool would run `returnResource` on freed memory: there is no such
step. -/
def release (k : Kind) (s : State P) (c : ℕ) : Option (State P) :=
  match s.handles.find? (·.closer = c) with
  | none => none
  | some h =>
    if h.bound then
      if s.alive then some (returnResource k (s.drop c) h.res c) else none
    else some { s.drop c with deleted := h.res.ptr :: s.deleted }

/-- The loop of `_releaseIdleResourceNoLock` over the queue. -/
def releaseLoop : List (Resource P) → State P → State P
  | [], s => s
  | p :: rest, s => releaseLoop rest ((s.pop rest).discard p)

/-- `releaseIdleResource`. -/
def releaseIdleResource (s : State P) : State P := releaseLoop s.resourceList s

/-- New parameters are stored, the version is incremented and the idle resources are released. -/
def replaceParam (s : State P) (param : P) : State P :=
  releaseIdleResource { s with param := param, version := s.version + 1 }

/-- `setParam`; an exception leaves the pool as it was. -/
def setParam [ParameterOps P N V] [BEq V] (s : State P) (name : N) (value : V) : State P :=
  match changeParam s.param name value with
  | .ok (some param) => replaceParam s param
  | .ok none => s
  | .error _ => s

/-- `setParameter`. -/
def setParameter (s : State P) (param : P) : State P := replaceParam s param

/-- `incVersion`; its argument is not used. -/
def incVersion (s : State P) : State P := { s with version := s.version + 1 }

/-- The destructor: the closers in `m_closer_set` are unbound and the idle resources deleted. -/
def destroy (s : State P) : State P :=
  { s with
    handles := s.handles.map fun h =>
      if h.closer ∈ s.closerSet then { h with bound := false } else h
    deleted := s.resourceList.map (·.ptr) ++ s.deleted
    resourceList := []
    alive := false }

/-! ## The pool as a transition system -/

/-- What can happen to a pool. A wait may end without cause, as the language allows. -/
inductive Event (P N V : Type) where
  | get (how : Construction)
  | getWaitFor (ms_timeout : ℕ) (how : Construction)
  /-- A thread wakes in `m_cond` without cause. -/
  | wakeUp (w : Waiter)
  /-- The time of a waiting thread is over. -/
  | timeout (w : Waiter)
  /-- A thread whose wait has ended gets the mutex. -/
  | resume (c : ℕ)
  /-- A handle is dropped. -/
  | release (c : ℕ)
  | releaseIdleResource
  | setParam (name : N) (value : V)
  | setParameter (param : P)
  | incVersion
  | destroy

/-- The step of an event on a pool that exists. All of it happens under the mutex of the pool; a
waiting thread has given it back. -/
def stepAlive [ParameterOps P N V] [BEq V] (k : Kind) (s : State P) :
    Event P N V → Option (State P)
  | .get how => some (get s how).1
  | .getWaitFor ms_timeout how => some (getWaitFor s ms_timeout how).1
  | .wakeUp w =>
    if w ∈ s.sleeping then
      some { s with sleeping := s.sleeping.erase w, notified := w :: s.notified }
    else none
  | .timeout w =>
    if w.timed ∧ w ∈ s.sleeping then
      some { s with sleeping := s.sleeping.erase w, timedOut := w.call :: s.timedOut }
    else if w.timed ∧ w ∈ s.notified then
      some { s with notified := s.notified.erase w, timedOut := w.call :: s.timedOut }
    else none
  | .resume c => (resume s c).map Prod.fst
  | .release c => release k s c
  | .releaseIdleResource => some (releaseIdleResource s)
  | .setParam name value => if k = .versioned then some (setParam s name value) else none
  | .setParameter param => if k = .versioned then some (setParameter s param) else none
  | .incVersion => if k = .versioned then some (incVersion s) else none
  | .destroy => some (destroy s)

/-- The step of an event. After the destructor handles can still be dropped, nothing else. -/
def step [ParameterOps P N V] [BEq V] (k : Kind) (s : State P) (e : Event P N V) :
    Option (State P) :=
  if s.alive then stepAlive k s e
  else match e with
    | .release c => release k s c
    | _ => none

/-- **The ways in which a thread goes on after its wait**, once it has the mutex again. It looks at
the queue, and not at the number of resources. -/
inductive Resumes (s : State P) (c : ℕ) : State P → GetResult P → Prop where
  /-- It was notified and another thread had the resource first. -/
  | sleepsAgain {w : Waiter} (hf : s.notified.find? (·.call = c) = some w)
    (hs : s.resourceList = []) :
    Resumes s c { s with notified := s.notified.erase w, sleeping := w :: s.sleeping } .waits
  /-- It was notified and takes the resource at the front. -/
  | notified {w : Waiter} {p : Resource P} {rest : List (Resource P)}
    (hf : s.notified.find? (·.call = c) = some w) (hs : s.resourceList = p :: rest) :
    Resumes s c ((State.pop { s with notified := s.notified.erase w } rest).lend c p)
      (.lent ⟨c, p, true⟩)
  /-- Its time is over and there is no resource. -/
  | timeout (hc : c ∈ s.timedOut) (hs : s.resourceList = []) :
    Resumes s c { s with timedOut := s.timedOut.erase c } (.threw .timeout)
  /-- Its time is over and it takes the resource at the front all the same. -/
  | late {p : Resource P} {rest : List (Resource P)} (hc : c ∈ s.timedOut)
    (hs : s.resourceList = p :: rest) :
    Resumes s c ((State.pop { s with timedOut := s.timedOut.erase c } rest).lend c p)
      (.lent ⟨c, p, true⟩)

/-- `resume` in one of its ways.

**Proof sketch.** One case for each list the call may be in, and in each for what is in the
queue. -/
lemma resumes_of_resume {s t : State P} {c : ℕ} {r : GetResult P}
    (h : resume s c = some (t, r)) : Resumes s c t r := by
  unfold resume at h
  split at h
  · next w hf =>
    simp only at h
    split at h
    · next hs =>
      simp only [Option.some.injEq, Prod.mk.injEq] at h
      obtain ⟨rfl, rfl⟩ := h
      exact .sleepsAgain hf hs
    · next p rest hs =>
      simp only [Option.some.injEq, Prod.mk.injEq] at h
      obtain ⟨rfl, rfl⟩ := h
      exact .notified hf hs
  · split at h
    swap
    · simp at h
    next hc =>
    simp only at h
    split at h
    · next hs =>
      simp only [Option.some.injEq, Prod.mk.injEq] at h
      obtain ⟨rfl, rfl⟩ := h
      exact .timeout hc hs
    · next p rest hs =>
      simp only [Option.some.injEq, Prod.mk.injEq] at h
      obtain ⟨rfl, rfl⟩ := h
      exact .late hc hs

/-- **The ways in which an event changes a pool.** Each constructor is one branch of the code, with
the guards that lead to it and the state that it leaves. -/
inductive Fires [ParameterOps P N V] [BEq V] (k : Kind) (s : State P) :
    Event P N V → State P → Prop where
  | get (how : Construction) (halive : s.alive = true) : Fires k s (.get how) (get s how).1
  | getWaitFor (ms_timeout : ℕ) (how : Construction) (halive : s.alive = true) :
    Fires k s (.getWaitFor ms_timeout how) (getWaitFor s ms_timeout how).1
  | wakeUp {w : Waiter} (halive : s.alive = true) (hw : w ∈ s.sleeping) :
    Fires k s (.wakeUp w) { s with sleeping := s.sleeping.erase w, notified := w :: s.notified }
  | timeout {w : Waiter} (halive : s.alive = true) (ht : w.timed = true) (hw : w ∈ s.sleeping) :
    Fires k s (.timeout w)
      { s with sleeping := s.sleeping.erase w, timedOut := w.call :: s.timedOut }
  /-- The time is over when the thread has been notified. -/
  | timeoutNotified {w : Waiter} (halive : s.alive = true) (ht : w.timed = true)
    (hw : w ∈ s.notified) :
    Fires k s (.timeout w)
      { s with notified := s.notified.erase w, timedOut := w.call :: s.timedOut }
  | resume {c : ℕ} {t : State P} {r : GetResult P} (halive : s.alive = true)
    (hr : Resumes s c t r) : Fires k s (.resume c) t
  /-- A bound closer returns its resource. -/
  | returned {c : ℕ} {hd : Handle P} (halive : s.alive = true)
    (hf : s.handles.find? (·.closer = c) = some hd) (hb : hd.bound = true) :
    Fires k s (.release c) (returnResource k (s.drop c) hd.res c)
  /-- A closer without pool deletes its resource. -/
  | freed {c : ℕ} {hd : Handle P} (hf : s.handles.find? (·.closer = c) = some hd)
    (hb : hd.bound = false) :
    Fires k s (.release c) { s.drop c with deleted := hd.res.ptr :: s.deleted }
  | releaseIdleResource (halive : s.alive = true) :
    Fires k s .releaseIdleResource (releaseIdleResource s)
  /-- `setParam` throws or finds the value that is there. -/
  | setParamKept (name : N) (value : V) (halive : s.alive = true) (hk : k = .versioned) :
    Fires k s (.setParam name value) s
  | setParam {name : N} {value : V} {param : P} (halive : s.alive = true) (hk : k = .versioned)
    (hp : changeParam s.param name value = .ok (some param)) :
    Fires k s (.setParam name value) (replaceParam s param)
  | setParameter (param : P) (halive : s.alive = true) (hk : k = .versioned) :
    Fires k s (.setParameter param) (replaceParam s param)
  | incVersion (halive : s.alive = true) (hk : k = .versioned) :
    Fires k s .incVersion (incVersion s)
  | destroy (halive : s.alive = true) : Fires k s .destroy (destroy s)

/-- `release` in one of its ways. -/
lemma fires_of_release [ParameterOps P N V] [BEq V] {k : Kind} {s t : State P} {c : ℕ}
    (h : release k s c = some t) : Fires (N := N) (V := V) k s (.release c) t := by
  unfold release at h
  split at h
  · simp at h
  next hd hf =>
  split at h
  · next hb =>
    split at h
    · next halive => exact Option.some.inj h ▸ .returned halive hf hb
    · simp at h
  · next hb => exact Option.some.inj h ▸ .freed hf (by simpa using hb)

/-- **Inversion of a step**: what an event can do, with the guards it passed.

**Proof sketch.** One case for each event, and in each one for the guards of its branch; after the
destruction of the pool only releases are left. -/
theorem fires_of_step [ParameterOps P N V] [BEq V] {k : Kind} {s t : State P} {e : Event P N V}
    (h : step k s e = some t) : Fires k s e t := by
  unfold step at h
  split at h
  swap
  · split at h
    · exact fires_of_release h
    · simp at h
  next halive =>
  cases e with
  | get how => exact Option.some.inj h ▸ .get how halive
  | getWaitFor ms_timeout how => exact Option.some.inj h ▸ .getWaitFor ms_timeout how halive
  | wakeUp w =>
    obtain ⟨hw, rfl⟩ : w ∈ s.sleeping ∧ _ = t := by simpa [stepAlive] using h
    exact .wakeUp halive hw
  | timeout w =>
    simp only [stepAlive] at h
    split at h
    · next hw => exact Option.some.inj h ▸ .timeout halive hw.1 hw.2
    split at h
    · next hw => exact Option.some.inj h ▸ .timeoutNotified halive hw.1 hw.2
    · simp at h
  | resume c =>
    obtain ⟨⟨u, r⟩, hr, rfl⟩ := Option.map_eq_some_iff.mp h
    exact .resume halive (resumes_of_resume hr)
  | release c => exact fires_of_release h
  | releaseIdleResource => exact Option.some.inj h ▸ .releaseIdleResource halive
  | setParam name value =>
    obtain ⟨hk, rfl⟩ : k = .versioned ∧ BlockingPool.setParam s name value = t := by
      simpa [stepAlive] using h
    unfold BlockingPool.setParam
    split
    · next hp => exact .setParam halive hk hp
    · exact .setParamKept name value halive hk
    · exact .setParamKept name value halive hk
  | setParameter param =>
    obtain ⟨hk, rfl⟩ : k = .versioned ∧ BlockingPool.setParameter s param = t := by
      simpa [stepAlive] using h
    exact .setParameter param halive hk
  | incVersion =>
    obtain ⟨hk, rfl⟩ : k = .versioned ∧ BlockingPool.incVersion s = t := by
      simpa [stepAlive] using h
    exact .incVersion halive hk
  | destroy => exact Option.some.inj h ▸ .destroy halive

/-- A pool after its constructor. -/
def State.init (param : P) (maxPoolSize maxIdelSize : ℕ) : State P where
  toStock := Stock.empty
  maxPoolSize := maxPoolSize
  maxIdelSize := maxIdelSize
  param := param
  version := 0
  closerSet := ∅
  sleeping := []
  notified := []
  timedOut := []
  calls := 0
  alive := true

/-- The runs of a pool. -/
def system [ParameterOps P N V] [BEq V] (k : Kind) (param : P) (maxPoolSize maxIdelSize : ℕ) :
    System (State P) (Event P N V) where
  init := State.init param maxPoolSize maxIdelSize
  step := step k

end HkuUtils.BlockingPool

namespace HkuUtils

open Transition BlockingPool

variable {P N V : Type}

/-- The runs of a `ResourcePool`. -/
abbrev ResourcePool.system [ParameterOps P N V] [BEq V] (param : P)
    (maxPoolSize maxIdelSize : ℕ) : System (State P) (Event P N V) :=
  BlockingPool.system .plain param maxPoolSize maxIdelSize

/-- The runs of a `ResourceVersionPool`. -/
abbrev ResourceVersionPool.system [ParameterOps P N V] [BEq V] (param : P)
    (maxPoolSize maxIdelSize : ℕ) : System (State P) (Event P N V) :=
  BlockingPool.system .versioned param maxPoolSize maxIdelSize

end HkuUtils
