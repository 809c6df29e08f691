import Mathlib.Algebra.Order.Ring.Int
import HkuUtils.Transition
import HkuUtils.Pool.Stock

set_option relaxedAutoImplicit false
set_option autoImplicit false

/-!
# The coroutine pools, one segment at a time

`ResourceAsioPool` and `ResourceAsioVersionPool` of `ResourceAsioPool.h`, on an executor with one
thread: a coroutine in `get` runs without interruption up to `co_await timer->async_wait` and,
once the wait has ended, from there to its end. The two classes differ in the version test only,
so they are one model with a `Kind`; `ResourceAsioPool.system` and
`ResourceAsioVersionPool.system` are its two instances.

A call of `get` is known by its number. The same number names the timer it may wait on and the
closer of the handle it may return.

## Main definitions

* `HkuUtils.AsioPool.State` — the members of the pool, the handles of the callers, and the
  state of the wait timers.
* `HkuUtils.AsioPool.get`, `resume`, `returnResource`, `release`, `releaseIdleResource`,
  `setParam`, `setParameter`, `incVersion`, `destroy` — the functions of the classes.
* `HkuUtils.AsioPool.Event`, `step`, `system` — the pool as a transition system.

## Main results

* `HkuUtils.AsioPool.fires_of_step` — what each event can do.

## Design

The wait of a coroutine ends with the timer's expiry or with `operation_aborted`. The handler is
queued at that moment and the coroutine goes on later, so there is a time in which the outcome is
settled and `cancel()` has no effect any more. The lists `armed`, `cancelled`, `expired` and
`interrupted` say where each waiting call is. `interrupted` is for a wait that is ended from
outside of the pool; the `catch (...)` of `get` maps it to `operation_aborted`.

`m_count` and `m_idleCount` are integers here, so a decrement below zero would be seen.
-/

namespace HkuUtils.AsioPool

open Transition

variable {P N V : Type}

/-- The exceptions of `get`, all of the class `CreateResourceException`. -/
inductive GetError where
  /-- The construction of a new resource failed. -/
  | createFailed (how : Construction)
  /-- The idle queue is empty after a wait that ended with `operation_aborted`. -/
  | noResourceAfterWakeup
  /-- The resource found after the wait is stale. -/
  | versionMismatch
  /-- The wait timer has expired. -/
  | timeout (maxCount : ℕ) (currentCount : ℤ)
  deriving DecidableEq, Repr

/-- The text of an exception of `get`. -/
def GetError.message (k : Kind) : GetError → String
  | .createFailed how => how.message.getD ""
  | .noResourceAfterWakeup => "Unexpected error: no available resource after wakeup"
  | .versionMismatch => "Resource version mismatch after wakeup"
  | .timeout maxCount currentCount =>
    (if k = .plain then "ResourceAsioPool" else "ResourceAsioVersionPool") ++
      " get timeout, max_count=" ++ toString maxCount ++ ", current_count=" ++
      toString currentCount

/-- How a segment of `get` ends. -/
inductive GetResult (P : Type) where
  | lent (h : Handle P)
  | suspended
  | threw (e : GetError)
  deriving DecidableEq, Repr

/-- A pool with its callers.

Behind the members of the class stand those that the language keeps: the calls that wait, by what
has become of their timers, and the handles that are held. -/
structure State (P : Type) extends Stock P where
  /-- `m_idleCount`. -/
  idleCount : ℤ
  /-- `m_maxCount`. -/
  maxCount : ℕ
  /-- `m_param`. -/
  param : P
  /-- `m_version`. -/
  version : BitVec 32
  /-- `m_closer_set`. -/
  closerSet : Finset ℕ
  /-- `m_waiters`, the front first. -/
  waiters : List ℕ
  /-- The calls whose wait goes on. -/
  armed : List ℕ
  /-- The calls whose wait `returnResource` has cancelled and that have not resumed. -/
  cancelled : List ℕ
  /-- The calls whose timer has expired and that have not resumed. -/
  expired : List ℕ
  /-- The calls whose wait was ended from outside and that have not resumed. -/
  interrupted : List ℕ
  /-- How many calls of `get` there were. -/
  gets : ℕ
  /-- The pool has not been destroyed. -/
  alive : Bool
  deriving DecidableEq

namespace State

/-- `p` is off the queue, `rest` stays on it. -/
def pop (s : State P) (rest : List (Resource P)) : State P :=
  { s with toStock := s.toStock.pop rest, idleCount := s.idleCount - 1 }

/-- `delete p` and `m_count.fetch_sub(1)`. -/
def discard (s : State P) (p : Resource P) : State P :=
  { s with toStock := s.toStock.discard p }

/-- There is a resource at the front of the queue and it is not stale. -/
def frontCurrent (k : Kind) (s : State P) : Bool :=
  s.resourceList.head?.any fun p => !k.stale s.version p

/-- `ResourcePtr(p, ResourceCloser(this))` goes to the caller of the call `c`. -/
def lend (s : State P) (c : ℕ) (p : Resource P) : State P :=
  { s with toStock := s.toStock.lend c p }

/-- `m_closer_set.insert(std::get_deleter<ResourceCloser>(result))`. -/
def register (s : State P) (c : ℕ) : State P :=
  { s with closerSet := insert c s.closerSet }

/-- The resource that a construction makes. -/
def fresh (s : State P) : Resource P := ⟨s.made, s.version, s.param⟩

/-- `p = new ResourceType(m_param)` and `m_count.fetch_add(1)`. -/
def construct (s : State P) : State P := { s with toStock := s.toStock.construct }

/-- The call `c` goes to the back of the waiter queue and its timer is started. -/
def park (s : State P) (c : ℕ) : State P :=
  { s with waiters := s.waiters ++ [c], armed := c :: s.armed }

/-- `timer->cancel()`, without effect if the wait of the call has already ended. -/
def cancel (s : State P) (c : ℕ) : State P :=
  if c ∈ s.armed then { s with armed := s.armed.erase c, cancelled := c :: s.cancelled } else s

/-- The front waiter is popped and its timer cancelled. -/
def wake (s : State P) : State P :=
  match s.waiters with
  | [] => s
  | w :: rest => ({ s with waiters := rest }).cancel w

/-- The timer of `c` taken off the waiter queue: the front is popped, elsewhere the queue is
copied without it. -/
def removeTimer (c : ℕ) : List ℕ → List ℕ
  | [] => []
  | w :: rest => if w = c then rest else (w :: rest).filter (· ≠ c)

/-- The call `c` resumes and leaves the waiter queue. -/
def leave (s : State P) (c : ℕ) : State P :=
  { s with
    waiters := removeTimer c s.waiters
    cancelled := s.cancelled.erase c
    expired := s.expired.erase c
    interrupted := s.interrupted.erase c }

/-- The handle with the closer `c` is gone. -/
def drop (s : State P) (c : ℕ) : State P := { s with toStock := s.toStock.drop c }

/-- `m_resourceList.push(p)` and `m_idleCount.fetch_add(1)`. -/
def push (s : State P) (p : Resource P) : State P :=
  { s with toStock := s.toStock.push p, idleCount := s.idleCount + 1 }

/-- `m_closer_set.erase(closer)`. -/
def unregister (s : State P) (c : ℕ) : State P :=
  { s with closerSet := s.closerSet.erase c }

end State

/-! ## The functions of the classes -/

/-- The second and third part of `get`: below the limit a new resource is made, at the limit
the call waits. -/
def createOrWait (s : State P) (c : ℕ) (how : Construction) : State P × GetResult P :=
  if s.maxCount = 0 ∨ s.count < s.maxCount then
    match how with
    | .ok => (((s.construct).lend c s.fresh).register c, .lent ⟨c, s.fresh, true⟩)
    | how => (s, .threw (.createFailed how))
  else (s.park c, .suspended)

/-- `get` up to its end or to its suspension. `how` is the end of a construction, if there
is one. -/
def get (k : Kind) (s : State P) (how : Construction) : State P × GetResult P :=
  let c := s.gets
  let s := { s with gets := c + 1 }
  match s.resourceList with
  | [] => createOrWait s c how
  | p :: rest =>
    if k.stale s.version p then createOrWait ((s.pop rest).discard p) c how
    else ((s.pop rest).lend c p, .lent ⟨c, p, true⟩)

/-- `get` after a wait that ended with `operation_aborted`. -/
def afterWakeup (k : Kind) (s : State P) (c : ℕ) : State P × GetResult P :=
  match s.resourceList with
  | [] => (s, .threw .noResourceAfterWakeup)
  | p :: rest =>
    if k.stale s.version p then ((s.pop rest).discard p, .threw .versionMismatch)
    else ((s.pop rest).lend c p, .lent ⟨c, p, true⟩)

/-- `get` from the end of its wait on. -/
def resume (k : Kind) (s : State P) (c : ℕ) : Option (State P × GetResult P) :=
  if c ∈ s.expired then some (s.leave c, .threw (.timeout s.maxCount s.count))
  else if c ∈ s.cancelled ∨ c ∈ s.interrupted then some (afterWakeup k (s.leave c) c)
  else none

/-- `returnResource`. `pushed` is the result of `m_resourceList.push(p)`. -/
def returnResource (k : Kind) (s : State P) (p : Resource P) (closer : ℕ) (pushed : Bool) :
    State P :=
  if k.stale s.version p then (s.discard p).unregister closer
  else if pushed then ((s.push p).wake).unregister closer
  else ((s.discard p).wake).unregister closer

/-- The last copy of a `ResourcePtr` is dropped and its `ResourceCloser` runs. A closer that is
still bound to a destroyed pool would run `returnResource` on freed memory: there is no such
step. -/
def release (k : Kind) (s : State P) (c : ℕ) (pushed : Bool) : Option (State P) :=
  match s.handles.find? (·.closer = c) with
  | none => none
  | some h =>
    if h.bound then
      if s.alive then some (returnResource k (s.drop c) h.res c pushed) else none
    else some { s.drop c with deleted := h.res.ptr :: s.deleted }

/-- The loop of `releaseIdleResource` over the queue. -/
def releaseLoop : List (Resource P) → State P → State P
  | [], s => s
  | p :: rest, s => releaseLoop rest ((s.pop rest).discard p)

/-- `releaseIdleResource`. -/
def releaseIdleResource (s : State P) : State P := releaseLoop s.resourceList s

/-- New parameters are stored, the version is incremented and the idle resources are released. -/
def replaceParam (s : State P) (param : P) : State P :=
  releaseIdleResource { s with param := param, version := s.version + 1 }

/-- `setParam`; an exception leaves the pool as it was. -/
def setParam [ParameterOps P N V] [BEq V] (s : State P) (name : N) (value : V) : State P :=
  match changeParam s.param name value with
  | .ok (some param) => replaceParam s param
  | .ok none => s
  | .error _ => s

/-- `setParameter`. -/
def setParameter (s : State P) (param : P) : State P := replaceParam s param

/-- `incVersion`; its argument is not used. -/
def incVersion (s : State P) : State P := { s with version := s.version + 1 }

/-- The destructor: the closers in `m_closer_set` are unbound and the idle resources deleted. -/
def destroy (s : State P) : State P :=
  { s with
    handles := s.handles.map fun h =>
      if h.closer ∈ s.closerSet then { h with bound := false } else h
    deleted := s.resourceList.map (·.ptr) ++ s.deleted
    resourceList := []
    alive := false }

/-! ## The pool as a transition system -/

/-- What can happen to a pool. What a resource does when it is made is part of the event, and so is
whether a push succeeds. -/
inductive Event (P N V : Type) where
  /-- A coroutine calls `get`. -/
  | get (how : Construction)
  /-- The timer of a waiting call expires. -/
  | expire (c : ℕ)
  /-- The wait of a call is ended from outside. -/
  | interrupt (c : ℕ)
  /-- A call whose wait has ended goes on. -/
  | resume (c : ℕ)
  /-- A handle is dropped. -/
  | release (c : ℕ) (pushed : Bool)
  | releaseIdleResource
  | setParam (name : N) (value : V)
  | setParameter (param : P)
  | incVersion
  | destroy

/-- The timer of a waiting call expires. -/
def expire (s : State P) (c : ℕ) : Option (State P) :=
  if c ∈ s.armed then some { s with armed := s.armed.erase c, expired := c :: s.expired }
  else none

/-- The wait of a call is ended from outside. -/
def interrupt (s : State P) (c : ℕ) : Option (State P) :=
  if c ∈ s.armed then some { s with armed := s.armed.erase c, interrupted := c :: s.interrupted }
  else none

/-- The step of an event on a pool that exists. The parameters and the version can be changed only
in the class that has versions. -/
def stepAlive [ParameterOps P N V] [BEq V] (k : Kind) (s : State P) :
    Event P N V → Option (State P)
  | .get how => some (get k s how).1
  | .expire c => expire s c
  | .interrupt c => interrupt s c
  | .resume c => (resume k s c).map Prod.fst
  | .release c pushed => release k s c pushed
  | .releaseIdleResource => some (releaseIdleResource s)
  | .setParam name value => if k = .versioned then some (setParam s name value) else none
  | .setParameter param => if k = .versioned then some (setParameter s param) else none
  | .incVersion => if k = .versioned then some (incVersion s) else none
  | .destroy => some (destroy s)

/-- The step of an event. After the destructor handles can still be dropped, nothing else. -/
def step [ParameterOps P N V] [BEq V] (k : Kind) (s : State P) (e : Event P N V) :
    Option (State P) :=
  if s.alive then stepAlive k s e
  else match e with
    | .release c pushed => release k s c pushed
    | _ => none

/-- **The ways in which a call resumes** behind its wait. It has a timer that has expired, or it
was cancelled, by a return or from outside, and then it looks at the queue once. -/
inductive Resumes (k : Kind) (s : State P) (c : ℕ) : State P → GetResult P → Prop where
  /-- Its timer has expired. -/
  | timedOut (hc : c ∈ s.expired) :
    Resumes k s c (s.leave c) (.threw (.timeout s.maxCount s.count))
  /-- Its wait was cancelled and the queue is empty. -/
  | empty (hc : c ∈ s.cancelled ∨ c ∈ s.interrupted) (hne : c ∉ s.expired)
    (hs : s.resourceList = []) : Resumes k s c (s.leave c) (.threw .noResourceAfterWakeup)
  /-- Its wait was cancelled and the resource at the front is stale. -/
  | mismatch {p : Resource P} {rest : List (Resource P)}
    (hc : c ∈ s.cancelled ∨ c ∈ s.interrupted) (hne : c ∉ s.expired)
    (hs : s.resourceList = p :: rest) (hp : k.stale s.version p = true) :
    Resumes k s c (((s.leave c).pop rest).discard p) (.threw .versionMismatch)
  /-- Its wait was cancelled and it returns the resource at the front. -/
  | lent {p : Resource P} {rest : List (Resource P)}
    (hc : c ∈ s.cancelled ∨ c ∈ s.interrupted) (hne : c ∉ s.expired)
    (hs : s.resourceList = p :: rest) (hp : k.stale s.version p = false) :
    Resumes k s c (((s.leave c).pop rest).lend c p) (.lent ⟨c, p, true⟩)

/-- `resume` in one of its ways.

**Proof sketch.** One case for each reason to resume, and in each for what is in the queue. -/
lemma resumes_of_resume {k : Kind} {s t : State P} {c : ℕ} {r : GetResult P}
    (h : resume k s c = some (t, r)) : Resumes k s c t r := by
  unfold resume at h
  split at h
  · next hc =>
    simp only [Option.some.injEq, Prod.mk.injEq] at h
    obtain ⟨rfl, rfl⟩ := h
    exact .timedOut hc
  split at h
  · next hne hc =>
    simp only [afterWakeup, Option.some.injEq] at h
    split at h
    · next hs =>
      simp only [Prod.mk.injEq] at h
      obtain ⟨rfl, rfl⟩ := h
      exact .empty hc hne hs
    · next p rest hs =>
      split at h
      · next hp =>
        simp only [Prod.mk.injEq] at h
        obtain ⟨rfl, rfl⟩ := h
        exact .mismatch hc hne hs hp
      · next hp =>
        simp only [Prod.mk.injEq] at h
        obtain ⟨rfl, rfl⟩ := h
        exact .lent hc hne hs (Bool.eq_false_of_not_eq_true hp)
  · simp at h

/-- **The ways in which an event changes a pool.** Each constructor is one branch of the code, with
the guards that lead to it and the state that it leaves. -/
inductive Fires [ParameterOps P N V] [BEq V] (k : Kind) (s : State P) :
    Event P N V → State P → Prop where
  | get (how : Construction) (halive : s.alive = true) : Fires k s (.get how) (get k s how).1
  | expire {c : ℕ} (halive : s.alive = true) (hc : c ∈ s.armed) :
    Fires k s (.expire c) { s with armed := s.armed.erase c, expired := c :: s.expired }
  | interrupt {c : ℕ} (halive : s.alive = true) (hc : c ∈ s.armed) :
    Fires k s (.interrupt c) { s with armed := s.armed.erase c, interrupted := c :: s.interrupted }
  | resume {c : ℕ} {t : State P} {r : GetResult P} (halive : s.alive = true)
    (hr : Resumes k s c t r) : Fires k s (.resume c) t
  /-- A bound closer returns its resource. -/
  | returned {c : ℕ} {hd : Handle P} (pushed : Bool) (halive : s.alive = true)
    (hf : s.handles.find? (·.closer = c) = some hd) (hb : hd.bound = true) :
    Fires k s (.release c pushed) (returnResource k (s.drop c) hd.res c pushed)
  /-- A closer without pool deletes its resource. -/
  | freed {c : ℕ} {hd : Handle P} (pushed : Bool)
    (hf : s.handles.find? (·.closer = c) = some hd) (hb : hd.bound = false) :
    Fires k s (.release c pushed) { s.drop c with deleted := hd.res.ptr :: s.deleted }
  | releaseIdleResource (halive : s.alive = true) :
    Fires k s .releaseIdleResource (releaseIdleResource s)
  /-- `setParam` throws or finds the value that is there. -/
  | setParamKept (name : N) (value : V) (halive : s.alive = true) (hk : k = .versioned) :
    Fires k s (.setParam name value) s
  | setParam {name : N} {value : V} {param : P} (halive : s.alive = true) (hk : k = .versioned)
    (hp : changeParam s.param name value = .ok (some param)) :
    Fires k s (.setParam name value) (replaceParam s param)
  | setParameter (param : P) (halive : s.alive = true) (hk : k = .versioned) :
    Fires k s (.setParameter param) (replaceParam s param)
  | incVersion (halive : s.alive = true) (hk : k = .versioned) :
    Fires k s .incVersion (incVersion s)
  | destroy (halive : s.alive = true) : Fires k s .destroy (destroy s)

/-- `release` in one of its ways. -/
lemma fires_of_release [ParameterOps P N V] [BEq V] {k : Kind} {s t : State P} {c : ℕ}
    {pushed : Bool} (h : release k s c pushed = some t) :
    Fires (N := N) (V := V) k s (.release c pushed) t := by
  unfold release at h
  split at h
  · simp at h
  next hd hf =>
  split at h
  · next hb =>
    split at h
    · next halive => exact Option.some.inj h ▸ .returned pushed halive hf hb
    · simp at h
  · next hb => exact Option.some.inj h ▸ .freed pushed hf (by simpa using hb)

/-- **Inversion of a step**: what an event can do, with the guards it passed.

**Proof sketch.** One case for each event, and in each one for the guards of its branch; after the
destruction of the pool only releases are left. -/
theorem fires_of_step [ParameterOps P N V] [BEq V] {k : Kind} {s t : State P} {e : Event P N V}
    (h : step k s e = some t) : Fires k s e t := by
  unfold step at h
  split at h
  swap
  · split at h
    · exact fires_of_release h
    · simp at h
  next halive =>
  cases e with
  | get how => exact Option.some.inj h ▸ .get how halive
  | expire c =>
    obtain ⟨hc, rfl⟩ : c ∈ s.armed ∧ _ = t := by simpa [stepAlive, AsioPool.expire] using h
    exact .expire halive hc
  | interrupt c =>
    obtain ⟨hc, rfl⟩ : c ∈ s.armed ∧ _ = t := by simpa [stepAlive, AsioPool.interrupt] using h
    exact .interrupt halive hc
  | resume c =>
    obtain ⟨⟨u, r⟩, hr, rfl⟩ := Option.map_eq_some_iff.mp h
    exact .resume halive (resumes_of_resume hr)
  | release c pushed => exact fires_of_release h
  | releaseIdleResource => exact Option.some.inj h ▸ .releaseIdleResource halive
  | setParam name value =>
    obtain ⟨hk, rfl⟩ : k = .versioned ∧ AsioPool.setParam s name value = t := by
      simpa [stepAlive] using h
    unfold AsioPool.setParam
    split
    · next hp => exact .setParam halive hk hp
    · exact .setParamKept name value halive hk
    · exact .setParamKept name value halive hk
  | setParameter param =>
    obtain ⟨hk, rfl⟩ : k = .versioned ∧ AsioPool.setParameter s param = t := by
      simpa [stepAlive] using h
    exact .setParameter param halive hk
  | incVersion =>
    obtain ⟨hk, rfl⟩ : k = .versioned ∧ AsioPool.incVersion s = t := by simpa [stepAlive] using h
    exact .incVersion halive hk
  | destroy => exact Option.some.inj h ▸ .destroy halive

/-- A pool after its constructor. -/
def State.init (param : P) (maxCount : ℕ) : State P where
  count := 0
  idleCount := 0
  maxCount := maxCount
  param := param
  resourceList := []
  version := 0
  closerSet := ∅
  waiters := []
  handles := []
  armed := []
  cancelled := []
  expired := []
  interrupted := []
  gets := 0
  made := 0
  deleted := []
  alive := true

/-- The runs of a pool. -/
def system [ParameterOps P N V] [BEq V] (k : Kind) (param : P) (maxCount : ℕ) :
    System (State P) (Event P N V) where
  init := State.init param maxCount
  step := step k

end HkuUtils.AsioPool

namespace HkuUtils

open Transition AsioPool

variable {P N V : Type}

/-- The runs of a `ResourceAsioPool`. -/
abbrev ResourceAsioPool.system [ParameterOps P N V] [BEq V] (param : P) (maxCount : ℕ) :
    System (State P) (Event P N V) := AsioPool.system .plain param maxCount

/-- The runs of a `ResourceAsioVersionPool`. -/
abbrev ResourceAsioVersionPool.system [ParameterOps P N V] [BEq V] (param : P) (maxCount : ℕ) :
    System (State P) (Event P N V) := AsioPool.system .versioned param maxCount

end HkuUtils
