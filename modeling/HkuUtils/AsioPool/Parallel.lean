import HkuUtils.Threads
import HkuUtils.Pool.Basic

set_option relaxedAutoImplicit false
set_option autoImplicit false

/-!
# The coroutine pools on several threads

An executor with several threads runs the calls of `get` in parallel, and what is one segment of
a coroutine on one thread is a sequence of atomic actions here: a pop of the lock-free queue, a
load or an update of an atomic counter, a section under `m_mutex`. `setParam` and `setParameter`
are one section and so one step.

## Main definitions

* `HkuUtils.AsioPool.Parallel.Shared` — the members of the pool that the calls share.
* `HkuUtils.AsioPool.Parallel.Stage` — where a call of `get`, or the handle it returned, is.
* `HkuUtils.AsioPool.Parallel.act`, `change` — the atomic actions, and the changes of parameters.
* `HkuUtils.AsioPool.Parallel.system` — their interleavings.

## Main results

* `HkuUtils.AsioPool.Parallel.count_eq` — `m_count` is the number of resources in the queue plus
  those that the calls account for.

## Design

The wait for a return may end at any time, in either way: what ends it is the subject of the
model for one thread. A call goes on after its end as the handle that it returned, up to the end
of `returnResource`. The pool without versions has no `current_param`; its parameters never
change, so that the copy that is made here for both makes no difference. `m_idleCount` and
`m_closer_set` are left out, as nothing here reads them.
-/

namespace HkuUtils.AsioPool.Parallel

open Transition

variable {P N V : Type}

/-- The members of the pool that the calls share. One access to a member is one step. -/
structure Shared (P : Type) where
  /-- `m_count`. -/
  count : ℤ
  /-- `m_maxCount`. -/
  maxCount : ℕ
  /-- `m_param`. -/
  param : P
  /-- `m_resourceList`, the front first. -/
  resourceList : List (Resource P)
  /-- `m_version`. -/
  version : BitVec 32
  /-- How many resources were constructed. -/
  made : ℕ
  deriving DecidableEq

/-- Where a call of `get` is, or the handle it has returned. A stage ends at the next access to a
shared member. -/
inductive Stage (P : Type) where
  /-- Before `m_resourceList.pop(p)`. -/
  | start
  /-- `p` was popped, after a wait or not; before the comparison of the versions. -/
  | popped (woken : Bool) (p : Resource P)
  /-- A resource was deleted; before `m_count.fetch_sub(1)`, after which `get` goes on or not. -/
  | deleted (again : Bool)
  /-- No resource; before the comparison of `m_count` with `m_maxCount`. -/
  | unserved
  /-- Below the limit; before the parameters are copied. -/
  | allowed
  /-- `current_param` is there; before `new ResourceType(current_param)`. -/
  | copied (param : P)
  /-- The resource is there; before `p->setVersion(m_version.load())`. -/
  | constructed (ptr : ℕ) (param : P)
  /-- The version is set; before `m_count.fetch_add(1)`. -/
  | tagged (p : Resource P)
  /-- The caller has the handle. -/
  | holding (p : Resource P)
  /-- In `returnResource`, of a current resource; before `m_resourceList.push(p)`. -/
  | returning (p : Resource P)
  /-- In the waiter queue. -/
  | waiting
  /-- The wait has ended with `operation_aborted`; before `m_resourceList.pop(p)`. -/
  | woken
  /-- Nothing is left to do. -/
  | ended
  deriving DecidableEq

/-- The choices that are not made by the pool. -/
inductive Action where
  /-- The call goes on; the holder of a handle releases it. -/
  | next
  /-- The construction ends. -/
  | construct (how : Construction)
  /-- The wait ends, with `operation_aborted` or with the expiry of the timer. -/
  | endWait (aborted : Bool)
  /-- `m_resourceList.push(p)` succeeds or fails. -/
  | push (ok : Bool)
  deriving DecidableEq

/-- An atomic action of a call of `get` or of the `ResourceCloser` of its handle.

Between two of its actions any number of other calls may take theirs, on as many threads as the
executor has. -/
def act (k : Kind) (m : Shared P) : Stage P → Action → Option (Shared P × Stage P)
  | .start, .next =>
    match m.resourceList with
    | [] => some (m, .unserved)
    | p :: rest => some ({ m with resourceList := rest }, .popped false p)
  | .popped woken p, .next =>
    if k.stale m.version p then some (m, .deleted !woken) else some (m, .holding p)
  | .deleted again, .next =>
    some ({ m with count := m.count - 1 }, if again then .unserved else .ended)
  | .unserved, .next =>
    if m.maxCount = 0 ∨ m.count < m.maxCount then some (m, .allowed) else some (m, .waiting)
  | .allowed, .next => some (m, .copied m.param)
  | .copied param, .construct .ok =>
    some ({ m with made := m.made + 1 }, .constructed m.made param)
  | .copied _, .construct _ => some (m, .ended)
  | .constructed ptr param, .next => some (m, .tagged ⟨ptr, m.version, param⟩)
  | .tagged p, .next => some ({ m with count := m.count + 1 }, .holding p)
  | .holding p, .next =>
    if k.stale m.version p then some (m, .deleted false) else some (m, .returning p)
  | .returning p, .push true => some ({ m with resourceList := m.resourceList ++ [p] }, .ended)
  | .returning _, .push false => some (m, .deleted false)
  | .waiting, .endWait true => some (m, .woken)
  | .waiting, .endWait false => some (m, .ended)
  | .woken, .next =>
    match m.resourceList with
    | [] => some (m, .ended)
    | p :: rest => some ({ m with resourceList := rest }, .popped true p)
  | _, _ => none

/-- **The ways in which a call takes an action**: one constructor for each branch of `act`, with
its guard. -/
inductive Acts (k : Kind) (m : Shared P) : Stage P → Action → Shared P → Stage P → Prop where
  | empty (hs : m.resourceList = []) : Acts k m .start .next m .unserved
  | pop {p : Resource P} {rest : List (Resource P)} (hs : m.resourceList = p :: rest) :
    Acts k m .start .next { m with resourceList := rest } (.popped false p)
  | stale {woken : Bool} {p : Resource P} (hp : k.stale m.version p = true) :
    Acts k m (.popped woken p) .next m (.deleted !woken)
  | current {woken : Bool} {p : Resource P} (hp : k.stale m.version p = false) :
    Acts k m (.popped woken p) .next m (.holding p)
  | uncount (again : Bool) :
    Acts k m (.deleted again) .next { m with count := m.count - 1 }
      (if again then .unserved else .ended)
  | allow (hlt : m.maxCount = 0 ∨ m.count < m.maxCount) : Acts k m .unserved .next m .allowed
  | park (hge : ¬ (m.maxCount = 0 ∨ m.count < m.maxCount)) : Acts k m .unserved .next m .waiting
  | copy : Acts k m .allowed .next m (.copied m.param)
  | construct (param : P) :
    Acts k m (.copied param) (.construct .ok) { m with made := m.made + 1 }
      (.constructed m.made param)
  | throw (param : P) {how : Construction} (hhow : how ≠ .ok) :
    Acts k m (.copied param) (.construct how) m .ended
  | tag (ptr : ℕ) (param : P) :
    Acts k m (.constructed ptr param) .next m (.tagged ⟨ptr, m.version, param⟩)
  | count (p : Resource P) :
    Acts k m (.tagged p) .next { m with count := m.count + 1 } (.holding p)
  | releaseStale {p : Resource P} (hp : k.stale m.version p = true) :
    Acts k m (.holding p) .next m (.deleted false)
  | releaseCurrent {p : Resource P} (hp : k.stale m.version p = false) :
    Acts k m (.holding p) .next m (.returning p)
  | push (p : Resource P) :
    Acts k m (.returning p) (.push true) { m with resourceList := m.resourceList ++ [p] } .ended
  | pushFails (p : Resource P) : Acts k m (.returning p) (.push false) m (.deleted false)
  | wake : Acts k m .waiting (.endWait true) m .woken
  | timeout : Acts k m .waiting (.endWait false) m .ended
  | wokenEmpty (hs : m.resourceList = []) : Acts k m .woken .next m .ended
  | wokenPop {p : Resource P} {rest : List (Resource P)} (hs : m.resourceList = p :: rest) :
    Acts k m .woken .next { m with resourceList := rest } (.popped true p)

/-- **Inversion of an action.**

**Proof sketch.** One case for each branch of the definition of an action. -/
theorem acts_of_act {k : Kind} {m m' : Shared P} {l l' : Stage P} {a : Action}
    (h : act k m l a = some (m', l')) : Acts k m l a m' l' := by
  unfold act at h
  split at h <;> try split at h
  all_goals
    simp only [Option.some.injEq, Prod.mk.injEq, reduceCtorEq] at h
  all_goals
    obtain ⟨rfl, rfl⟩ := h
  · exact .empty ‹_›
  · exact .pop ‹_›
  · exact .stale ‹_›
  · exact .current (Bool.eq_false_of_not_eq_true ‹_›)
  · next hagain =>
    subst hagain
    exact .uncount true
  · next hagain =>
    obtain rfl := Bool.eq_false_of_not_eq_true hagain
    exact .uncount false
  · exact .allow ‹_›
  · exact .park ‹_›
  · exact .copy
  · exact .construct _
  · exact .throw _ ‹_›
  · exact .tag _ _
  · exact .count _
  · exact .releaseStale ‹_›
  · exact .releaseCurrent (Bool.eq_false_of_not_eq_true ‹_›)
  · exact .push _
  · exact .pushFails _
  · exact .wake
  · exact .timeout
  · exact .wokenEmpty ‹_›
  · exact .wokenPop ‹_›

/-- What is done to the pool from outside of `get` and of the handles. -/
inductive Change (P N V : Type) where
  /-- One turn of the loop of `releaseIdleResource`. -/
  | releaseIdle
  | setParam (name : N) (value : V)
  | setParameter (param : P)
  | incVersion

/-- The loop of `releaseIdleResource` without other steps in between. -/
def Shared.releaseIdleResource (m : Shared P) : Shared P :=
  { m with resourceList := [], count := m.count - m.resourceList.length }

/-- The locked section of `setParam` and `setParameter`. -/
def Shared.replaceParam (m : Shared P) (param : P) : Shared P :=
  Shared.releaseIdleResource { m with param := param, version := m.version + 1 }

/-- The step of a change. Releasing the idle resources takes them one by one, as the source does,
so that calls may come in between. -/
def change [ParameterOps P N V] [BEq V] (k : Kind) (m : Shared P) :
    Change P N V → Option (Shared P)
  | .releaseIdle =>
    match m.resourceList with
    | [] => none
    | _ :: rest => some { m with resourceList := rest, count := m.count - 1 }
  | .setParam name value =>
    if k = .versioned then
      match changeParam m.param name value with
      | .ok (some param) => some (m.replaceParam param)
      | .ok none => some m
      | .error _ => some m
    else none
  | .setParameter param => if k = .versioned then some (m.replaceParam param) else none
  | .incVersion => if k = .versioned then some { m with version := m.version + 1 } else none

/-- The ways in which the pool is changed: one constructor for each branch of `change`. -/
inductive Changes [ParameterOps P N V] [BEq V] (k : Kind) (m : Shared P) :
    Change P N V → Shared P → Prop where
  | releaseIdle {p : Resource P} {rest : List (Resource P)} (hs : m.resourceList = p :: rest) :
    Changes k m .releaseIdle { m with resourceList := rest, count := m.count - 1 }
  /-- `setParam` throws or finds the value that is there. -/
  | setParamKept (name : N) (value : V) : Changes k m (.setParam name value) m
  | setParam {name : N} {value : V} {param : P}
    (hp : changeParam m.param name value = .ok (some param)) :
    Changes k m (.setParam name value) (m.replaceParam param)
  | setParameter (param : P) : Changes k m (.setParameter param) (m.replaceParam param)
  | incVersion : Changes k m .incVersion { m with version := m.version + 1 }

/-- Inversion of a change.

**Proof sketch.** One case for each event, and both outcomes of its guard. -/
theorem changes_of_change [ParameterOps P N V] [BEq V] {k : Kind} {m m' : Shared P}
    {e : Change P N V} (h : change k m e = some m') : Changes k m e m' := by
  cases e with
  | releaseIdle =>
    simp only [change] at h
    split at h
    · simp at h
    · next hs => exact Option.some.inj h ▸ .releaseIdle hs
  | setParam name value =>
    simp only [change] at h
    split at h
    swap
    · simp at h
    split at h
    · next hp => exact Option.some.inj h ▸ .setParam hp
    · exact Option.some.inj h ▸ .setParamKept name value
    · exact Option.some.inj h ▸ .setParamKept name value
  | setParameter param =>
    obtain ⟨-, rfl⟩ : k = .versioned ∧ m.replaceParam param = m' := by simpa [change] using h
    exact .setParameter param
  | incVersion =>
    obtain ⟨-, rfl⟩ : k = .versioned ∧ { m with version := m.version + 1 } = m' := by
      simpa [change] using h
    exact .incVersion

/-- A call of `get` as a thread. -/
def program [ParameterOps P N V] [BEq V] (k : Kind) :
    Threads.Program (Shared P) (Stage P) Action (Change P N V) where
  start := .start
  act := act k
  env := change k

/-- The members of a pool after its constructor. -/
def Shared.init (param : P) (maxCount : ℕ) : Shared P where
  count := 0
  maxCount := maxCount
  param := param
  resourceList := []
  version := 0
  made := 0

/-- The interleavings of any number of calls of `get`. -/
def system [ParameterOps P N V] [BEq V] (k : Kind) (param : P) (maxCount : ℕ) :
    System (Threads.State (Shared P) (Stage P)) (Threads.Event Action (Change P N V)) :=
  (program k).system (Shared.init param maxCount)

/-! ## The count -/

/-- The resources that a call accounts for in `m_count`. -/
def Stage.counted : Stage P → ℤ
  | .popped .. | .deleted _ | .holding _ | .returning _ => 1
  | _ => 0

/-- No call accounts for less than nothing. -/
lemma Stage.counted_nonneg (l : Stage P) : 0 ≤ l.counted := by
  cases l <;> simp [Stage.counted]

/-- **`m_count` is the length of the queue plus what the calls account for**, in every
interleaving; so it is never below zero.

**Proof sketch.** The difference of `m_count` and the length of the queue is a sum over the calls,
to which each action adds what the call accounts for from then on. -/
theorem count_eq [ParameterOps P N V] [BEq V] {k : Kind} {param : P} {maxCount : ℕ}
    {es : List (Threads.Event Action (Change P N V))}
    {s : Threads.State (Shared P) (Stage P)} (hrun : (system k param maxCount).run es = some s) :
    s.shared.count = s.shared.resourceList.length + (s.threads.map Stage.counted).sum := by
  have hsum := Threads.Program.run_sum (fun m => m.count - m.resourceList.length) Stage.counted
    rfl rfl ?_ ?_ hrun
  · omega
  · intro m l a m' l' h
    cases acts_of_act h with
    | pop hs | wokenPop hs =>
      simp only [Stage.counted, hs, List.length_cons]
      omega
    | uncount again =>
      cases again <;> simp only [Stage.counted, Bool.false_eq_true, ↓reduceIte] <;> omega
    | count p =>
      simp only [Stage.counted]
      omega
    | push p =>
      simp only [Stage.counted, List.length_append, List.length_singleton]
      omega
    | _ => rfl
  · intro m e m' h
    cases changes_of_change h with
    | releaseIdle hs =>
      simp only [hs, List.length_cons]
      omega
    | setParam | setParameter =>
      simp only [Shared.replaceParam, Shared.releaseIdleResource, List.length_nil]
      omega
    | setParamKept | incVersion => rfl

end HkuUtils.AsioPool.Parallel
