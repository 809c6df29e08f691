import Mathlib.Algebra.Order.Ring.Int
import HkuUtils.Transition
import HkuUtils.Pool.Stock

set_option relaxedAutoImplicit false
set_option autoImplicit false

/-!
# The pool of connections

`ConnectPool` of `ConnectPool.h`. Each function holds `m_mutex` from its first line to its last,
so each is one step; only `getAndWait` is a loop of such steps, between which other threads use the
pool. A connection is a `Resource` whose version is not used, and `m_count`, `m_connectList` and
the connections of the callers are a `Stock`.

## Main definitions

* `HkuUtils.ConnectPool.State` — the members of the pool and the connections of the callers.
* `HkuUtils.ConnectPool.getConnect`, `returnDriver`, `release`, `releaseIdleConnect` — the
  functions of the class.
* `HkuUtils.ConnectPool.getAndWait` — the loop that asks every 100 ms.
* `HkuUtils.ConnectPool.system` — the pool as a transition system.

## Main results

* `HkuUtils.ConnectPool.getConnect_null_iff`, `getConnect_connected_iff` — when a connection is
  given.
* `HkuUtils.ConnectPool.accounting_of_run` — in every state that is reached the count and the limit
  are right, and no connection is at two places.

## Design

The construction of a connection may throw, and `getConnect` is `noexcept`: the program ends. The
states that `getAndWait` finds at its attempts are given to it, for the other threads may do
anything while it sleeps.
-/

namespace HkuUtils.ConnectPool

open Transition

variable {P : Type}

/-- A pool with its callers. The pool has no condition variable: a caller that waits polls. -/
structure State (P : Type) extends Stock P where
  /-- `m_maxConnectSize`. -/
  maxConnectSize : ℕ
  /-- `m_maxIdelSize`. -/
  maxIdelSize : ℕ
  /-- `m_param`. -/
  param : P
  /-- How many connections were given to callers. -/
  calls : ℕ
  deriving DecidableEq

namespace State

/-- A pool after its constructor. -/
def init (param : P) (maxConnect maxIdleConnect : ℕ) : State P where
  toStock := Stock.empty
  maxConnectSize := maxConnect
  maxIdelSize := maxIdleConnect
  param := param
  calls := 0

/-- `m_maxConnectSize > 0 && m_count >= m_maxConnectSize`. -/
def full (s : State P) : Bool := 0 < s.maxConnectSize ∧ s.maxConnectSize ≤ s.count

/-- The connection that a construction makes. -/
def fresh (s : State P) : Resource P := ⟨s.made, 0, s.param⟩

/-- There is no idle connection, and no further one may be made. -/
def Busy (s : State P) : Prop := s.resourceList = [] ∧ s.full = true

instance [DecidableEq P] (s : State P) : Decidable s.Busy :=
  inferInstanceAs (Decidable (_ ∧ _))

end State

/-! ## The functions of the class -/

/-- How a call of `getConnect` ends. -/
inductive Attempt (P : Type) where
  /-- `ConnectPtr()`. -/
  | null
  | connected (h : Handle P)
  /-- An exception leaves the function, which is `noexcept`. -/
  | terminates
  deriving DecidableEq, Repr

/-- What a `ConnectPtr` owns. -/
def Attempt.handle? : Attempt P → Option (Handle P)
  | .connected h => some h
  | .null => none
  | .terminates => none

/-- `getConnect`. `how` is the end of a construction, if there is one.

It is `noexcept`, so a construction that throws terminates the program. -/
def getConnect (s : State P) (how : Construction) : State P × Attempt P :=
  match s.resourceList with
  | [] =>
    if s.full then (s, .null)
    else
      match how with
      | .ok =>
        ({ s with toStock := s.construct.lend s.calls s.fresh, calls := s.calls + 1 },
          .connected ⟨s.calls, s.fresh, true⟩)
      | _ => (s, .terminates)
  | p :: rest =>
    ({ s with toStock := (s.pop rest).lend s.calls p, calls := s.calls + 1 },
      .connected ⟨s.calls, p, true⟩)

/-- `returnDriver`, with `none` for the null pointer. -/
def returnDriver (s : State P) : Option (Resource P) → State P
  | some p =>
    if s.resourceList.length < s.maxIdelSize then { s with toStock := s.push p }
    else { s with toStock := s.discard p }
  | none => { s with count := s.count - 1 }

/-- The last copy of a `ConnectPtr` is dropped and its `ConnectCloser` runs. -/
def release (s : State P) (c : ℕ) : Option (State P) :=
  match s.handles.find? (·.closer = c) with
  | none => none
  | some h =>
    let t := { s with toStock := s.drop c }
    some (if h.bound then returnDriver t (some h.res) else t)

/-- The loop of `releaseIdleConnect` over the queue. -/
def releaseLoop : List (Resource P) → State P → State P
  | [], s => s
  | p :: rest, s => releaseLoop rest { s with toStock := (s.pop rest).discard p }

/-- `releaseIdleConnect`. -/
def releaseIdleConnect (s : State P) : State P := releaseLoop s.resourceList s

/-! ## When a connection is given -/

/-- `getConnect` returns a null pointer exactly while the pool is busy. -/
lemma getConnect_null_iff {s : State P} {how : Construction} :
    (getConnect s how).2 = .null ↔ s.Busy := by
  unfold getConnect State.Busy
  cases hlist : s.resourceList with
  | nil =>
    cases hfull : s.full with
    | true => simp
    | false => cases how <;> simp
  | cons p rest => simp

/-- Otherwise it returns a connection, unless the construction of a new one throws. -/
lemma getConnect_connected_iff {s : State P} {how : Construction} :
    (∃ h, (getConnect s how).2 = .connected h) ↔
      ¬ s.Busy ∧ (s.resourceList = [] → how = .ok) := by
  unfold getConnect State.Busy
  cases hlist : s.resourceList with
  | nil =>
    cases hfull : s.full with
    | true => simp
    | false => cases how <;> simp
  | cons p rest => simp

/-! ## The loop that waits -/

/-- What a `getConnect` of `getAndWait` finds. -/
structure Poll (P : Type) where
  pool : State P
  /-- How a construction ends, if there is one. -/
  how : Construction
  deriving DecidableEq

namespace Poll

/-- The `getConnect`. -/
def attempt (p : Poll P) : Attempt P := (getConnect p.pool p.how).2

/-- There is an idle connection, or a new one may be made and its construction succeeds. -/
def Yields (p : Poll P) : Prop := ¬ p.pool.Busy ∧ (p.pool.resourceList = [] → p.how = .ok)

instance [DecidableEq P] (p : Poll P) : Decidable p.Yields :=
  inferInstanceAs (Decidable (_ ∧ _))

end Poll

/-- How a call of `getAndWait` ends, with the number of its last `getConnect`. The first one has
the number 0. -/
inductive Ending (P : Type) where
  | returned (poll : ℕ) (h : Handle P)
  /-- `Can't get connect, timeout!`, and the closer of what `result` owns runs. -/
  | threw (poll : ℕ) (dropped : Option (Handle P))
  | terminated (poll : ℕ)
  deriving DecidableEq, Repr

/-- The number of the last `getConnect`. -/
def Ending.poll : Ending P → ℕ
  | .returned poll _ => poll
  | .threw poll _ => poll
  | .terminated poll => poll

/-- `sleep`, in milliseconds. -/
def sleep : ℤ := 100

/-- `max_count`. -/
def maxCount (timeout : ℤ) : ℤ := timeout.tdiv sleep

/-- The loop of `getAndWait` behind the `getConnect` with the number `poll`, with `none` where it
still runs. The check with the counter comes behind the next `getConnect`. -/
def waitLoop (timeout : ℤ) (polls : ℕ → Poll P) : ℕ → ℕ → ℤ → Attempt P → Option (Ending P)
  | _, poll, _, .connected h => some (.returned poll h)
  | _, poll, _, .terminates => some (.terminated poll)
  | 0, _, _, .null => none
  | fuel + 1, poll, count, .null =>
    match (polls (poll + 1)).attempt with
    | .terminates => some (.terminated (poll + 1))
    | result =>
      if 0 < timeout then
        if count < maxCount timeout then waitLoop timeout polls fuel (poll + 1) (count + 1) result
        else some (.threw (poll + 1) result.handle?)
      else waitLoop timeout polls fuel (poll + 1) count result

/-- `getAndWait`, with `none` where `fuel` turns of its loop are not enough. -/
def getAndWait (timeout : ℤ) (polls : ℕ → Poll P) (fuel : ℕ) : Option (Ending P) :=
  waitLoop timeout polls fuel 0 0 (polls 0).attempt

/-! ## The pool as a transition system -/

/-- What can happen to a pool. -/
inductive Event where
  | getConnect (how : Construction)
  /-- A connection is dropped by its caller. -/
  | release (c : ℕ)
  | releaseIdleConnect
  deriving DecidableEq, Repr

/-- The step of an event, with `none` where the program ends. -/
def step (s : State P) : Event → Option (State P)
  | .getConnect how =>
    match getConnect s how with
    | (_, .terminates) => none
    | (t, _) => some t
  | .release c => release s c
  | .releaseIdleConnect => some (releaseIdleConnect s)

/-- The runs of a pool. -/
def system (param : P) (maxConnect maxIdleConnect : ℕ) : System (State P) Event where
  init := State.init param maxConnect maxIdleConnect
  step := step

/-- **The ways in which an event changes a pool.** Each constructor is one branch of the code, with
the guards that lead to it and the state that it leaves. -/
inductive Fires (s : State P) : Event → State P → Prop where
  /-- There is no connection to give. -/
  | refused {how : Construction} (hbusy : s.Busy) : Fires s (.getConnect how) s
  /-- A new connection is made. -/
  | made (hlist : s.resourceList = []) (hfull : s.full = false) :
    Fires s (.getConnect .ok)
      { s with toStock := s.construct.lend s.calls s.fresh, calls := s.calls + 1 }
  /-- The idle connection at the front is given. -/
  | taken {how : Construction} {p : Resource P} {rest : List (Resource P)}
    (hlist : s.resourceList = p :: rest) :
    Fires s (.getConnect how)
      { s with toStock := (s.pop rest).lend s.calls p, calls := s.calls + 1 }
  | kept {c : ℕ} {h : Handle P} (hf : s.handles.find? (·.closer = c) = some h)
    (hidle : s.resourceList.length < s.maxIdelSize) :
    Fires s (.release c) { s with toStock := (s.drop c).push h.res }
  | deleted {c : ℕ} {h : Handle P} (hf : s.handles.find? (·.closer = c) = some h)
    (hidle : ¬ s.resourceList.length < s.maxIdelSize) :
    Fires s (.release c) { s with toStock := (s.drop c).discard h.res }
  /-- The closer of a connection is not bound to the pool. -/
  | lost {c : ℕ} {h : Handle P} (hf : s.handles.find? (·.closer = c) = some h)
    (hbound : h.bound = false) : Fires s (.release c) { s with toStock := s.drop c }
  | flushed : Fires s .releaseIdleConnect { s with toStock := s.flush }

/-- The loop over the queue deletes all of it. -/
lemma releaseLoop_eq (l : List (Resource P)) (s : State P) (hlist : s.resourceList = l) :
    releaseLoop l s = { s with toStock := s.flush } := by
  induction l generalizing s with
  | nil => rw [releaseLoop, Stock.flush_of_nil hlist]
  | cons p rest ih => rw [releaseLoop, ih _ rfl, ← Stock.flush_of_cons hlist]

/-- **Inversion of a step**: what an event can do, with the guards it passed.

**Proof sketch.** One case for each event, and in each one for the guards of its branch. -/
theorem fires_of_step {s t : State P} {e : Event} (h : step s e = some t) : Fires s e t := by
  cases e with
  | getConnect how =>
    unfold step ConnectPool.getConnect at h
    cases hlist : s.resourceList with
    | nil =>
      cases hfull : s.full with
      | true =>
        obtain rfl : s = t := by simpa [hlist, hfull] using h
        exact .refused ⟨hlist, hfull⟩
      | false =>
        cases how with
        | ok =>
          simp only [hlist, hfull, Bool.false_eq_true, if_false, Option.some.injEq] at h
          exact h ▸ .made hlist hfull
        | throws what => simp [hlist, hfull] at h
        | throwsUnknown => simp [hlist, hfull] at h
    | cons p rest =>
      simp only [hlist, Option.some.injEq] at h
      exact h ▸ .taken hlist
  | release c =>
    rw [step, ConnectPool.release] at h
    split at h
    · simp at h
    next hd hf =>
    rw [Option.some.injEq] at h
    subst h
    cases hbound : hd.bound with
    | false => simpa [hbound] using Fires.lost hf hbound
    | true =>
      simp only [if_true, returnDriver]
      split
      · next hidle => exact .kept hf hidle
      · next hidle => exact .deleted hf hidle
  | releaseIdleConnect =>
    rw [step, Option.some.injEq, ConnectPool.releaseIdleConnect, releaseLoop_eq _ _ rfl] at h
    exact h ▸ .flushed

/-! ## The account of a pool -/

/-- The count and the places of the connections are right, and the limits are kept. -/
structure Accounting (maxConnect maxIdleConnect : ℕ) (s : State P) : Prop where
  /-- `m_count` counts the idle connections and those of the callers, and each connection is at
  one place. -/
  balanced : s.toStock.Balanced
  maxConnect_eq : s.maxConnectSize = maxConnect
  maxIdle_eq : s.maxIdelSize = maxIdleConnect
  count_le : 0 < maxConnect → s.count ≤ maxConnect
  idle_le : s.resourceList.length ≤ maxIdleConnect

/-- One event keeps the account.

**Proof sketch.** One case for each event. The balance is kept by the rules for a stock; the counts
and limits are checked where something is made or put back. -/
lemma step_accounting {maxConnect maxIdleConnect : ℕ} {s t : State P} {e : Event}
    (h : Accounting maxConnect maxIdleConnect s) (hstep : step s e = some t) :
    Accounting maxConnect maxIdleConnect t := by
  obtain ⟨hbal, hmax, hidle, hcount, hlen⟩ := h
  cases fires_of_step hstep with
  | refused hbusy => exact ⟨hbal, hmax, hidle, hcount, hlen⟩
  | made hlist hfull =>
    refine ⟨hbal.construct_lend rfl, hmax, hidle, fun hpos => ?_, hlen⟩
    have hlt : s.count < maxConnect := by
      simpa [State.full, hmax, hpos] using hfull
    simp only [Stock.lend, Stock.construct]
    omega
  | taken hlist =>
    refine ⟨hbal.pop_lend hlist, hmax, hidle, hcount, ?_⟩
    rw [hlist, List.length_cons] at hlen
    exact (Nat.le_succ _).trans hlen
  | kept hf hlt =>
    refine ⟨hbal.drop_push hf, hmax, hidle, hcount, ?_⟩
    simp only [Stock.push, Stock.drop, List.length_append, List.length_singleton]
    omega
  | deleted hf hlt =>
    refine ⟨hbal.drop_discard hf, hmax, hidle, fun hpos => ?_, hlen⟩
    have hle := hcount hpos
    simp only [Stock.discard, Stock.drop]
    omega
  | lost hf hbound =>
    -- every closer is bound to the pool
    have hmem := hbal.bound _ (List.mem_of_find?_eq_some hf)
    rw [hbound] at hmem
    cases hmem
  | flushed =>
    refine ⟨hbal.flush, hmax, hidle, fun hpos => ?_, Nat.zero_le _⟩
    have hle := hcount hpos
    simp only [Stock.flush]
    omega

/-- **The account of a pool** is right after every run.

**Proof sketch.** By induction on the run, with `step_accounting`. -/
theorem accounting_of_run {param : P} {maxConnect maxIdleConnect : ℕ} {es : List Event}
    {s : State P} (hrun : (system param maxConnect maxIdleConnect).run es = some s) :
    Accounting maxConnect maxIdleConnect s := by
  refine (system param maxConnect maxIdleConnect).run_invariant ?_ ?_ hrun
  · refine ⟨Stock.Balanced.empty, rfl, rfl, fun hpos => ?_, Nat.zero_le _⟩
    exact Int.natCast_nonneg maxConnect
  · intro s t e hacc hstep
    exact step_accounting hacc hstep

/-- A second caller is refused, the first one returns its connection, and it is deleted while it is
idle. -/
theorem accounting_of_run_refused : ∃ s,
    (system () 1 1).run
      [.getConnect .ok, .getConnect .ok, .release 0, .releaseIdleConnect, .getConnect .ok] =
        some s ∧ s.deleted = [0] ∧ Accounting 1 1 s := by
  have hrun : (system () 1 1).run
      [.getConnect .ok, .getConnect .ok, .release 0, .releaseIdleConnect, .getConnect .ok] =
    some _ := rfl
  exact ⟨_, hrun, rfl, accounting_of_run hrun⟩

end HkuUtils.ConnectPool
