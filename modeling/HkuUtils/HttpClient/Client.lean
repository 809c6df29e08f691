import Mathlib.Logic.Function.Basic
import HkuUtils.AsioPool.Lending
import HkuUtils.HttpClient.Connection

set_option relaxedAutoImplicit false
set_option autoImplicit false

/-!
# The client and its connections

`AsioHttpClient` with any number of calls of `async_request` and `async_requestStream` that share
the connections of one `ResourceAsioVersionPool`. A call that ends, by its return or by an
exception, drops its connection in the same step.

## Main definitions

* `HkuUtils.HttpClient.State` — the pool, the connections, and where each call is.
* `HkuUtils.HttpClient.Event`, `step`, `system` — the client as a transition system.

## Main results

* `HkuUtils.HttpClient.steps_of_step` — what each event can do.
* `HkuUtils.HttpClient.pool_run` — what a client does with its pool is a run of the pool.

## Design

A connection is known by the address that its pool resource has, and a call by the number of its
call of the pool's `get`. The parameters of the pool are always empty: `setTimeout` sets them anew
to have the idle connections dropped. The target of a client does not change here.
-/

namespace HkuUtils.HttpClient

open Transition

/-- A client. -/
structure State where
  /-- `m_connection_pool`. -/
  pool : AsioPool.State IntParams
  /-- The connections, by their addresses. -/
  conns : ℕ → HttpConnection
  /-- The calls of `async_request` and `async_requestStream`. -/
  phase : ℕ → Phase
  /-- `m_timeout`, in milliseconds. -/
  timeout : ℤ

/-- What can happen to a client. What the network and the server do is part of the event that the
coroutine waits for. -/
inductive Event where
  /-- `async_request` or `async_requestStream` is called; if the pool makes a connection, `how` is
  the end of that and `now` its time. -/
  | call (stream : Bool) (how : Construction) (now : ℕ)
  /-- The timer of a call that waits in the pool expires. -/
  | expire (c : ℕ)
  /-- The wait of a call in the pool is ended from outside. -/
  | interrupt (c : ℕ)
  /-- A call whose wait in the pool has ended goes on. -/
  | resume (c : ℕ)
  /-- A call that has a connection goes on; if it ends, `pushed` is the end of the push in
  `returnResource`. -/
  | act (c : ℕ) (outcome : Outcome) (pushed : Bool)
  | setTimeout (ms : ℤ)
  deriving DecidableEq

/-- `MAX_TIMEOUT_MS` stands for every timeout that is not positive. -/
def limitTimeout (ms : ℤ) : ℤ := if ms ≤ 0 then 60000 else ms

/-- Where a call is after a segment of the pool's `get`. -/
def enter (stream : Bool) : AsioPool.GetResult IntParams → Phase
  | .lent _ => .connecting stream
  | .suspended => .waiting stream
  | .threw e => .threw (.pool e)

/-- Whether a call that waits in the pool is one of `async_requestStream`. -/
def Phase.stream : Phase → Bool
  | .waiting stream => stream
  | _ => false

/-- The connection at `ptr` and the call `c` are now like this. -/
def State.put (s : State) (c ptr : ℕ) (conn : HttpConnection) (phase : Phase) : State :=
  { s with conns := Function.update s.conns ptr conn, phase := Function.update s.phase c phase }

/-- The call `c` takes a step on its connection, and drops it if that was the last one. The drop
gives the connection back to the pool or closes it. -/
def actOn (target : Target) (s : State) (c : ℕ) (outcome : Outcome) (pushed : Bool) :
    Option State :=
  match s.pool.handles.find? (·.closer = c) with
  | none => none
  | some hd =>
    match act target c (s.conns hd.res.ptr) (s.phase c) outcome with
    | none => none
    | some (conn, phase) =>
      if phase.over then
        (AsioPool.release .versioned s.pool c pushed).map fun pool =>
          { s.put c hd.res.ptr conn phase with pool := pool }
      else some (s.put c hd.res.ptr conn phase)

/-- `setTimeout`. -/
def setTimeout (s : State) (ms : ℤ) : State :=
  if s.timeout = limitTimeout ms then s
  else { s with timeout := limitTimeout ms, pool := AsioPool.setParameter s.pool [] }

/-- The step of an event. The pool is the model of `ResourceAsioVersionPool`, and the calls of the
client are its callers. -/
def step (target : Target) (s : State) : Event → Option State
  | .call stream how now =>
    let (pool, r) := AsioPool.get .versioned s.pool how
    some { s.put s.pool.gets s.pool.made (.new now) (enter stream r) with pool := pool }
  | .expire c => (AsioPool.expire s.pool c).map fun pool => { s with pool := pool }
  | .interrupt c => (AsioPool.interrupt s.pool c).map fun pool => { s with pool := pool }
  | .resume c =>
    (AsioPool.resume .versioned s.pool c).map fun (pool, r) =>
      { s with pool := pool, phase := Function.update s.phase c (enter (s.phase c).stream r) }
  | .act c outcome pushed => actOn target s c outcome pushed
  | .setTimeout ms => some (setTimeout s ms)

/-- A client after its constructor. -/
def State.init (timeout : ℤ) (maxConcurrency : ℕ) : State where
  pool := AsioPool.State.init [] maxConcurrency
  conns _ := .new 0
  phase _ := .unmade
  timeout := limitTimeout timeout

/-- The runs of a client. -/
def system (target : Target) (timeout : ℤ) (maxConcurrency : ℕ) : System State Event where
  init := State.init timeout maxConcurrency
  step := step target

/-! ## Inversion of a step -/

variable {target : Target} {s t : State} {e : Event}

/-- **The ways in which an event changes a client**: one constructor for each branch of `step`. -/
inductive Steps (target : Target) (s : State) : Event → State → Prop where
  | call (stream : Bool) (how : Construction) (now : ℕ) :
    Steps target s (.call stream how now)
      { s.put s.pool.gets s.pool.made (.new now)
          (enter stream (AsioPool.get .versioned s.pool how).2) with
        pool := (AsioPool.get .versioned s.pool how).1 }
  | expire {c : ℕ} {pool : AsioPool.State IntParams} (h : AsioPool.expire s.pool c = some pool) :
    Steps target s (.expire c) { s with pool := pool }
  | interrupt {c : ℕ} {pool : AsioPool.State IntParams}
    (h : AsioPool.interrupt s.pool c = some pool) :
    Steps target s (.interrupt c) { s with pool := pool }
  | resume {c : ℕ} {pool : AsioPool.State IntParams} {r : AsioPool.GetResult IntParams}
    (h : AsioPool.resume .versioned s.pool c = some (pool, r)) :
    Steps target s (.resume c)
      { s with pool := pool, phase := Function.update s.phase c (enter (s.phase c).stream r) }
  /-- A call goes on and keeps its connection. -/
  | goesOn {c : ℕ} {outcome : Outcome} {hd : Handle IntParams} {conn : HttpConnection}
    {phase : Phase} (pushed : Bool) (hf : s.pool.handles.find? (·.closer = c) = some hd)
    (hact : act target c (s.conns hd.res.ptr) (s.phase c) outcome = some (conn, phase))
    (hover : phase.over = false) :
    Steps target s (.act c outcome pushed) (s.put c hd.res.ptr conn phase)
  /-- A call ends and drops its connection. -/
  | ends {c : ℕ} {outcome : Outcome} {pushed : Bool} {hd : Handle IntParams}
    {conn : HttpConnection} {phase : Phase} {pool : AsioPool.State IntParams}
    (hf : s.pool.handles.find? (·.closer = c) = some hd)
    (hact : act target c (s.conns hd.res.ptr) (s.phase c) outcome = some (conn, phase))
    (hover : phase.over = true) (hrel : AsioPool.release .versioned s.pool c pushed = some pool) :
    Steps target s (.act c outcome pushed) { s.put c hd.res.ptr conn phase with pool := pool }
  /-- The timeout is the one already there. -/
  | setTimeoutKept (ms : ℤ) : Steps target s (.setTimeout ms) s
  | setTimeout (ms : ℤ) :
    Steps target s (.setTimeout ms)
      { s with timeout := limitTimeout ms, pool := AsioPool.replaceParam s.pool [] }

/-- A step of a call on its connection in one of its two ways. -/
lemma steps_of_actOn {c : ℕ} {outcome : Outcome} {pushed : Bool}
    (h : actOn target s c outcome pushed = some t) : Steps target s (.act c outcome pushed) t := by
  unfold actOn at h
  split at h
  · simp at h
  next hd hf =>
  split at h
  · simp at h
  next conn phase hact =>
  split at h
  · next hover =>
    obtain ⟨pool, hrel, rfl⟩ := Option.map_eq_some_iff.mp h
    exact .ends hf hact hover hrel
  · next hover => exact Option.some.inj h ▸ .goesOn pushed hf hact (by simpa using hover)

/-- **Inversion of a step**: what an event can do, with the guards it passed. -/
theorem steps_of_step (h : step target s e = some t) : Steps target s e t := by
  cases e with
  | call stream how now => exact Option.some.inj h ▸ .call stream how now
  | expire c =>
    obtain ⟨pool, hpool, rfl⟩ := Option.map_eq_some_iff.mp h
    exact .expire hpool
  | interrupt c =>
    obtain ⟨pool, hpool, rfl⟩ := Option.map_eq_some_iff.mp h
    exact .interrupt hpool
  | resume c =>
    obtain ⟨⟨pool, r⟩, hpool, rfl⟩ := Option.map_eq_some_iff.mp h
    exact .resume hpool
  | act c outcome pushed => exact steps_of_actOn h
  | setTimeout ms =>
    rw [← Option.some.inj h]
    unfold HttpClient.setTimeout
    split
    · exact .setTimeoutKept ms
    · exact .setTimeout ms

/-! ## The pool of a client -/

/-- One step of a client is at most one step of its pool, and not its destructor.

**Proof sketch.** One case for each step. The steps of the pool are a call of `get`, its timers,
its resumption, a return and a change of the parameters; the others leave it as it is. -/
lemma pool_step (maxConcurrency : ℕ) (halive : s.pool.alive = true)
    (hstep : step target s e = some t) : t.pool.alive = true ∧
      ∃ ds, (ResourceAsioVersionPool.system ([] : IntParams) maxConcurrency).runFrom s.pool ds =
        some t.pool := by
  have hone : ∀ (d : AsioPool.Event IntParams String ℤ) (pool : AsioPool.State IntParams),
      d ≠ .destroy → AsioPool.stepAlive .versioned s.pool d = some pool → pool.alive = true ∧
        ∃ ds, (ResourceAsioVersionPool.system ([] : IntParams) maxConcurrency).runFrom s.pool ds =
          some pool := by
    intro d pool hd halive'
    have hpool : AsioPool.step .versioned s.pool d = some pool := by
      unfold AsioPool.step
      rw [if_pos halive, halive']
    refine ⟨(AsioPool.alive_step hpool halive).resolve_right fun h => hd h.1, [d], ?_⟩
    exact (System.runFrom_cons_eq_some _).mpr ⟨pool, hpool, rfl⟩
  cases steps_of_step hstep with
  | call stream how now => exact hone (.get how) _ (by simp) rfl
  | @expire c _ h => exact hone (.expire c) _ (by simp) h
  | @interrupt c _ h => exact hone (.interrupt c) _ (by simp) h
  | @resume c _ r h => exact hone (.resume c) _ (by simp) (Option.map_eq_some_iff.mpr ⟨_, h, rfl⟩)
  | goesOn => exact ⟨halive, [], rfl⟩
  | @ends c _ pushed _ _ _ _ _ _ _ hrel => exact hone (.release c pushed) _ (by simp) hrel
  | setTimeoutKept => exact ⟨halive, [], rfl⟩
  | setTimeout ms => exact hone (.setParameter []) _ (by simp) rfl

/-- **A client uses its pool as a pool is used**: with each run of the client the pool goes through
one of its own runs, and is not destroyed. -/
theorem pool_run {timeout : ℤ} {maxConcurrency : ℕ} {es : List Event}
    (hrun : (system target timeout maxConcurrency).run es = some s) :
    ∃ ds, (ResourceAsioVersionPool.system ([] : IntParams) maxConcurrency).run ds = some s.pool :=
  System.run_simulates (I := fun s => s.pool.alive = true) (f := State.pool) rfl rfl
    (fun _ _ _ halive hstep => pool_step maxConcurrency halive hstep) hrun

end HkuUtils.HttpClient
