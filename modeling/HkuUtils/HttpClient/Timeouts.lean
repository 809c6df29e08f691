import HkuUtils.HttpClient.Streaming
import HkuUtils.Transition

set_option relaxedAutoImplicit false
set_option autoImplicit false

/-!
# Timeouts of a request

The operations of `async_request` (a write and a read) and of `async_requestStream` (a write, the
read of the header, and a read for each chunk), each with a timer that cancels the socket when it
expires.

## Main definitions

* `HkuUtils.Timeouts.Call` — which of the two functions, and on which kind of connection.
* `HkuUtils.Timeouts.State`, `Event`, `step` — the coroutine, its timers and the events.
* `HkuUtils.Timeouts.State.Covered`, `OwnTimer` — what the timers are for.
* `HkuUtils.Timeouts.NoneLate` — no timer has expired when the next operation is started.

## Main results

* `HkuUtils.Timeouts.always_covered_iff` — which operations have a timer.
* `HkuUtils.Timeouts.always_ownTimer` — when an operation is cancelled only by its own timer.
* `HkuUtils.Timeouts.timeouts_match`, `chunk_timer` — both, and two runs that go wrong.

## Design

The operations of a call are numbered from the write on. An operation that completes, and a timer
that expires, queue a handler, and the queued handlers run in any order. `timer.cancel()` queues the
handler of a timer that is pending with an error, and leaves one that is queued as it is. The flags
`write_completed` and `read_completed` are variables of the block of their operation, so that a
handler that runs after the block reads a variable that is gone: the value is part of the event.
-/

namespace HkuUtils.Timeouts

open Streaming (ReadError headerTolerates bodyTolerates)

/-- Which function is called, and on which kind of connection. -/
structure Call where
  /-- `async_requestStream`; else `async_request`. -/
  stream : Bool
  /-- `conn->ssl_socket`. -/
  ssl : Bool
  deriving DecidableEq, Repr

/-- What has become of `timer.async_wait`. -/
inductive Wait where
  | pending
  /-- The handler is queued; the timer expired, or was cancelled before. -/
  | queued (cancelled : Bool)
  deriving DecidableEq, Repr

/-- A timer whose handler has not run, and the operation it was armed for. -/
structure Timer where
  op : ℕ
  wait : Wait
  deriving DecidableEq, Repr

/-- An operation of the socket. -/
inductive Io where
  | outstanding
  /-- The handler that resumes the coroutine is queued. -/
  | completed (ec : Option ReadError) (isDone : Bool)
  deriving DecidableEq, Repr

/-- What the functions throw. -/
inductive Exception where
  /-- `HttpTimeoutException`. -/
  | timeout
  | failed
  deriving DecidableEq, Repr

/-- Where the coroutine is. -/
inductive Phase where
  /-- Before the write. -/
  | ready
  /-- Suspended in an operation. -/
  | suspended (op : ℕ) (io : Io)
  | returned
  | threw (e : Exception)
  deriving DecidableEq, Repr

/-- The coroutine and its timers. The flags of a block are gone when the block is left, while the
handler of its timer may still be queued. -/
structure State where
  phase : Phase
  /-- `write_completed` or `read_completed` of the current block. -/
  completed : Bool
  /-- `conn->is_open()`. -/
  isOpen : Bool
  timers : List Timer
  /-- For each operation that was cancelled, the operation whose timer did it. -/
  cancels : List (ℕ × ℕ)
  deriving DecidableEq, Repr

/-- Before the write, on an open connection. -/
def State.init : State := ⟨.ready, false, true, [], []⟩

/-- The events. An operation completes, and its coroutine resumes later; in between, the timer may
expire and its handler run. -/
inductive Event where
  /-- The write is started. -/
  | start
  /-- The operation completes. -/
  | complete (ec : Option ReadError) (isDone : Bool)
  /-- The handler of the operation runs. -/
  | resume
  /-- The timer of an operation expires. -/
  | expire (op : ℕ)
  /-- The handler of a timer runs, and finds `stale` in a flag that is gone. -/
  | handle (t : Timer) (stale : Bool)
  deriving DecidableEq, Repr

/-- `net::error::operation_aborted`. -/
def operationAborted : ReadError := .other 125

/-- The operations that call `timer.async_wait`. -/
def Call.arms (c : Call) (op : ℕ) : Bool := !c.stream || op != 0

/-- Start an operation. -/
def coAwait (c : Call) (op : ℕ) (s : State) : State :=
  { s with
    phase := .suspended op .outstanding
    completed := false
    timers := s.timers ++ if c.arms op then [⟨op, .pending⟩] else [] }

/-- What follows an operation. -/
inductive Next where
  | operation
  | done
  | throw (e : Exception)
  deriving DecidableEq, Repr

/-- After the write and after the read of `async_request`. -/
def checked (ec : Option ReadError) (next : Next) : Next :=
  match ec with
  | none => next
  | some e => if e = operationAborted then .throw .timeout else .throw .failed

/-- After the write of `async_requestStream`: the flag is set by now, so that it never reports a
timeout. -/
def checkedStream (ec : Option ReadError) : Next :=
  match ec with
  | none => .operation
  | some _ => .throw .failed

/-- After a read of `async_requestStream`, with the condition of the loop. -/
def checkedRead (tolerated isDone : Bool) : Next :=
  if tolerated then if isDone then .done else .operation else .throw .failed

/-- What follows the operations of the two functions. -/
def Call.after (c : Call) (op : ℕ) (ec : Option ReadError) (isDone : Bool) : Next :=
  match c.stream, op with
  | false, 0 => checked ec .operation
  | false, _ + 1 => checked ec .done
  | true, 0 => checkedStream ec
  | true, 1 => checkedRead (headerTolerates ec) isDone
  | true, _ + 2 => checkedRead (bodyTolerates ec) isDone

/-- `timer.cancel()` for the timer of an operation. -/
def Timer.cancel (op : ℕ) (t : Timer) : Timer :=
  if t = ⟨op, .pending⟩ then ⟨op, .queued true⟩ else t

/-- The timer of an operation expires. -/
def Timer.expire (op : ℕ) (t : Timer) : Timer :=
  if t = ⟨op, .pending⟩ then ⟨op, .queued false⟩ else t

/-- The coroutine is resumed after an operation. -/
def resumed (c : Call) (op : ℕ) (ec : Option ReadError) (isDone : Bool) (s : State) : State :=
  let s := { s with completed := true, timers := s.timers.map (Timer.cancel op) }
  match c.after op ec isDone with
  | .operation => coAwait c (op + 1) s
  | .done => { s with phase := .returned }
  | .throw e => { s with phase := .threw e }

/-- The flag that the handler of a timer reads. -/
def State.flag (s : State) (op : ℕ) (stale : Bool) : Bool :=
  match s.phase with
  | .suspended current _ => if current = op then s.completed else stale
  | _ => stale

/-- Whether the handler of a timer that has expired cancels the socket. -/
def Call.cancels (c : Call) (flag isOpen : Bool) : Bool :=
  c.stream || (!flag && (!c.ssl || isOpen))

/-- `conn->lowest_layer().cancel()`, by the timer of an operation. -/
def cancelSocket (timer : ℕ) (s : State) : State :=
  match s.phase with
  | .suspended op .outstanding =>
    { s with
      phase := .suspended op (.completed (some operationAborted) false)
      cancels := s.cancels ++ [(timer, op)] }
  | _ => s

/-- The handler of a timer. -/
def handled (c : Call) (t : Timer) (cancelled stale : Bool) (s : State) : State :=
  let s := { s with timers := s.timers.erase t }
  if !cancelled && c.cancels (s.flag t.op stale) s.isOpen then cancelSocket t.op s else s

/-- The events of a call. One that does not fit the phase of the coroutine or the state of the
timer is no step. -/
def step (c : Call) (s : State) : Event → Option State
  | .start =>
    match s.phase with
    | .ready => some (coAwait c 0 s)
    | _ => none
  | .complete ec isDone =>
    match s.phase with
    | .suspended op .outstanding => some { s with phase := .suspended op (.completed ec isDone) }
    | _ => none
  | .resume =>
    match s.phase with
    | .suspended op (.completed ec isDone) => some (resumed c op ec isDone s)
    | _ => none
  | .expire op =>
    if ⟨op, .pending⟩ ∈ s.timers then some { s with timers := s.timers.map (Timer.expire op) }
    else none
  | .handle t stale =>
    if t ∈ s.timers then
      match t.wait with
      | .pending => none
      | .queued cancelled => some (handled c t cancelled stale s)
    else none

/-- The runs of a call. -/
def system (c : Call) : Transition.System State Event := ⟨State.init, step c⟩

/-- A timer armed for the operation is pending, or has expired and its handler is queued. -/
def State.HasTimer (s : State) (op : ℕ) : Prop :=
  ∃ t ∈ s.timers, t.op = op ∧ t.wait ≠ .queued true

/-- **The operation that the coroutine waits for has a timer.** One that has completed, on its own
or because it was cancelled, is over, and only the coroutine is still to be resumed. -/
def State.Covered (s : State) : Prop :=
  ∀ op, s.phase = .suspended op .outstanding → s.HasTimer op

/-- **Every operation that was cancelled was so by its own timer.** -/
def State.OwnTimer (s : State) : Prop := ∀ p ∈ s.cancels, p.1 = p.2

/-- The operation that an event completes, if another one follows it. -/
def State.leaves (c : Call) (s : State) : Event → Option ℕ
  | .resume =>
    match s.phase with
    | .suspended op (.completed ec isDone) =>
      if c.after op ec isDone = .operation then some op else none
    | _ => none
  | _ => none

/-- An operation that is followed by another is not handled while its timer has expired and the
handler is queued. -/
def NoneLate (c : Call) (s : State) (e : Event) : Prop :=
  ∀ op ∈ s.leaves c e, ⟨op, .queued false⟩ ∉ s.timers

instance (c : Call) (s : State) (e : Event) : Decidable (NoneLate c s e) :=
  inferInstanceAs (Decidable (∀ op ∈ s.leaves c e, ⟨op, .queued false⟩ ∉ s.timers))

/-! ## Events -/

variable {c : Call} {s t : State} {e : Event}

/-- **What an event does**: one constructor for each branch of `step`. -/
inductive Moves (c : Call) (s : State) : Event → State → Prop where
  | start (hphase : s.phase = .ready) : Moves c s .start (coAwait c 0 s)
  | complete {op : ℕ} {ec : Option ReadError} {isDone : Bool}
      (hphase : s.phase = .suspended op .outstanding) :
      Moves c s (.complete ec isDone) { s with phase := .suspended op (.completed ec isDone) }
  | resume {op : ℕ} {ec : Option ReadError} {isDone : Bool}
      (hphase : s.phase = .suspended op (.completed ec isDone)) :
      Moves c s .resume (resumed c op ec isDone s)
  | expire {op : ℕ} (hmem : ⟨op, .pending⟩ ∈ s.timers) :
      Moves c s (.expire op) { s with timers := s.timers.map (Timer.expire op) }
  | handle {op : ℕ} {cancelled stale : Bool} (hmem : ⟨op, .queued cancelled⟩ ∈ s.timers) :
      Moves c s (.handle ⟨op, .queued cancelled⟩ stale)
        (handled c ⟨op, .queued cancelled⟩ cancelled stale s)

/-- A step does what its event does.

**Proof sketch.** One case for each event, and in each for its guard. -/
lemma moves_of_step (h : step c s e = some t) : Moves c s e t := by
  cases e with
  | start =>
    rw [step] at h
    split at h
    · next hphase => exact Option.some.inj h ▸ .start hphase
    · cases h
  | complete ec isDone =>
    rw [step] at h
    split at h
    · next op hphase => exact Option.some.inj h ▸ .complete hphase
    · cases h
  | resume =>
    rw [step] at h
    split at h
    · next op ec isDone hphase => exact Option.some.inj h ▸ .resume hphase
    · cases h
  | expire op =>
    rw [step] at h
    split at h
    · next hmem => exact Option.some.inj h ▸ .expire hmem
    · cases h
  | handle tm stale =>
    obtain ⟨op, wait⟩ := tm
    rw [step] at h
    split at h
    · next hmem =>
      cases wait with
      | pending => cases h
      | queued cancelled => exact Option.some.inj h ▸ .handle hmem
    · cases h

/-- The flag of the current operation. -/
lemma flag_current {op : ℕ} {io : Io} (h : s.phase = .suspended op io) (stale : Bool) :
    s.flag op stale = s.completed := by
  rw [State.flag, h]
  exact if_pos rfl

/-- The flag of an operation that is over. -/
lemma flag_over {op k : ℕ} {io : Io} (h : s.phase = .suspended op io) (hne : op ≠ k)
    (stale : Bool) : s.flag k stale = stale := by
  rw [State.flag, h]
  exact if_neg hne

/-- The operations that are completed and followed by another: exactly those whose coroutine
resumes and goes on. -/
lemma mem_leaves {op : ℕ} : op ∈ s.leaves c e ↔
    e = .resume ∧ ∃ ec isDone, s.phase = .suspended op (.completed ec isDone) ∧
      c.after op ec isDone = .operation := by
  constructor
  · intro h
    unfold State.leaves at h
    split at h
    · split at h
      · next op' ec isDone hphase =>
        split at h
        · next hafter =>
          obtain rfl : op' = op := by simpa using h
          exact ⟨rfl, ec, isDone, hphase, hafter⟩
        · cases h
      · cases h
    · cases h
  · rintro ⟨rfl, ec, isDone, hphase, hafter⟩
    simp [State.leaves, hphase, hafter]

/-- The coroutine goes on with the next operation. -/
lemma resumed_next {op : ℕ} {ec : Option ReadError} {isDone : Bool}
    (h : c.after op ec isDone = .operation) :
    resumed c op ec isDone s = coAwait c (op + 1)
      { s with completed := true, timers := s.timers.map (Timer.cancel op) } := by
  simp only [resumed, h]

/-- The coroutine comes to an end. -/
lemma resumed_end {op : ℕ} {ec : Option ReadError} {isDone : Bool}
    (h : c.after op ec isDone ≠ .operation) :
    (∀ op' io, (resumed c op ec isDone s).phase ≠ .suspended op' io) ∧
      (resumed c op ec isDone s).phase ≠ .ready ∧
      (resumed c op ec isDone s).isOpen = s.isOpen ∧
      (resumed c op ec isDone s).cancels = s.cancels := by
  cases hafter : c.after op ec isDone with
  | operation => exact absurd hafter h
  | done => simp [resumed, hafter]
  | throw e => simp [resumed, hafter]

/-- The handler of a timer cancels the operation that the coroutine waits for, or does nothing.

**Proof sketch.** The handler has left the timers in any case. If its guards hold and an operation
is outstanding, then it completes this one with an abort; otherwise nothing else happens. -/
lemma handled_cases (tm : Timer) (cancelled stale : Bool) :
    (∃ op, s.phase = .suspended op .outstanding ∧ cancelled = false ∧
      c.cancels (s.flag tm.op stale) s.isOpen = true ∧
      handled c tm cancelled stale s =
        { s with
          timers := s.timers.erase tm
          phase := .suspended op (.completed (some operationAborted) false)
          cancels := s.cancels ++ [(tm.op, op)] }) ∨
    ((∀ op, s.phase = .suspended op .outstanding →
        cancelled = true ∨ c.cancels (s.flag tm.op stale) s.isOpen = false) ∧
      handled c tm cancelled stale s = { s with timers := s.timers.erase tm }) := by
  have hflag : State.flag { s with timers := s.timers.erase tm } tm.op stale = s.flag tm.op stale :=
    rfl
  cases hfires : !cancelled && c.cancels (s.flag tm.op stale) s.isOpen with
  | false =>
    refine Or.inr ⟨fun _ _ => ?_, by simp [handled, hflag, hfires]⟩
    simpa using Bool.and_eq_false_iff.mp hfires
  | true =>
    obtain ⟨hcancelled, hcancels⟩ := Bool.and_eq_true_iff.mp hfires
    have hhandled : handled c tm cancelled stale s =
        cancelSocket tm.op { s with timers := s.timers.erase tm } := by
      simp [handled, hflag, hfires]
    rw [hhandled, cancelSocket]
    split
    · next op hphase =>
      exact Or.inl ⟨op, hphase, by simpa using hcancelled, hcancels, rfl⟩
    · next hphase => exact Or.inr ⟨fun op hop => absurd hop (hphase op), rfl⟩

/-- An expiry leaves the operation of a timer as it is. -/
lemma expire_op (op : ℕ) (tm : Timer) : (tm.expire op).op = tm.op := by
  rw [Timer.expire]
  split
  · next h => rw [h]
  · rfl

/-- After a call of `cancel()` the handler of a timer is queued with an error, unless the timer has
expired. -/
lemma cancel_wait {op : ℕ} {tm : Timer} (hop : tm.op = op ∨ tm.wait = .queued true)
    (hne : tm ≠ ⟨op, .queued false⟩) : (tm.cancel op).wait = .queued true := by
  obtain ⟨k, wait⟩ := tm
  rcases hop with hk | hwait
  · cases hk
    cases wait with
    | pending => rw [Timer.cancel, if_pos rfl]
    | queued cancelled =>
      cases cancelled with
      | false => exact absurd rfl hne
      | true => rw [Timer.cancel, if_neg (by simp)]
  · cases hwait
    rw [Timer.cancel, if_neg (by simp)]

/-- The handlers that an expiry queues with an error were so before. -/
lemma expire_wait_iff (op : ℕ) (tm : Timer) :
    (tm.expire op).wait = .queued true ↔ tm.wait = .queued true := by
  rw [Timer.expire]
  split
  · next h => simp [h]
  · rfl

/-! ## Which operations have a timer -/

/-- The operations that arm a timer have one. -/
structure Armed (c : Call) (s : State) : Prop where
  isOpen : s.isOpen = true
  flag : ∀ op io, s.phase = .suspended op io → s.completed = false
  covered : ∀ op, s.phase = .suspended op .outstanding → c.arms op = true → s.HasTimer op

/-- An operation that is started has its timer. -/
lemma armed_coAwait (hopen : s.isOpen = true) (op : ℕ) : Armed c (coAwait c op s) where
  isOpen := hopen
  flag _ _ _ := rfl
  covered op' hphase harms := by
    obtain rfl : op = op' := by simpa [coAwait] using hphase
    refine ⟨⟨op, .pending⟩, ?_, rfl, by simp⟩
    simp [coAwait, harms]

/-- Every step leaves the operations their timers.

**Proof sketch.** One case for each move. A new operation arms its timer, a timer that expires or
is handled belongs to an operation that keeps another state or is over, and no move takes the timer
of one that is outstanding. -/
lemma Armed.step (h : Armed c s) (hstep : step c s e = some t) : Armed c t := by
  cases moves_of_step hstep with
  | start hphase => exact armed_coAwait h.isOpen 0
  | complete hphase =>
    refine ⟨h.isOpen, fun op' io hop => h.flag _ _ hphase, fun op' hop => ?_⟩
    cases hop
  | resume hphase =>
    rename_i op ec isDone
    by_cases hafter : c.after op ec isDone = .operation
    · rw [resumed_next hafter]
      refine armed_coAwait ?_ _
      exact h.isOpen
    · obtain ⟨hend, -, hopen, -⟩ := resumed_end (s := s) hafter
      exact ⟨hopen.trans h.isOpen, fun op' io hop => absurd hop (hend op' io),
        fun op' hop => absurd hop (hend op' _)⟩
  | expire hmem =>
    rename_i op
    refine ⟨h.isOpen, h.flag, fun op' hop harms => ?_⟩
    obtain ⟨tm, htm, hop', hwait⟩ := h.covered op' hop harms
    exact ⟨tm.expire op, List.mem_map_of_mem htm, (expire_op op tm).trans hop',
      mt (expire_wait_iff op tm).mp hwait⟩
  | handle hmem =>
    rename_i op cancelled stale
    rcases handled_cases ⟨op, .queued cancelled⟩ cancelled stale (s := s) (c := c) with
      ⟨op', hphase, -, -, heq⟩ | ⟨hnone, heq⟩
    · rw [heq]
      refine ⟨h.isOpen, fun op'' io hop => h.flag _ _ hphase, fun op'' hop => ?_⟩
      cases hop
    · rw [heq]
      refine ⟨h.isOpen, h.flag, fun op' hop harms => ?_⟩
      obtain ⟨tm, htm, hop', hwait⟩ := h.covered op' hop harms
      -- The handler that runs is not the one of this timer: that one cancels the operation.
      have hne : tm ≠ ⟨op, .queued cancelled⟩ := by
        rintro rfl
        rcases hnone op' hop with rfl | hcancels
        · exact hwait rfl
        · have hflag : s.flag op stale = false := by
            cases hop'
            exact (flag_current hop stale).trans (h.flag op _ hop)
          simp [Call.cancels, hflag, h.isOpen] at hcancels
      exact ⟨tm, (List.mem_erase_of_ne hne).mpr htm, hop', hwait⟩

/-- The operations that arm a timer have one in every state that is reached. -/
lemma armed_of_run {es : List Event} (hrun : (system c).run es = some s) : Armed c s :=
  have hinit : Armed c (system c).init :=
    { isOpen := rfl
      flag := fun _ _ h => by cases h
      covered := fun _ h => by cases h }
  Transition.System.run_invariant hinit (fun _ _ _ h hstep => h.step hstep) hrun

/-- **Which operations have a timer**: all those of `async_request`; the write of
`async_requestStream`, with which every run of it starts, has none.

**Proof sketch.** A call of `async_request` arms a timer for each operation, by `Armed`. The first
operation of `async_requestStream` is a write without one, and every run starts with it. -/
lemma always_covered_iff {es : List Event} (hrun : (system c).run es = some s) :
    (system c).Always State.Covered es ↔ c.stream = false ∨ es = [] := by
  have hcovered : ∀ s, Armed c s → c.stream = false → s.Covered := fun s hs hstream op hop =>
    hs.covered op hop (by simp [Call.arms, hstream])
  constructor
  · intro halways
    cases es with
    | nil => exact Or.inr rfl
    | cons e es =>
      refine Or.inl ?_
      obtain ⟨t, ht, -⟩ := (system c).runFrom_cons_eq_some.mp hrun
      have hfirst : t.Covered := (system c).alwaysFrom_iff.mp halways [e] (by simp) t (by simp [ht])
      have hmoves : Moves c State.init e t := moves_of_step ht
      cases hmoves with
      | start _ =>
        obtain ⟨tm, htm, -, -⟩ := hfirst 0 rfl
        cases hstream : c.stream with
        | false => rfl
        | true => simp [coAwait, State.init, Call.arms, hstream] at htm
      | complete hphase => cases hphase
      | resume hphase => cases hphase
      | expire hmem => cases hmem
      | handle hmem => cases hmem
  · rintro (hstream | rfl)
    · refine (system c).alwaysFrom_iff.mpr fun fs _ t hrun => ?_
      exact hcovered t (armed_of_run hrun) hstream
    · intro op hop
      cases hop

/-! ## Whose timer cancels an operation -/

/-- Only the timer of the current operation can still cancel one. -/
structure Prompt (s : State) : Prop where
  own : s.OwnTimer
  timers : ∀ op io, s.phase = .suspended op io →
    ∀ tm ∈ s.timers, tm.op = op ∨ tm.wait = .queued true
  ready : s.phase = .ready → s.timers = []

/-- The next operation is started when no handler can cancel it. -/
lemma prompt_coAwait (hown : s.OwnTimer) (htimers : ∀ tm ∈ s.timers, tm.wait = .queued true)
    (op : ℕ) : Prompt (coAwait c op s) := by
  refine ⟨hown, fun op' io hop tm htm => ?_, fun hready => by cases hready⟩
  obtain ⟨rfl, -⟩ : op = op' ∧ Io.outstanding = io := by simpa [coAwait] using hop
  rcases List.mem_append.mp htm with hold | hnew
  · exact Or.inr (htimers tm hold)
  · split at hnew
    · exact Or.inl (List.mem_singleton.mp hnew ▸ rfl)
    · cases hnew

/-- A step that meets the condition leaves it so.

**Proof sketch.** One case for each move. An operation that is over leaves no timer whose handler
is queued, by the condition, so the timers of the next one are its own. -/
lemma Prompt.step (h : Prompt s) (hlate : NoneLate c s e) (hstep : step c s e = some t) :
    Prompt t := by
  cases moves_of_step hstep with
  | start hphase =>
    refine prompt_coAwait h.own (fun tm htm => ?_) 0
    rw [h.ready hphase] at htm
    cases htm
  | complete hphase =>
    refine ⟨h.own, fun op' io hop tm htm => ?_, fun hready => by cases hready⟩
    cases hop
    exact h.timers _ _ hphase tm htm
  | resume hphase =>
    rename_i op ec isDone
    by_cases hafter : c.after op ec isDone = .operation
    · rw [resumed_next hafter]
      refine prompt_coAwait ?_ (fun tm htm => ?_) _
      · exact h.own
      obtain ⟨old, hold, rfl⟩ := List.mem_map.mp htm
      have hnone := hlate op (mem_leaves.mpr ⟨rfl, ec, isDone, hphase, hafter⟩)
      exact cancel_wait (h.timers op _ hphase old hold) fun hold' => hnone (hold' ▸ hold)
    · obtain ⟨hend, hready, -, hcancels⟩ := resumed_end (s := s) hafter
      exact ⟨fun p hp => h.own p (hcancels ▸ hp), fun op' io hop => absurd hop (hend op' io),
        fun h => absurd h hready⟩
  | expire hmem =>
    rename_i op
    refine ⟨h.own, fun op' io hop tm htm => ?_, fun hready => ?_⟩
    · obtain ⟨old, hold, rfl⟩ := List.mem_map.mp htm
      rw [expire_op, expire_wait_iff]
      exact h.timers op' io hop old hold
    · rw [h.ready hready] at hmem
      cases hmem
  | handle hmem =>
    rename_i op cancelled stale
    have hsub : ∀ tm ∈ s.timers.erase ⟨op, .queued cancelled⟩, tm ∈ s.timers :=
      fun tm htm => List.mem_of_mem_erase htm
    rcases handled_cases ⟨op, .queued cancelled⟩ cancelled stale (s := s) (c := c) with
      ⟨op', hphase, rfl, -, heq⟩ | ⟨-, heq⟩
    · rw [heq]
      refine ⟨fun p hp => ?_, fun op'' io hop tm htm => ?_, fun hready => by cases hready⟩
      · rcases List.mem_append.mp hp with hold | hnew
        · exact h.own p hold
        · rw [List.mem_singleton.mp hnew]
          simpa using h.timers op' _ hphase _ hmem
      · cases hop
        exact h.timers op' _ hphase tm (hsub tm htm)
    · rw [heq]
      refine ⟨h.own, fun op' io hop tm htm => h.timers op' io hop tm (hsub tm htm),
        fun hready => ?_⟩
      rw [h.ready hready] at hmem
      cases hmem

/-- **Whose timer cancels an operation**: its own, in a run in which no operation that is followed
by another is handled while its timer has expired. -/
lemma always_ownTimer {es : List Event} (halong : (system c).Along (NoneLate c) es) :
    (system c).Always State.OwnTimer es := by
  have hinit : Prompt (system c).init :=
    { own := fun p hp => by cases hp
      timers := fun _ _ h => by cases h
      ready := fun _ => rfl }
  exact Transition.System.always_of_along hinit (fun _ h => h.own)
    (fun _ _ _ h hlate hstep => h.step hlate hstep) halong

/-- After a step that does not meet the condition, the late handler may cancel the next operation.

**Proof sketch.** The coroutine goes on to its next operation while the handler is queued. The
event that runs this handler cancels the next operation, which is not that of its timer. -/
lemma exists_of_late (hopen : s.isOpen = true) (hlate : ¬ NoneLate c s e)
    (hstep : step c s e = some t) : ∃ f u, step c t f = some u ∧ ¬ u.OwnTimer := by
  simp only [NoneLate, not_forall, not_not] at hlate
  obtain ⟨op, hleaves, hmem⟩ := hlate
  obtain ⟨rfl, ec, isDone, hphase, hafter⟩ := mem_leaves.mp hleaves
  cases moves_of_step hstep with
  | resume hphase' =>
  cases hphase.symm.trans hphase'
  rw [resumed_next hafter]
  set t := coAwait c (op + 1)
    { s with completed := true, timers := s.timers.map (Timer.cancel op) } with ht
  have hnext : t.phase = .suspended (op + 1) .outstanding := rfl
  have hqueued : ⟨op, .queued false⟩ ∈ t.timers := by
    have hkept : Timer.cancel op ⟨op, .queued false⟩ = ⟨op, .queued false⟩ := if_neg (by simp)
    exact List.mem_append_left _ (hkept ▸ List.mem_map_of_mem hmem)
  have hfires : c.cancels (t.flag op false) t.isOpen = true := by
    rw [flag_over hnext (Nat.succ_ne_self op), show t.isOpen = true from hopen]
    simp [Call.cancels]
  refine ⟨.handle ⟨op, .queued false⟩ false, handled c ⟨op, .queued false⟩ false false t, ?_, ?_⟩
  · simp [Timeouts.step, hqueued]
  · rcases handled_cases ⟨op, .queued false⟩ false false (s := t) (c := c) with
      ⟨op', hop', -, -, hu⟩ | ⟨hnone, -⟩
    · obtain rfl : op + 1 = op' := by simpa [hnext] using hop'
      rw [hu]
      intro hown
      exact absurd (hown (op, op + 1) (by simp)) (Nat.succ_ne_self op).symm
    · simp [hfires] at hnone
      exact absurd hnext (hnone _)

/-- **When timeouts match their operations**: the operations of `async_request` always have a timer,
and no run of `async_requestStream` gets past its write with one; and an operation is cancelled only
by its own timer in the runs in which no operation that is followed by another is handled while its
timer has expired. In any other run the handler of that timer may cancel the next operation.

**Proof sketch.** An operation arms its timer when it is started, and its handler runs either after
the operation or cancels it. When the next operation is started, `timer.cancel()` has queued the
handler with an error, unless the timer had expired. -/
theorem timeouts_match (c : Call) :
    (∀ es s, (system c).run es = some s →
      ((system c).Always State.Covered es ↔ c.stream = false ∨ es = [])) ∧
    (∀ es, (system c).Along (NoneLate c) es → (system c).Always State.OwnTimer es) ∧
    ∀ es s e t, (system c).run es = some s → (system c).step s e = some t → ¬ NoneLate c s e →
      ∃ f u, (system c).step t f = some u ∧ ¬ u.OwnTimer :=
  ⟨fun _ _ hrun => always_covered_iff hrun, fun _ halong => always_ownTimer halong,
    fun _ _ _ _ hrun hstep hlate => exists_of_late (armed_of_run hrun).isOpen hlate hstep⟩

/-- A call of `async_request` whose timers do not expire. -/
def inTime : List Event :=
  [.start, .complete none false, .resume, .complete none true, .resume]

/-- Its operations have their timers, and none is cancelled by another's. -/
theorem timeouts_match_inTime :
    (system ⟨false, false⟩).Always State.Covered inTime ∧
      (system ⟨false, false⟩).Always State.OwnTimer inTime := by
  have hprompt : (system ⟨false, false⟩).Along (NoneLate ⟨false, false⟩) inTime := by decide
  obtain ⟨hcovered, hown, -⟩ := timeouts_match ⟨false, false⟩
  exact ⟨(hcovered inTime _ rfl).mpr (Or.inl rfl), hown inTime hprompt⟩

/-- The timer of the read of the first chunk expires after the chunk has arrived and before it is
handled, and its handler runs when the next chunk is awaited. -/
def lateTimer : List Event :=
  [.start, .complete none false, .resume, .complete none false, .resume,
    .complete (some .needBuffer) false, .expire 2, .resume, .handle ⟨2, .queued false⟩ false]

/-- A call that streams: its write has no timer, and the timer of one chunk cancels the read of the
next. -/
theorem chunk_timer :
    (∃ s, (system ⟨true, false⟩).run [.start] = some s ∧ ¬ s.Covered) ∧
    ∃ s, (system ⟨true, false⟩).run lateTimer = some s ∧ ¬ s.OwnTimer := by
  refine ⟨⟨_, rfl, fun h => ?_⟩, ⟨_, rfl, fun h => ?_⟩⟩
  · obtain ⟨tm, htm, -⟩ := h 0 rfl
    cases htm
  · exact absurd (h (2, 3) (List.mem_singleton.mpr rfl)) (by decide)

end HkuUtils.Timeouts
