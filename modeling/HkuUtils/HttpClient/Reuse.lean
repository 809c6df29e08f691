import HkuUtils.HttpClient.Discipline

set_option relaxedAutoImplicit false
set_option autoImplicit false

/-!
# The connections that are used again

`_getConnection` takes a connection as it is when it has an open socket. A socket is open from the
start of its connect on, and stays open when the timer cancels the connect or the handshake, and
after the server has announced that it closes. A set-up that fails leaves it to the pool in that
state.

## Main definitions

* `HkuUtils.HttpClient.Sock.Established` — connected, with its handshake, and not about to close.
* `HkuUtils.HttpClient.ReusesEstablished` — a call is handed no other open socket.
* `HkuUtils.HttpClient.SetUp.Completes`, `LeavesEstablished` — the steps that leave no other open
  socket.

## Main results

* `HkuUtils.HttpClient.reuses_established` — in a run in which calls end on such steps, or on a
  connection that is deleted, only established connections are used again.
* `HkuUtils.HttpClient.reuses_not_established` — after a connect that times out it is not so.
-/

namespace HkuUtils.HttpClient

open Transition

/-- The last connect on the socket has succeeded, for https the handshake too, and no response read
from it has announced that the server closes it. -/
structure Sock.Established (target : Target) (s : Sock) : Prop where
  connected : s.connected = true
  handshaken : target.https = true → s.handshaken = true
  closing : s.closing = false

/-- The sockets that `_getConnection` takes as they are, without a reconnect, are established. -/
def ReusesEstablished (target : Target) (s : State) : Prop :=
  ∀ hd ∈ s.pool.handles, ∀ stream, s.phase hd.closer = .connecting stream →
    ∀ sk ∈ (s.conns hd.res.ptr).sock, sk.Established target

/-- A set-up does not leave a socket half-way: no connect is aborted, and for https a successful
connect is followed by a `set_option` that does not throw and a successful handshake. -/
def SetUp.Completes (target : Target) (conn : HttpConnection) (env : SetUp) : Prop :=
  conn.isOpen = true ∨ ∀ eps ∈ (chooseEndpoints conn env).toOption,
    connectEnd eps env.connects ≠ .aborted ∧
      (connectEnd eps env.connects = .success → target.https = true →
        env.setOption = none ∧ env.handshake = .success)

instance (target : Target) (conn : HttpConnection) (env : SetUp) :
    Decidable (env.Completes target conn) :=
  inferInstanceAs (Decidable (_ ∨ ∀ eps ∈ _, connectEnd eps _ ≠ _ ∧ (_ → _ → _)))

/-- If the step ends the call, it leaves an established socket or none: the set-up completes, and
the response that has been read does not announce that the server closes. -/
def LeavesEstablished (target : Target) (conn : HttpConnection) : Outcome → Prop
  | .setUp env => env.Completes target conn
  | .read (.complete closes) | .read (.undecodable closes _) => closes = false
  | .readHeader (.header closes done) => done = true → closes = false
  | .readChunk (.chunk last throws) =>
    last = true ∨ throws ≠ none → ∀ s ∈ conn.sock, s.closing = false
  | .readChunk (.failed _) => ∀ s ∈ conn.sock, s.closing = false
  | _ => True

instance (target : Target) (conn : HttpConnection) : DecidablePred (LeavesEstablished target conn)
  | .setUp env => inferInstanceAs (Decidable (env.Completes target conn))
  | .read (.complete closes) | .read (.undecodable closes _) =>
    inferInstanceAs (Decidable (closes = false))
  | .readHeader (.header closes done) =>
    inferInstanceAs (Decidable (done = true → closes = false))
  | .readChunk (.chunk last throws) =>
    inferInstanceAs (Decidable (last = true ∨ throws ≠ none → ∀ s ∈ conn.sock, s.closing = false))
  | .readChunk (.failed _) => inferInstanceAs (Decidable (∀ s ∈ conn.sock, s.closing = false))
  | .write _ | .read .timeout | .read (.failed _) | .readHeader .endOfStream
  | .readHeader (.failed _) | .readChunk .endOfStream => isTrue trivial

/-- The socket of a call in a phase: in the body of a response it may have been announced that the
server closes. -/
def Usable (target : Target) (phase : Phase) (conn : HttpConnection) : Prop :=
  match phase with
  | .connecting _ | .writing _ | .reading | .readingHeader => ∀ s ∈ conn.sock, s.Established target
  | .readingBody _ =>
    ∀ s ∈ conn.sock, s.connected = true ∧ (target.https = true → s.handshaken = true)
  | _ => True

/-- Idle connections have an established socket or none. -/
def keptAlive (target : Target) : Conditions where
  Idle conn := ∀ s ∈ conn.sock, s.Established target
  Held _ := Usable target
  Returns _ _ := True
  Fit := LeavesEstablished target

section Steps

variable {target : Target} {c : ℕ} {conn conn' : HttpConnection} {phase : Phase}

/-- A condition for the socket after a change. -/
lemma forall_sock_modify {f : Sock → Sock} {p q : Sock → Prop} (h : ∀ s ∈ conn.sock, p s)
    (hf : ∀ s, p s → q (f s)) : ∀ s ∈ (conn.modify f).sock, q s := by
  intro s hs
  rw [HttpConnection.sock_modify] at hs
  obtain ⟨s', hs', rfl⟩ := Option.mem_map.mp hs
  exact hf s' (h s' hs')

/-- A set-up that completes, with the endpoints it tries. -/
lemma SetUp.Completes.of_endpoints {env : SetUp} (h : env.Completes target conn)
    (hopen : conn.isOpen = false) {eps : List ℕ} (heps : chooseEndpoints conn env = .ok eps) :
    connectEnd eps env.connects ≠ .aborted ∧
      (connectEnd eps env.connects = .success → target.https = true →
        env.setOption = none ∧ env.handshake = .success) :=
  h.resolve_left (by simp [hopen]) eps (by rw [heps]; rfl)

/-- What a set-up leaves.

**Proof sketch.** One case for each exit of the set-up. A socket that is left behind by an error is
one that was connected and, for `https`, one whose handshake ended. -/
lemma SetsUp.established_of_completes {env : SetUp} {e : Option HttpError}
    (h : SetsUp target conn env conn' e) (hconn : ∀ s ∈ conn.sock, s.Established target)
    (hfit : e ≠ none → env.Completes target conn) : ∀ s ∈ conn'.sock, s.Established target := by
  cases h with
  | reused _ hsock =>
    rw [hsock]
    exact hconn
  | unresolved e hopen => exact hconn
  | @unconnected _ eps e hopen heps hend hsock =>
    have hfit := (hfit (by simp)).of_endpoints hopen heps
    rw [hsock]
    cases hloop : connectEnd eps env.connects with
    | success => exact absurd hloop hend
    | failed => simp [ConnectOutcome.sock]
    | aborted => exact absurd hloop hfit.1
  | @unfinished _ eps e hopen heps hend hfail hsock =>
    have hfit := (hfit (by simp)).of_endpoints hopen heps
    rw [hsock]
    rintro s ⟨⟩
    refine ⟨rfl, fun hhttps => ?_, rfl⟩
    obtain ⟨hoption, hhand⟩ := hfit.2 hend hhttps
    exact absurd hhand (hfail hhttps hoption)
  | established hopen hsock =>
    rw [hsock]
    rintro s ⟨⟩
    exact ⟨rfl, id, rfl⟩

/-- A request does not change what the socket is like. -/
lemma Sock.Established.request {s : Sock} (h : s.Established target) (reached : Bool) :
    (s.request c reached).Established target := by
  cases reached <;> exact ⟨h.connected, h.handshaken, h.closing⟩

/-- A response that announces nothing does not either. -/
lemma Sock.Established.announce {s : Sock} (h : s.Established target) {closes : Bool}
    (hcloses : closes = false) : (s.announce closes).Established target := by
  subst hcloses
  exact ⟨h.connected, h.handshaken, by simpa [Sock.announce] using h.closing⟩

/-- A whole response that announces nothing leaves the socket established. -/
lemma established_announce_finish (h : ∀ s ∈ conn.sock, s.Established target) {closes : Bool}
    (hcloses : closes = false) :
    ∀ s ∈ (conn.modify fun s => (s.announce closes).finish).sock, s.Established target := by
  refine forall_sock_modify h ?_
  intro s hs
  have := hs.announce hcloses
  exact ⟨this.connected, this.handshaken, this.closing⟩

/-- So does the end of a body, if nothing was announced before. -/
lemma established_of_body
    (h : ∀ s ∈ conn.sock, s.connected = true ∧ (target.https = true → s.handshaken = true))
    (hclosing : ∀ s ∈ conn.sock, s.closing = false) :
    (∀ s ∈ conn.sock, s.Established target) ∧
      ∀ s ∈ (conn.modify Sock.finish).sock, s.Established target := by
  have hconn : ∀ s ∈ conn.sock, s.Established target := by
    intro s hs
    obtain ⟨hconnected, hhandshaken⟩ := h s hs
    exact ⟨hconnected, hhandshaken, hclosing s hs⟩
  refine ⟨hconn, forall_sock_modify hconn ?_⟩
  intro s hs
  exact ⟨hs.connected, hs.handshaken, hs.closing⟩

/-- **A step of a call on its connection** leaves it to the pool established, if it is one of those
that do.

**Proof sketch.** One case for each action. A request that is written leaves the socket
established, and every exit but the good one closes it, unless the set-up itself failed. -/
theorem act_keptAlive {outcome : Outcome} {phase' : Phase} (h : Usable target phase conn)
    (hact : act target c conn phase outcome = some (conn', phase')) :
    (keptAlive target).After c (LeavesEstablished target conn outcome) conn' phase' := by
  have hrequest : (∀ s ∈ conn.sock, s.Established target) → ∀ reached,
      ∀ s ∈ (conn.modify (Sock.request c reached)).sock, s.Established target := by
    intro hconn reached
    refine forall_sock_modify hconn ?_
    intro s hs
    exact hs.request reached
  cases acts_of_act hact with
  | setUp hset => exact hset.established_of_completes h (absurd rfl)
  | setUpThrows hset => exact fun hfit => hset.established_of_completes h fun _ => hfit
  | unbuilt | readTimeout | readFailed | headerFailed => exact fun _ => h
  | @written stream reached =>
    cases stream with
    | true => exact hrequest h reached
    | false => exact hrequest h reached
  | writeTimeout reached | writeFailed what reached => exact fun _ => hrequest h reached
  | complete => exact ⟨trivial, established_announce_finish h⟩
  | undecodable => exact established_announce_finish h
  | header =>
    -- from here on the server may be about to close
    refine forall_sock_modify h ?_
    intro s hs
    exact ⟨hs.connected, hs.handshaken⟩
  | headerOnly => exact ⟨trivial, fun hfit => established_announce_finish h (hfit rfl)⟩
  | noHeader =>
    refine forall_sock_modify h ?_
    intro s hs
    exact ⟨hs.connected, hs.handshaken⟩
  | chunk | noChunk => exact h
  | lastChunk => exact ⟨trivial, fun hfit => (established_of_body h (hfit (Or.inl rfl))).2⟩
  | callback tag last what =>
    intro hfit
    obtain ⟨hconn, hfinish⟩ := established_of_body h (hfit (Or.inr (by simp)))
    cases last with
    | true => exact hfinish
    | false => exact hconn
  | bodyFailed => exact fun hfit => (established_of_body h hfit).1

end Steps

/-- Connections that are kept alive as a discipline. -/
def reuse (target : Target) : Discipline target where
  toConditions := keptAlive target
  held_new _ _ _ := by simp [keptAlive, Usable, HttpConnection.new, HttpConnection.sock]
  held_of_idle _ _ _ h := h
  act_after := act_keptAlive

instance (target : Target) (conn : HttpConnection) (outcome : Outcome) :
    Decidable ((reuse target).Fit conn outcome) :=
  inferInstanceAs (Decidable (LeavesEstablished target conn outcome))

/-- **Only established connections are used again** in every run in which each step that ends a
call leaves an established socket or none, or ends on a connection that the pool deletes.

**Proof sketch.** A connection that a call is handed is new, without a socket, or was idle. What is
idle was put there by a step that met the condition, and while it is idle nobody touches it. -/
theorem reuses_established {target : Target} {timeout : ℤ} {maxConcurrency : ℕ}
    {es : List Event} {s : State}
    (hends : (system target timeout maxConcurrency).Along (reuse target).EndsWell es)
    (hrun : (system target timeout maxConcurrency).run es = some s) :
    ReusesEstablished target s := by
  intro hd hmem stream hphase
  have hheld := (Discipline.run_kept hends hrun).held hd hmem
  rwa [hphase] at hheld

/-- The first address refuses the connection, the second one takes it, and the handshake
succeeds; then a second call is handed the connection. -/
theorem reuses_established_after_refusal : ∃ s,
    (system ⟨true, "localhost", "443"⟩ 1000 1).run
      [.call false .ok 0,
        .act 0 (.setUp ⟨0, .endpoints [1, 2], [.failed, .success], none, .success⟩) true,
        .act 0 (.write (.ok true)) true, .act 0 (.read (.complete false)) true,
        .call false .ok 1] = some s ∧
      ReusesEstablished ⟨true, "localhost", "443"⟩ s := by
  have hrun : (system ⟨true, "localhost", "443"⟩ 1000 1).run
      [.call false .ok 0,
        .act 0 (.setUp ⟨0, .endpoints [1, 2], [.failed, .success], none, .success⟩) true,
        .act 0 (.write (.ok true)) true, .act 0 (.read (.complete false)) true,
        .call false .ok 1] = some _ := rfl
  exact ⟨_, hrun, reuses_established (by decide) hrun⟩

/-- A connect times out; the next call is handed the socket that was never connected. -/
theorem reuses_not_established : ∃ s,
    (system ⟨false, "localhost", "80"⟩ 1000 1).run
      [.call false .ok 0,
        .act 0 (.setUp ⟨0, .endpoints [1], [.aborted], none, .success⟩) true,
        .call false .ok 1] = some s ∧
      ¬ ReusesEstablished ⟨false, "localhost", "80"⟩ s := by
  refine ⟨_, rfl, fun h => ?_⟩
  have hestablished := h ⟨1, ⟨0, 0, []⟩, true⟩ (by decide) false rfl ⟨false, false, false, []⟩ rfl
  simpa using hestablished.connected

end HkuUtils.HttpClient
