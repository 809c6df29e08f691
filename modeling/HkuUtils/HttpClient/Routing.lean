import HkuUtils.HttpClient.Client
import HkuUtils.HttpClient.Url

set_option relaxedAutoImplicit false
set_option autoImplicit false

/-!
# Where requests go

`AsioHttpClient` with calls of `setUrl` between and during its requests: for which scheme, host and
port a request is issued, and for which ones the connection was opened that it is sent over. The
connections are those of one `ResourceAsioVersionPool`, whose version tells old targets from new
ones.

## Main definitions

* `HkuUtils.Routing.Endpoint`, `Link` — a scheme, host and port, and what a connection was opened
  for.
* `HkuUtils.Routing.State`, `Event`, `step`, `system` — a client as a transition system.
* `HkuUtils.Routing.Steady` — the condition on the steps of a run.
* `HkuUtils.Routing.Kept` — what such a run preserves.

## Main results

* `HkuUtils.Routing.step_kept` — one step that meets the condition preserves it.
* `HkuUtils.Routing.requests_routed`, `plain_reused` — the requests of a run, and a request that is
  sent over a connection for another scheme.

## Design

The target of a client is the scheme, host and port of its last valid URL. A connection has a cached
result of a name resolution, known by the host and port that were resolved, and an open socket. The
set-up of a connection is two steps, the test of `is_open` with the start of a name resolution, and
the rest with its end: `setUrl` may come in between. The write of a request is a step; what is read
after that is left out, and the end of a call returns its connection. If the constructor has made no
pool, no call gets past its checks, and the pool of the state is not used.
-/

namespace HkuUtils.Routing

open Transition AsioPool Url

/-- A scheme, host and port. -/
structure Endpoint where
  https : Bool
  host : List UInt8
  port : List UInt8
  deriving DecidableEq, Repr

/-- What is remembered of an `HttpConnection`. -/
structure Link where
  /-- The host and port that the cached `endpoints` were resolved for, if there are any. -/
  resolved : Option (List UInt8 × List UInt8)
  /-- What the open socket was opened for, if there is one. -/
  opened : Option Endpoint
  deriving DecidableEq, Repr

/-- The constructor of `HttpConnection`. -/
def Link.new : Link := ⟨none, none⟩

/-- Where a call of `async_request` or `async_requestStream` is, as far as it matters for which
target it uses. -/
inductive Stage where
  | unmade
  /-- In `m_connection_pool->get()`. -/
  | waiting
  /-- In `_getConnection`, before the test of `is_open`. -/
  | lent
  /-- In `_getConnection`, before the end of the set-up; a name resolution may have been started. -/
  | connecting (resolving : Option (List UInt8 × List UInt8))
  /-- After `_getConnection`. -/
  | ready
  /-- After the write. -/
  | sent
  | over
  deriving DecidableEq, Repr

/-- The call has been issued and its connection is not set up yet. -/
def Stage.pending : Stage → Bool
  | .waiting | .lent | .connecting _ => true
  | .unmade | .ready | .sent | .over => false

/-- A client, with its pool, its connections and its calls. What a connection was opened for is
remembered with it. -/
structure State where
  /-- The members that `_parseUrl` assigns. -/
  url : Parsed
  /-- The target: scheme, host and port of the last valid URL. -/
  target : Endpoint
  /-- `m_connection_pool` is not null. -/
  hasPool : Bool
  /-- `m_connection_pool`. -/
  pool : AsioPool.State IntParams
  /-- `m_timeout`, in milliseconds. -/
  timeout : ℤ
  /-- The connections, by their addresses. -/
  links : ℕ → Link
  /-- The calls. -/
  stage : ℕ → Stage
  /-- The target when a call was issued. -/
  issued : ℕ → Endpoint
  /-- The requests that were sent: their targets, and what their connections were opened for. -/
  sent : List (Endpoint × Endpoint)

/-- How a set-up goes on after the test of `is_open`. -/
inductive Connect where
  /-- The name resolution throws. -/
  | unresolved
  /-- No connect, or not the handshake, succeeds; a socket may be left open. -/
  | failed (halfOpen : Bool)
  | opened
  deriving DecidableEq, Repr

/-- What can happen to a client. `setUrl` and `setTimeout` may come between any two steps of a
call. -/
inductive Event where
  | setUrl (url : List UInt8)
  | setTimeout (ms : ℤ)
  /-- `async_request` or `async_requestStream` is called. -/
  | call (how : Construction)
  /-- The timer of a call that waits in the pool expires. -/
  | expire (c : ℕ)
  /-- The wait of a call in the pool is ended from outside. -/
  | interrupt (c : ℕ)
  /-- A call whose wait in the pool has ended goes on. -/
  | resume (c : ℕ)
  /-- A call tests its connection; `stale` says that the last use is more than five minutes ago. -/
  | test (c : ℕ) (stale : Bool)
  /-- The set-up of the connection of a call goes on. -/
  | connect (c : ℕ) (outcome : Connect) (pushed : Bool)
  /-- A call writes its request. -/
  | send (c : ℕ)
  /-- A call ends. -/
  | finish (c : ℕ) (pushed : Bool)
  deriving DecidableEq

/-! ## The functions -/

/-- The scheme, host and port of a valid URL. -/
def endpointOf (p : Parsed) : Endpoint := ⟨decide (IsHttps p.url), p.host, p.port⟩

/-- The parameters of the pool are set anew. -/
def replacePool (s : State) : AsioPool.State IntParams := AsioPool.setParameter s.pool []

/-- `setUrl`. -/
def setUrl (ssl : Bool) (s : State) (url : List UInt8) : State :=
  let p := parseUrl ssl (s.url.given url)
  if !p.isValidUrl then { s with url := p }
  else
    { s with
      url := p
      target := endpointOf p
      pool := if s.url.host ≠ p.host ∨ s.url.port ≠ p.port then replacePool s else s.pool }

/-- `setTimeout`. -/
def setTimeout (s : State) (ms : ℤ) : State :=
  if s.timeout = HttpClient.limitTimeout ms then s
  else { s with timeout := HttpClient.limitTimeout ms, pool := replacePool s }

/-- Where a call is after a segment of the pool's `get`. -/
def enter : GetResult IntParams → Stage
  | .lent _ => .lent
  | .suspended => .waiting
  | .threw _ => .over

/-- A call, up to the end of its first segment in the pool. It throws before that if the URL is not
valid, if it needs TLS and the build has none, or if there is no pool. -/
def request (ssl : Bool) (s : State) (how : Construction) : State :=
  if s.url.isValidUrl && (ssl || !s.url.isHttps) && s.hasPool then
    { s with
      pool := (AsioPool.get .versioned s.pool how).1
      links := Function.update s.links s.pool.made .new
      stage := Function.update s.stage s.pool.gets (enter (AsioPool.get .versioned s.pool how).2)
      issued := Function.update s.issued s.pool.gets s.target }
  else s

/-- The connection at `ptr` and the call `c` are now like this. -/
def State.put (s : State) (c ptr : ℕ) (link : Link) (stage : Stage) : State :=
  { s with links := Function.update s.links ptr link, stage := Function.update s.stage c stage }

/-- The call `c` ends and drops its connection. -/
def State.ended (s : State) (c ptr : ℕ) (link : Link) (pushed : Bool) : Option State :=
  (AsioPool.release .versioned s.pool c pushed).map fun pool =>
    { s.put c ptr link .over with pool := pool }

/-- The beginning of `_getConnection`: an open connection is taken as it is, otherwise the cached
endpoints are taken or a name resolution is started. -/
def testOpen (s : State) (link : Link) (stale : Bool) : Stage → Option Stage
  | .lent =>
    if link.opened.isSome then some .ready
    else if link.resolved.isNone || stale then some (.connecting (some (s.url.host, s.url.port)))
    else some (.connecting none)
  | _ => none

/-- The rest of `_getConnection`: the connection that it leaves. The socket is one with TLS if
`m_is_https` is set now. -/
def connected (s : State) (link : Link) (resolving : Option (List UInt8 × List UInt8)) :
    Connect → Option Link
  | .unresolved => if resolving.isSome then some link else none
  | .failed halfOpen =>
    (resolving.or link.resolved).map fun (host, port) =>
      ⟨some (host, port), if halfOpen then some ⟨s.url.isHttps, host, port⟩ else none⟩
  | .opened =>
    (resolving.or link.resolved).map fun (host, port) =>
      ⟨some (host, port), some ⟨s.url.isHttps, host, port⟩⟩

/-- A step of the call `c` on its connection. -/
def onLink (s : State) (c : ℕ) (act : Handle IntParams → Option State) : Option State :=
  (s.pool.handles.find? (·.closer = c)).bind act

/-- The step of an event. A call that has a connection tests it, sets it up, writes, and ends; each
of these is a step. -/
def step (ssl : Bool) (s : State) : Event → Option State
  | .setUrl url => some (setUrl ssl s url)
  | .setTimeout ms => some (setTimeout s ms)
  | .call how => some (request ssl s how)
  | .expire c => (AsioPool.expire s.pool c).map fun pool => { s with pool := pool }
  | .interrupt c => (AsioPool.interrupt s.pool c).map fun pool => { s with pool := pool }
  | .resume c =>
    if s.stage c = .waiting then
      (AsioPool.resume .versioned s.pool c).map fun (pool, r) =>
        { s with pool := pool, stage := Function.update s.stage c (enter r) }
    else none
  | .test c stale => onLink s c fun hd =>
    (testOpen s (s.links hd.res.ptr) stale (s.stage c)).map
      (s.put c hd.res.ptr (s.links hd.res.ptr))
  | .connect c outcome pushed => onLink s c fun hd =>
    match s.stage c with
    | .connecting resolving =>
      (connected s (s.links hd.res.ptr) resolving outcome).bind fun link =>
        if outcome = .opened then some (s.put c hd.res.ptr link .ready)
        else s.ended c hd.res.ptr link pushed
    | _ => none
  | .send c => onLink s c fun hd =>
    match s.stage c, (s.links hd.res.ptr).opened with
    | .ready, some opened =>
      some { s.put c hd.res.ptr (s.links hd.res.ptr) .sent with
        sent := s.sent ++ [(s.issued c, opened)] }
    | _, _ => none
  | .finish c pushed => onLink s c fun hd =>
    if s.stage c = .ready ∨ s.stage c = .sent then
      s.ended c hd.res.ptr (s.links hd.res.ptr) pushed
    else none

/-- A client after its constructor, which parses the URL and makes the pool if that is valid. -/
def State.init (ssl : Bool) (url : List UInt8) (timeout : ℤ) (maxConcurrency : ℕ) : State where
  url := (construct ssl url).parsed
  target := if (construct ssl url).parsed.isValidUrl then endpointOf (construct ssl url).parsed
    else ⟨false, [], []⟩
  hasPool := (construct ssl url).pool.isSome
  pool := AsioPool.State.init [] maxConcurrency
  timeout := HttpClient.limitTimeout timeout
  links _ := .new
  stage _ := .unmade
  issued _ := ⟨false, [], []⟩
  sent := []

/-- The runs of a client. -/
def system (ssl : Bool) (url : List UInt8) (timeout : ℤ) (maxConcurrency : ℕ) :
    System State Event where
  init := State.init ssl url timeout maxConcurrency
  step := step ssl

/-! ## The condition -/

/-- New parameters do not get the version of a connection that is still lent. -/
def NewVersion (s : State) : Prop := ∀ hd ∈ s.pool.handles, hd.res.version ≠ s.pool.version + 1

/-- `setUrl` with this URL does what it should do: `m_is_https` is that of a valid URL; if host and
port stay, the scheme stays or no connection of the version is open; and nothing of the target
changes while a call has no connection yet. -/
structure SteadyUrl (ssl : Bool) (s : State) (url : List UInt8) : Prop where
  https : Valid url →
    (parseUrl ssl (s.url.given url)).isHttps = decide (IsHttps url)
  scheme : Valid url → (parseUrl ssl (s.url.given url)).host = s.url.host →
    (parseUrl ssl (s.url.given url)).port = s.url.port →
    s.target.https = decide (IsHttps url) ∨
      (∀ p ∈ s.pool.resourceList, (s.links p.ptr).opened = none) ∧
      ∀ hd ∈ s.pool.handles, hd.res.version = s.pool.version →
        (s.links hd.res.ptr).opened = none
  pending : (∃ c < s.pool.gets, (s.stage c).pending = true) →
    (parseUrl ssl (s.url.given url)).isHttps = s.url.isHttps ∧
    (parseUrl ssl (s.url.given url)).host = s.url.host ∧
    (parseUrl ssl (s.url.given url)).port = s.url.port

/-- The condition on a step. -/
def Steady (ssl : Bool) (s : State) : Event → Prop
  | .setUrl url => SteadyUrl ssl s url ∧ NewVersion s
  | .setTimeout _ => NewVersion s
  | _ => True

instance (s : State) : Decidable (NewVersion s) :=
  inferInstanceAs (Decidable (∀ hd ∈ s.pool.handles, _ ≠ _))

instance (ssl : Bool) (s : State) (url : List UInt8) : Decidable (SteadyUrl ssl s url) :=
  decidable_of_iff (_ ∧ _ ∧ _) ⟨fun h => ⟨h.1, h.2.1, h.2.2⟩, fun h => ⟨h.1, h.2, h.3⟩⟩

instance (ssl : Bool) (s : State) : DecidablePred (Steady ssl s)
  | .setUrl _ => inferInstanceAs (Decidable (_ ∧ _))
  | .setTimeout _ => inferInstanceAs (Decidable (NewVersion s))
  | .call _ | .expire _ | .interrupt _ | .resume _ | .test .. | .connect .. | .send _
  | .finish .. => isTrue trivial

/-! ## What is preserved -/

/-- The connection is for this target, as far as it has a cached resolution or an open socket. -/
structure Link.Fits (T : Endpoint) (l : Link) : Prop where
  resolved : ∀ r ∈ l.resolved, r = (T.host, T.port)
  opened : ∀ o ∈ l.opened, o = T

/-- A new connection is for any target. -/
lemma Link.fits_new (T : Endpoint) : Link.new.Fits T := ⟨nofun, nofun⟩

/-- A connection that is not open is for a target with any scheme. -/
lemma Link.Fits.of_not_opened {T T' : Endpoint} {l : Link} (h : l.Fits T) (hnone : l.opened = none)
    (hhost : T.host = T'.host) (hport : T.port = T'.port) : l.Fits T' := by
  refine ⟨fun r hr => ?_, fun o ho => by rw [hnone] at ho; cases ho⟩
  rw [h.resolved r hr, hhost, hport]

/-- The members agree with the target, the connections that can be used for a new call are for the
target, and that of a call is for the target for which the call was issued. -/
structure Kept (s : State) : Prop where
  alive : s.pool.alive = true
  sound : Sound s.pool
  host : s.url.host = s.target.host
  port : s.url.port = s.target.port
  https : s.url.isValidUrl = true → s.url.isHttps = s.target.https
  idle : ∀ p ∈ s.pool.resourceList, (s.links p.ptr).Fits s.target
  current : ∀ hd ∈ s.pool.handles, hd.res.version = s.pool.version →
    (s.links hd.res.ptr).Fits s.target
  held : ∀ hd ∈ s.pool.handles, (s.links hd.res.ptr).Fits (s.issued hd.closer)
  unmade : ∀ c, s.pool.gets ≤ c → s.stage c = .unmade
  pending : ∀ c, (s.stage c).pending = true →
    s.issued c = s.target ∧ s.url.isHttps = s.target.https
  resolving : ∀ c r, s.stage c = .connecting (some r) →
    r = ((s.issued c).host, (s.issued c).port)
  sent : ∀ x ∈ s.sent, x.1 = x.2

variable {ssl : Bool} {s t : State} {c : ℕ}

namespace Kept

/-- The account of the pool. -/
lemma account (h : Kept s) : Accounting s.pool := h.sound.account h.alive

/-- The pool is still there, and sound, after a step of it that is not its destructor. -/
lemma step_pool (h : Kept s) {d : AsioPool.Event IntParams String ℤ}
    {pool : AsioPool.State IntParams} (hd : d ≠ .destroy)
    (hstep : AsioPool.stepAlive .versioned s.pool d = some pool) :
    pool.alive = true ∧ Sound pool := by
  have hpool : AsioPool.step .versioned s.pool d = some pool := by
    unfold AsioPool.step
    rw [if_pos h.alive, hstep]
  exact ⟨(AsioPool.alive_step hpool h.alive).resolve_right fun h => hd h.1,
    step_sound h.sound hpool⟩

/-- A call that is pending was made. -/
lemma lt_gets (h : Kept s) (hc : (s.stage c).pending = true) : c < s.pool.gets := by
  by_contra hge
  rw [h.unmade c (by omega)] at hc
  cases hc

/-- A pool with new parameters has no idle connections, and no lent one of its version. -/
lemma replacePool (h : Kept s) (hnew : NewVersion s) :
    ((Routing.replacePool s).alive = true ∧ Sound (Routing.replacePool s)) ∧
      (Routing.replacePool s).handles = s.pool.handles ∧
      (Routing.replacePool s).gets = s.pool.gets ∧ (Routing.replacePool s).resourceList = [] ∧
      ∀ hd ∈ s.pool.handles, hd.res.version ≠ (Routing.replacePool s).version := by
  obtain ⟨hhandles, hlist⟩ := replaceParam_places s.pool []
  obtain ⟨hversion, hgets⟩ := replaceParam_version s.pool []
  have hpool : (Routing.replacePool s).alive = true ∧ Sound (Routing.replacePool s) :=
    h.step_pool (d := .setParameter []) (by simp) rfl
  refine ⟨hpool, hhandles, hgets, hlist, fun hd hmem => ?_⟩
  show hd.res.version ≠ (AsioPool.replaceParam s.pool []).version
  rw [hversion]
  exact hnew hd hmem

/-- New parameters, and with them any target: none of the connections is used for it.

**Proof sketch.** The queue is empty afterwards and every handle has an old version, so no
connection from before the change is used for the new target. -/
lemma replaced (h : Kept s) (hnew : NewVersion s) {url : Parsed} {target : Endpoint} (timeout : ℤ)
    (hhost : url.host = target.host) (hport : url.port = target.port)
    (hhttps : url.isValidUrl = true → url.isHttps = target.https)
    (hpending : ∀ c, (s.stage c).pending = true →
      s.issued c = target ∧ url.isHttps = target.https) :
    Kept { s with
      url := url
      target := target
      timeout := timeout
      pool := Routing.replacePool s } := by
  obtain ⟨hpool, hhandles, hgets, hlist, hversion⟩ := h.replacePool hnew
  exact {
    alive := hpool.1
    sound := hpool.2
    host := hhost
    port := hport
    https := hhttps
    idle := fun p hp => by simp [hlist] at hp
    current := fun hd hmem heq => absurd heq (hversion hd (hhandles ▸ hmem))
    held := fun hd hmem => h.held hd (hhandles ▸ hmem)
    unmade := fun c hc => h.unmade c (hgets ▸ hc)
    pending := hpending
    resolving := h.resolving
    sent := h.sent }

/-- New parameters for the same target. -/
lemma setTimeout (h : Kept s) (hnew : NewVersion s) (ms : ℤ) : Kept (Routing.setTimeout s ms) := by
  unfold Routing.setTimeout
  split
  · exact h
  · exact h.replaced hnew _ h.host h.port h.https h.pending

/-- A URL that is not valid: the target stays. -/
lemma setUrl_invalid (h : Kept s) {url : List UInt8} (hurl : ¬ Valid url)
    (hsteady : SteadyUrl ssl s url) : Kept (Routing.setUrl ssl s url) := by
  have hparse := parseUrl_not_valid hurl ssl (s.url.given url) rfl
  have hset : Routing.setUrl ssl s url = { s with url := parseUrl ssl (s.url.given url) } := by
    simp only [Routing.setUrl, hparse]
    rfl
  rw [hset]
  exact { h with
    host := by rw [hparse]; exact h.host
    port := by rw [hparse]; exact h.port
    https := fun hvalid => by rw [hparse] at hvalid; cases hvalid
    pending := fun c hc =>
      ⟨(h.pending c hc).1, (hsteady.pending ⟨c, h.lt_gets hc, hc⟩).1.trans (h.pending c hc).2⟩ }

/-- A valid URL: what was idle, or has the version of the pool, is for the new target, because the
target is the old one, or nothing is open, or the version is new.

**Proof sketch.** Either the target is the same as before, and the connections fit; or the host,
the port or the version changed, and the queue was emptied with it. A change of the protocol alone
leaves the version, so the condition asks that nothing is open then. -/
lemma setUrl_valid (h : Kept s) {url : List UInt8} (hurl : Valid url)
    (hsteady : SteadyUrl ssl s url) (hnew : NewVersion s) : Kept (Routing.setUrl ssl s url) := by
  obtain ⟨basePath, host, port, hparse⟩ := parseUrl_valid hurl
  have hq := hparse ssl (s.url.given url) rfl
  generalize hgen : parseUrl ssl (s.url.given url) = q at hq
  have hhttps : q.isHttps = decide (IsHttps url) := hgen ▸ hsteady.https hurl
  have hscheme := hsteady.scheme hurl
  have hpending := hsteady.pending
  rw [hgen] at hscheme hpending
  have hvalid : q.isValidUrl = true := by rw [hq]
  have hurl' : q.url = url := by rw [hq]
  have htarget : endpointOf q = ⟨q.isHttps, q.host, q.port⟩ := by
    rw [endpointOf, hurl', hhttps]
  -- a call that is pending has seen no change
  have hpend (c : ℕ) (hc : (s.stage c).pending = true) :
      s.issued c = endpointOf q ∧ q.isHttps = (endpointOf q).https := by
    obtain ⟨hsame, hhost, hport⟩ := hpending ⟨c, h.lt_gets hc, hc⟩
    obtain ⟨hissued, hold⟩ := h.pending c hc
    refine ⟨?_, by rw [htarget]⟩
    rw [hissued, htarget, hsame, hhost, hport, h.host, h.port, hold]
  have hset : Routing.setUrl ssl s url =
      { s with
        url := q
        target := endpointOf q
        pool := if s.url.host ≠ q.host ∨ s.url.port ≠ q.port then Routing.replacePool s
          else s.pool } := by
    simp only [Routing.setUrl, hgen, hvalid]
    rfl
  rw [hset]
  by_cases hchanged : s.url.host ≠ q.host ∨ s.url.port ≠ q.port
  · rw [if_pos hchanged]
    exact h.replaced hnew s.timeout rfl rfl (fun _ => by rw [htarget]) hpend
  · rw [if_neg hchanged]
    obtain ⟨hhost, hport⟩ : s.url.host = q.host ∧ s.url.port = q.port := by
      simpa [not_or] using hchanged
    have hfits : (∀ l : Link, l.Fits s.target → l.Fits (endpointOf q)) ∨
        (∀ p ∈ s.pool.resourceList, (s.links p.ptr).opened = none) ∧
          ∀ hd ∈ s.pool.handles, hd.res.version = s.pool.version →
            (s.links hd.res.ptr).opened = none := by
      refine (hscheme hhost.symm hport.symm).imp_left fun hsame l hl => ?_
      have heq : endpointOf q = s.target := by
        rw [htarget, hhttps, ← hsame, ← hhost, ← hport, h.host, h.port]
      rw [heq]
      exact hl
    have hclosed {l : Link} (hl : l.Fits s.target) (hnone : l.opened = none) :
        l.Fits (endpointOf q) :=
      hl.of_not_opened hnone (h.host.symm.trans hhost) (h.port.symm.trans hport)
    exact { h with
      host := rfl
      port := rfl
      https := fun _ => by rw [htarget]
      idle := fun p hp =>
        hfits.elim (fun hf => hf _ (h.idle p hp)) fun hf => hclosed (h.idle p hp) (hf.1 p hp)
      current := fun hd hmem hv =>
        hfits.elim (fun hf => hf _ (h.current hd hmem hv)) fun hf =>
          hclosed (h.current hd hmem hv) (hf.2 hd hmem hv)
      pending := hpend }

/-- A segment of `get` does not set up a connection. -/
lemma enter_ne_connecting (r : GetResult IntParams) (x : Option (List UInt8 × List UInt8)) :
    enter r ≠ .connecting x := by
  cases r <;> simp [enter]

/-- A call is issued: a connection that it is lent at once is idle or new, and so is for the
target.

**Proof sketch.** A connection that is lent at once is taken from the queue, where all fit the
target, or is new and fits everything. -/
lemma request (h : Kept s) (how : Construction) : Kept (Routing.request ssl s how) := by
  unfold Routing.request
  split
  swap
  · exact h
  next hguard =>
  simp only [Bool.and_eq_true] at hguard
  have hhttps := h.https hguard.1.1
  obtain ⟨hidle, hhandles, hlent⟩ := get_lends .versioned s.pool how
  obtain ⟨hversion, hgets⟩ := get_version .versioned s.pool how
  have hpool := h.step_pool (d := .get how) (by simp) rfl
  have hnew {hd : Handle IntParams}
      (hmem : hd ∈ (AsioPool.get .versioned s.pool how).2.handles) :
      (Function.update s.links s.pool.made Link.new hd.res.ptr).Fits s.target := by
    rcases (hlent hd hmem).2 with hres | hres
    · rw [Function.update_of_ne (h.account.ptr_lt_made_of_idle hres).ne]
      exact h.idle _ hres
    · rw [hres, Function.update_self]
      exact Link.fits_new _
  exact {
    alive := hpool.1
    sound := hpool.2
    host := h.host
    port := h.port
    https := h.https
    idle := by
      intro p hp
      simp only [Function.update_of_ne (h.account.ptr_lt_made_of_idle (hidle p hp)).ne]
      exact h.idle p (hidle p hp)
    current := by
      intro hd hmem hv
      rcases List.mem_append.mp (hhandles ▸ hmem) with hmem | hmem
      · exact hnew hmem
      · simp only [Function.update_of_ne (h.account.ptr_lt_made_of_held hmem).ne]
        exact h.current hd hmem (hv.trans hversion)
    held := by
      intro hd hmem
      rcases List.mem_append.mp (hhandles ▸ hmem) with hmem | hmem
      · simp only [(hlent hd hmem).1, Function.update_self]
        exact hnew hmem
      · simp only [Function.update_of_ne (h.account.ptr_lt_made_of_held hmem).ne,
          Function.update_of_ne (h.sound.calls.closer_lt hmem).ne]
        exact h.held hd hmem
    unmade := by
      intro c hc
      simp only [hgets] at hc
      simp only [Function.update_of_ne (show c ≠ s.pool.gets by omega)]
      exact h.unmade c (by omega)
    pending := by
      intro c hc
      by_cases heq : c = s.pool.gets
      · subst heq
        simp only [Function.update_self]
        exact ⟨trivial, hhttps⟩
      · simp only [Function.update_of_ne heq] at hc ⊢
        exact h.pending c hc
    resolving := by
      intro c r hc
      by_cases heq : c = s.pool.gets
      · subst heq
        simp only [Function.update_self] at hc
        exact absurd hc (enter_ne_connecting _ _)
      · simp only [Function.update_of_ne heq] at hc ⊢
        exact h.resolving c r hc
    sent := h.sent }

/-- A call that waits goes on.

**Proof sketch.** As for a call that is issued: what a call that waited is lent is taken from the
queue or is new. -/
lemma resume (h : Kept s) (hwaiting : s.stage c = .waiting) {pool : AsioPool.State IntParams}
    {r : GetResult IntParams} (hr : Resumes .versioned s.pool c pool r)
    (hpool : pool.alive = true ∧ Sound pool) :
    Kept { s with pool := pool, stage := Function.update s.stage c (enter r) } := by
  obtain ⟨hidle, hhandles, hlent⟩ := resumes_lends hr
  obtain ⟨hversion, hgets⟩ := hr.version
  obtain ⟨hissued, hhttps⟩ := h.pending c (by rw [hwaiting]; rfl)
  exact {
    alive := hpool.1
    sound := hpool.2
    host := h.host
    port := h.port
    https := h.https
    idle := fun p hp => h.idle p (hidle p hp)
    current := by
      intro hd hmem hv
      rcases List.mem_append.mp (hhandles ▸ hmem) with hmem | hmem
      · exact h.idle _ (hlent hd hmem).2
      · exact h.current hd hmem (hv.trans hversion)
    held := by
      intro hd hmem
      rcases List.mem_append.mp (hhandles ▸ hmem) with hmem | hmem
      · rw [(hlent hd hmem).1, hissued]
        exact h.idle _ (hlent hd hmem).2
      · exact h.held hd hmem
    unmade := by
      intro d hd
      have hne : d ≠ c := by
        rintro rfl
        have hunmade := h.unmade d (hgets ▸ hd)
        rw [hwaiting] at hunmade
        cases hunmade
      simp only [Function.update_of_ne hne]
      exact h.unmade d (hgets ▸ hd)
    pending := by
      intro d hd
      by_cases heq : d = c
      · subst heq
        exact ⟨hissued, hhttps⟩
      · simp only [Function.update_of_ne heq] at hd
        exact h.pending d hd
    resolving := by
      intro d x hd
      by_cases heq : d = c
      · subst heq
        simp only [Function.update_self] at hd
        exact absurd hd (enter_ne_connecting _ _)
      · simp only [Function.update_of_ne heq] at hd
        exact h.resolving d x hd
    sent := h.sent }

/-- A call changes its connection, which is then still for the target of the call.

**Proof sketch.** No two handles have one connection, so only the handle of this call sees the
change; the queue has none that is lent. -/
lemma put (h : Kept s) {hd : Handle IntParams}
    (hf : s.pool.handles.find? (·.closer = c) = some hd) {link : Link} {stage : Stage}
    (hlink : link.Fits (s.issued c))
    (hcurrent : hd.res.version = s.pool.version → link.Fits s.target)
    (hpending : stage.pending = true →
      s.issued c = s.target ∧ s.url.isHttps = s.target.https)
    (hresolving : ∀ r, stage = .connecting (some r) →
      r = ((s.issued c).host, (s.issued c).port)) :
    Kept (s.put c hd.res.ptr link stage) := by
  have hmem := List.mem_of_find?_eq_some hf
  obtain rfl : hd.closer = c := by simpa using List.find?_some hf
  exact { h with
    idle := by
      intro p hp
      simp only [State.put, Function.update_of_ne (h.account.ptr_ne_of_idle hp hmem)]
      exact h.idle p hp
    current := by
      intro hd' hmem' hv
      by_cases heq : hd'.res.ptr = hd.res.ptr
      · obtain rfl := h.account.eq_of_ptr_eq hmem' hmem heq
        simp only [State.put, Function.update_self]
        exact hcurrent hv
      · simp only [State.put, Function.update_of_ne heq]
        exact h.current hd' hmem' hv
    held := by
      intro hd' hmem'
      by_cases heq : hd'.res.ptr = hd.res.ptr
      · obtain rfl := h.account.eq_of_ptr_eq hmem' hmem heq
        simp only [State.put, Function.update_self]
        exact hlink
      · simp only [State.put, Function.update_of_ne heq]
        exact h.held hd' hmem'
    unmade := by
      intro d hd'
      have hlt := h.sound.calls.closer_lt hmem
      have hne : d ≠ hd.closer := by
        simp only [State.put] at hd'
        omega
      simp only [State.put, Function.update_of_ne hne]
      exact h.unmade d hd'
    pending := by
      intro d hd'
      by_cases heq : d = hd.closer
      · subst heq
        simp only [State.put, Function.update_self] at hd'
        exact hpending hd'
      · simp only [State.put, Function.update_of_ne heq] at hd'
        exact h.pending d hd'
    resolving := by
      intro d r hd'
      by_cases heq : d = hd.closer
      · subst heq
        simp only [State.put, Function.update_self] at hd'
        exact hresolving r hd'
      · simp only [State.put, Function.update_of_ne heq] at hd'
        exact h.resolving d r hd' }

/-- A call drops its connection, which is idle afterwards only if it has the version of the pool.

**Proof sketch.** What is put back has the version of the pool, and such a connection fits the
target even while it is lent. -/
lemma release (h : Kept s) {hd : Handle IntParams} {pushed : Bool}
    {pool : AsioPool.State IntParams}
    (hf : s.pool.handles.find? (·.closer = c) = some hd)
    (hrel : AsioPool.release .versioned s.pool c pushed = some pool) :
    Kept { s with pool := pool } := by
  have hmem := List.mem_of_find?_eq_some hf
  have hpool := h.step_pool (d := .release c pushed) (by simp) hrel
  rw [h.sound.release_eq _ h.alive hf] at hrel
  obtain rfl := Option.some.inj hrel
  obtain ⟨hhandles, hlist⟩ := returnResource_places .versioned (s.pool.drop c) hd.res c pushed
  obtain ⟨hversion, hgets⟩ := returnResource_version .versioned (s.pool.drop c) hd.res c pushed
  exact { h with
    alive := hpool.1
    sound := hpool.2
    idle := by
      intro p hp
      rcases hlist p hp with hold | ⟨rfl, hstale, -⟩
      · exact h.idle p hold
      · refine h.current hd hmem ?_
        simpa [Kind.stale, State.drop] using hstale
    current := by
      intro hd' hmem' hv
      exact h.current hd' (h.sound.calls.mem_drop (hhandles ▸ hmem')).1 (hv.trans hversion)
    held := fun hd' hmem' => h.held hd' (h.sound.calls.mem_drop (hhandles ▸ hmem')).1
    unmade := fun d hd' => h.unmade d (hgets ▸ hd') }

/-- A call ends. -/
lemma ended (h : Kept s) {hd : Handle IntParams}
    (hf : s.pool.handles.find? (·.closer = c) = some hd) {link : Link} {pushed : Bool}
    (hlink : link.Fits (s.issued c))
    (hcurrent : hd.res.version = s.pool.version → link.Fits s.target)
    (hended : s.ended c hd.res.ptr link pushed = some t) : Kept t := by
  obtain ⟨pool, hrel, rfl⟩ := Option.map_eq_some_iff.mp hended
  have hput : Kept (s.put c hd.res.ptr link .over) := h.put hf hlink hcurrent nofun nofun
  exact hput.release hf hrel

end Kept

/-! ## Steps on a connection -/

/-- The connection of a call is for its target. -/
lemma Kept.fits (h : Kept s) {hd : Handle IntParams}
    (hf : s.pool.handles.find? (·.closer = c) = some hd) :
    (s.links hd.res.ptr).Fits (s.issued c) := by
  obtain rfl : hd.closer = c := by simpa using List.find?_some hf
  exact h.held hd (List.mem_of_find?_eq_some hf)

/-- The beginning of `_getConnection`.

**Proof sketch.** If the connection is open, it is the one of the call by the invariant. If not, a
new one is opened for host and port of the client, which are those of the call. -/
lemma test_kept (h : Kept s) {stale : Bool} (hstep : step ssl s (.test c stale) = some t) :
    Kept t := by
  obtain ⟨hd, hf, hact⟩ := Option.bind_eq_some_iff.mp hstep
  obtain ⟨stage, htest, rfl⟩ := Option.map_eq_some_iff.mp hact
  have hcurrent := h.current hd (List.mem_of_find?_eq_some hf)
  unfold testOpen at htest
  split at htest
  swap
  · cases htest
  next hlent =>
  obtain ⟨hissued, hhttps⟩ := h.pending c (by rw [hlent]; rfl)
  split at htest
  · cases htest
    exact h.put hf (h.fits hf) hcurrent nofun nofun
  · split at htest
    · cases htest
      refine h.put hf (h.fits hf) hcurrent (fun _ => ⟨hissued, hhttps⟩) fun r hr => ?_
      cases hr
      rw [hissued, h.host, h.port]
    · cases htest
      exact h.put hf (h.fits hf) hcurrent (fun _ => ⟨hissued, hhttps⟩) nofun

/-- The connection that a set-up leaves is for the target of the call.

**Proof sketch.** One case for each outcome. The host is the one that was resolved, now or earlier,
which is the one of the call, and the protocol is that of the client, which is the one of the call
while it is pending. -/
lemma connected_fits (h : Kept s) {link link' : Link}
    {resolving : Option (List UInt8 × List UInt8)} {outcome : Connect}
    (hstage : s.stage c = .connecting resolving) (hlink : link.Fits (s.issued c))
    (hconnected : connected s link resolving outcome = some link') : link'.Fits (s.issued c) := by
  obtain ⟨hissued, hhttps⟩ := h.pending c (by rw [hstage]; rfl)
  have hresolved {host port : List UInt8} (hr : resolving.or link.resolved = some (host, port)) :
      (host, port) = ((s.issued c).host, (s.issued c).port) := by
    cases resolving with
    | some r =>
      cases hr
      exact h.resolving c _ hstage
    | none => exact hlink.resolved _ hr
  -- a socket that is opened now
  have hopened {host port : List UInt8}
      (hr : (host, port) = ((s.issued c).host, (s.issued c).port)) :
      (⟨s.url.isHttps, host, port⟩ : Endpoint) = s.issued c := by
    obtain ⟨rfl, rfl⟩ := Prod.mk.inj hr
    rw [hhttps, hissued]
  cases outcome with
  | unresolved =>
    simp only [connected] at hconnected
    split at hconnected
    · cases hconnected
      exact hlink
    · cases hconnected
  | failed halfOpen =>
    obtain ⟨⟨host, port⟩, hr, rfl⟩ := Option.map_eq_some_iff.mp hconnected
    refine ⟨fun r hmem => ?_, fun o hmem => ?_⟩
    · cases hmem
      exact hresolved hr
    · cases halfOpen with
      | true =>
        cases hmem
        exact hopened (hresolved hr)
      | false => cases hmem
  | opened =>
    obtain ⟨⟨host, port⟩, hr, rfl⟩ := Option.map_eq_some_iff.mp hconnected
    refine ⟨fun r hmem => ?_, fun o hmem => ?_⟩
    · cases hmem
      exact hresolved hr
    · cases hmem
      exact hopened (hresolved hr)

/-- The rest of `_getConnection`. -/
lemma connect_kept (h : Kept s) {outcome : Connect} {pushed : Bool}
    (hstep : step ssl s (.connect c outcome pushed) = some t) : Kept t := by
  obtain ⟨hd, hf, hact⟩ := Option.bind_eq_some_iff.mp hstep
  cases hstage : s.stage c with
  | connecting resolving =>
    simp only [hstage] at hact
    obtain ⟨link, hconnected, hact⟩ := Option.bind_eq_some_iff.mp hact
    obtain ⟨hissued, hhttps⟩ := h.pending c (by rw [hstage]; rfl)
    have hlink := connected_fits h hstage (h.fits hf) hconnected
    have hcurrent : link.Fits s.target := hissued ▸ hlink
    split at hact
    · cases hact
      exact h.put hf hlink (fun _ => hcurrent) nofun nofun
    · exact h.ended hf hlink (fun _ => hcurrent) hact
  | _ =>
    simp only [hstage] at hact
    cases hact

/-- **The write of a request**: the connection was opened for the target of the call. -/
lemma send_kept (h : Kept s) (hstep : step ssl s (.send c) = some t) : Kept t := by
  obtain ⟨hd, hf, hact⟩ := Option.bind_eq_some_iff.mp hstep
  split at hact
  swap
  · cases hact
  next opened hready hopened =>
  cases hact
  have hput : Kept (s.put c hd.res.ptr (s.links hd.res.ptr) .sent) :=
    h.put hf (h.fits hf) (h.current hd (List.mem_of_find?_eq_some hf)) nofun nofun
  exact { hput with
    sent := by
      intro x hx
      rcases List.mem_append.mp hx with hx | hx
      · exact h.sent x hx
      · rw [List.mem_singleton.mp hx]
        exact ((h.fits hf).opened opened hopened).symm }

/-- The end of a call. -/
lemma finish_kept (h : Kept s) {pushed : Bool} (hstep : step ssl s (.finish c pushed) = some t) :
    Kept t := by
  obtain ⟨hd, hf, hact⟩ := Option.bind_eq_some_iff.mp hstep
  split at hact
  · exact h.ended hf (h.fits hf) (h.current hd (List.mem_of_find?_eq_some hf)) hact
  · cases hact

/-! ## Runs -/

/-- **One step** that meets the condition preserves all this.

**Proof sketch.** One case for each event, by its own lemma. -/
theorem step_kept (h : Kept s) {e : Event} (hsteady : Steady ssl s e)
    (hstep : step ssl s e = some t) : Kept t := by
  cases e with
  | setUrl url =>
    cases hstep
    by_cases hurl : Valid url
    · exact h.setUrl_valid hurl hsteady.1 hsteady.2
    · exact h.setUrl_invalid hurl hsteady.1
  | setTimeout ms =>
    cases hstep
    exact h.setTimeout hsteady ms
  | call how =>
    cases hstep
    exact h.request how
  | expire c =>
    obtain ⟨pool, hexp, rfl⟩ := Option.map_eq_some_iff.mp hstep
    have hpool := h.step_pool (d := .expire c) (by simp) hexp
    obtain ⟨_, hexp⟩ := Option.ite_none_right_eq_some.mp hexp
    obtain rfl := Option.some.inj hexp
    exact { h with alive := hpool.1, sound := hpool.2 }
  | interrupt c =>
    obtain ⟨pool, hint, rfl⟩ := Option.map_eq_some_iff.mp hstep
    have hpool := h.step_pool (d := .interrupt c) (by simp) hint
    obtain ⟨_, hint⟩ := Option.ite_none_right_eq_some.mp hint
    obtain rfl := Option.some.inj hint
    exact { h with alive := hpool.1, sound := hpool.2 }
  | resume c =>
    obtain ⟨hwaiting, hres⟩ := Option.ite_none_right_eq_some.mp hstep
    obtain ⟨⟨pool, r⟩, hpair, rfl⟩ := Option.map_eq_some_iff.mp hres
    have hpool := h.step_pool (d := .resume c) (by simp)
      (Option.map_eq_some_iff.mpr ⟨_, hpair, rfl⟩)
    exact h.resume hwaiting (resumes_of_resume hpair) hpool
  | test c stale => exact test_kept h hstep
  | connect c outcome pushed => exact connect_kept h hstep
  | send c => exact send_kept h hstep
  | finish c pushed => exact finish_kept h hstep

/-- A new client.

**Proof sketch.** The pool is empty and no call is under way, so only the parsed URL has to agree
with the target. -/
lemma init_kept {url : List UInt8} (hurl : Valid url → ssl = true ∨ ¬ IsHttps url) (timeout : ℤ)
    (maxConcurrency : ℕ) : Kept (State.init ssl url timeout maxConcurrency) := by
  have htarget : (construct ssl url).parsed.host =
        (State.init ssl url timeout maxConcurrency).target.host ∧
      (construct ssl url).parsed.port =
        (State.init ssl url timeout maxConcurrency).target.port ∧
      ((construct ssl url).parsed.isValidUrl = true → (construct ssl url).parsed.isHttps =
        (State.init ssl url timeout maxConcurrency).target.https) := by
    have hparsed : (construct ssl url).parsed = parseUrl ssl (Parsed.init.given url) := rfl
    by_cases hvalid : Valid url
    · obtain ⟨basePath, host, port, hparse⟩ := parseUrl_valid hvalid
      simp only [State.init, hparsed, hparse ssl (Parsed.init.given url) rfl, endpointOf, if_true,
        true_and, forall_const]
      rcases hurl hvalid with rfl | hhttp
      · simp [Parsed.init]
      · simp [Parsed.init, hhttp]
    · simp only [State.init, hparsed, parseUrl_not_valid hvalid ssl (Parsed.init.given url) rfl]
      exact ⟨rfl, rfl, fun h => absurd h Bool.false_ne_true⟩
  exact {
    alive := rfl
    sound := init_sound _ _
    host := htarget.1
    port := htarget.2.1
    https := htarget.2.2
    idle := List.forall_mem_nil _
    current := List.forall_mem_nil _
    held := List.forall_mem_nil _
    unmade := fun _ _ => rfl
    pending := fun _ h => absurd h Bool.false_ne_true
    resolving := fun _ _ h => Stage.noConfusion h
    sent := List.forall_mem_nil _ }

/-- **Requests go where they are meant to go** in every run in which each call of `setUrl` meets the
condition.

**Proof sketch.** What is idle, or lent with the version of the pool, is for the target: a new host
or port has a new version, which empties the queue, and the scheme changes with them or when nothing
is open. A call keeps the connection that it was lent for its own target, because nothing changes
before the connection is set up. -/
theorem requests_routed {url : List UInt8} (hurl : Valid url → ssl = true ∨ ¬ IsHttps url)
    {timeout : ℤ} {maxConcurrency : ℕ} {es : List Event}
    (hsteady : (system ssl url timeout maxConcurrency).Along (Steady ssl) es)
    (hrun : (system ssl url timeout maxConcurrency).run es = some s) :
    ∀ x ∈ s.sent, x.1 = x.2 :=
  (System.run_invariant_along (C := Steady ssl) (init_kept hurl timeout maxConcurrency)
    (fun _ _ _ h hsteady hstep => step_kept h hsteady hstep) hsteady hrun).sent

/-- The events of a request over a new connection. -/
def newRequest (c : ℕ) : List Event :=
  [.call .ok, .test c false, .connect c .opened true, .send c, .finish c true]

/-- Two requests, to different hosts. -/
theorem requests_routed_hosts : ∃ s, (system true (bytes "http://a") 1000 1).run
    (newRequest 0 ++ .setUrl (bytes "http://b:8080") :: newRequest 1) = some s ∧
    ∀ x ∈ s.sent, x.1 = x.2 := by
  have hrun : (system true (bytes "http://a") 1000 1).run
      (newRequest 0 ++ .setUrl (bytes "http://b:8080") :: newRequest 1) = some _ := rfl
  exact ⟨_, hrun, requests_routed (fun _ => Or.inl rfl) (by decide +kernel) hrun⟩

/-- The scheme changes, and host and port stay: the request goes over the plain connection. -/
theorem plain_reused : ∃ s, (system true (bytes "http://h:8080") 1000 1).run
    (newRequest 0 ++ [.setUrl (bytes "https://h:8080"), .call .ok, .test 1 false, .send 1]) =
      some s ∧
    s.sent = [(⟨false, bytes "h", bytes "8080"⟩, ⟨false, bytes "h", bytes "8080"⟩),
      (⟨true, bytes "h", bytes "8080"⟩, ⟨false, bytes "h", bytes "8080"⟩)] :=
  ⟨_, rfl, by decide +kernel⟩

end HkuUtils.Routing
