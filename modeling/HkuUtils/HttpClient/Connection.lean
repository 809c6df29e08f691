import HkuUtils.AsioPool.Model

set_option relaxedAutoImplicit false
set_option autoImplicit false

/-!
# One request on one connection

The part of `AsioHttpClient.cpp` that a call of `async_request` or `async_requestStream` goes
through with a connection of its own: the set-up in `_getConnection`, the write of the request,
and the reads of the response. What the network does is an outcome that each step is given.

## Main definitions

* `HkuUtils.HttpClient.HttpConnection` — the pooled connection with its socket.
* `HkuUtils.HttpClient.setUp` — the rest of `_getConnection` after the pool has lent a connection.
* `HkuUtils.HttpClient.Phase`, `act` — the steps of a call up to its end.

## Main results

* `HkuUtils.HttpClient.setsUp_setUp` — the socket that a set-up leaves on each of its exits.
* `HkuUtils.HttpClient.acts_of_act` — what a step of a call can do.

## Design

A request is known by the number of its call. A socket has the queue of the requests whose
responses are still to be read from it, and remembers how its last connect and handshake ended and
whether the server has announced that it closes. None of this is known to the client: `is_open`
says only that there is a socket. A socket is open from `async_connect` on until `close` or
`reset`; `cancel` and failed operations leave it open.

The set-up is one step, at the moment of its end: nobody else sees the connection before that.
Only the build with TLS is modelled.
-/

namespace HkuUtils.HttpClient

/-- The target of a client: `m_is_https`, `m_host` and `m_port`. -/
structure Target where
  https : Bool
  host : String
  port : String
  deriving DecidableEq, Repr

/-- An open socket, with or without TLS. Of the server it is known which responses it still owes
and whether it closes the connection. -/
structure Sock where
  /-- The last `async_connect` on it has succeeded. -/
  connected : Bool
  /-- `async_handshake` on it has succeeded. -/
  handshaken : Bool
  /-- A response read from it has announced that the server closes the connection. -/
  closing : Bool
  /-- The requests that have reached the server and whose responses are still to be read. -/
  unread : List ℕ
  deriving DecidableEq, Repr

/-- `HttpConnection`. The members of `AsyncResourceWithVersion` are in the pool's `Resource`. -/
structure HttpConnection where
  /-- The cached results of the name resolution. -/
  endpoints : List ℕ
  /-- `last_used_time`, in milliseconds. -/
  lastUsedTime : ℕ
  socket : Option Sock
  sslSocket : Option Sock
  deriving DecidableEq, Repr

namespace HttpConnection

/-- The constructor. -/
def new (now : ℕ) : HttpConnection := ⟨[], now, none, none⟩

/-- `close`. -/
def close (conn : HttpConnection) : HttpConnection :=
  { conn with socket := none, sslSocket := none }

/-- The socket that `is_open`, the writes and the reads use. -/
def sock (conn : HttpConnection) : Option Sock := conn.sslSocket <|> conn.socket

/-- `is_open`. -/
def isOpen (conn : HttpConnection) : Bool := conn.sock.isSome

/-- The socket for one kind of target is replaced. -/
def putSock (https : Bool) (conn : HttpConnection) (s : Option Sock) : HttpConnection :=
  if https then { conn with sslSocket := s } else { conn with socket := s }

/-- The socket in use changes. -/
def modify (conn : HttpConnection) (f : Sock → Sock) : HttpConnection :=
  match conn.sslSocket with
  | some s => { conn with sslSocket := some (f s) }
  | none => { conn with socket := conn.socket.map f }

/-- The requests whose responses are still to be read. -/
def unread (conn : HttpConnection) : List ℕ := conn.sock.elim [] (·.unread)

/-- A change of the socket in use. -/
@[simp]
lemma sock_modify (conn : HttpConnection) (f : Sock → Sock) :
    (conn.modify f).sock = conn.sock.map f := by
  unfold modify sock
  cases conn.sslSocket <;> simp

end HttpConnection

/-! ## The set-up -/

/-- The exceptions of a request, in the order in which a call may come to them. -/
inductive HttpError where
  /-- `m_connection_pool->get()` has thrown. -/
  | pool (e : AsioPool.GetError)
  | resolveTimeout
  | resolveFailed (what : String)
  | noEndpoints
  | connectTimeout (host port : String)
  /-- A `boost::system::system_error` of `set_option`. -/
  | setOption (what : String)
  | handshakeTimeout
  | handshakeFailed (what : String)
  /-- The request could not be built. -/
  | build (what : String)
  | writeTimeout
  | writeFailed (what : String)
  | readTimeout
  | readFailed (what : String)
  | readHeaderFailed (what : String)
  | readBodyFailed (what : String)
  /-- The body of the response could not be decompressed. -/
  | decompress (what : String)
  /-- The chunk callback has thrown. -/
  | callback (what : String)
  deriving DecidableEq, Repr

/-- The text of an exception. -/
def HttpError.message : HttpError → String
  | .pool e => e.message .versioned
  | .resolveTimeout => "DNS resolve timeout"
  | .resolveFailed what => "DNS resolve failed: " ++ what
  | .noEndpoints => "No valid endpoints from DNS resolve"
  | .connectTimeout host port => "Connect timeout to " ++ host ++ ":" ++ port
  | .handshakeTimeout => "SSL handshake timeout"
  | .handshakeFailed what => "SSL handshake failed: " ++ what
  | .writeTimeout => "HTTP write timeout"
  | .writeFailed what => "HTTP write failed: " ++ what
  | .readTimeout => "HTTP read timeout"
  | .readFailed what => "HTTP read failed: " ++ what
  | .readHeaderFailed what => "HTTP read header failed: " ++ what
  | .readBodyFailed what => "HTTP read body failed: " ++ what
  | .setOption what | .build what | .decompress what | .callback what => what

/-- How `async_resolve` ends. -/
inductive ResolveOutcome where
  | endpoints (eps : List ℕ)
  | timeout
  | failed (what : String)
  deriving DecidableEq, Repr

/-- How `async_connect` ends: `aborted` is the cancellation by the timer. -/
inductive ConnectOutcome where
  | success
  | failed
  | aborted
  deriving DecidableEq, Repr

/-- How `async_handshake` ends. -/
inductive HandshakeOutcome where
  | success
  | failed (what : String)
  | aborted
  deriving DecidableEq, Repr

/-- What the network does during a set-up, as far as the set-up gets: the time, the resolution of
the name, the connects, and the handshake. -/
structure SetUp where
  /-- `std::chrono::steady_clock::now()`, in milliseconds. -/
  now : ℕ
  resolve : ResolveOutcome
  /-- The outcomes of the connects, in the order of the endpoints. -/
  connects : List ConnectOutcome
  /-- The exception of `set_option`, if there is one. -/
  setOption : Option String
  handshake : HandshakeOutcome
  deriving DecidableEq, Repr

/-- `_resolveDNS`. -/
def resolveDNS : ResolveOutcome → Except HttpError (List ℕ)
  | .endpoints [] => .error .noEndpoints
  | .endpoints eps => .ok eps
  | .timeout => .error .resolveTimeout
  | .failed what => .error (.resolveFailed what)

/-- The endpoints that a set-up tries: the cached ones, or those of a new resolution when there are
none or the connection was last used more than five minutes ago. -/
def chooseEndpoints (conn : HttpConnection) (env : SetUp) : Except HttpError (List ℕ) :=
  if conn.endpoints.isEmpty ∨ 5 < (env.now - conn.lastUsedTime) / 60000 then
    resolveDNS env.resolve
  else .ok conn.endpoints

/-- How the loop over the endpoints ends: with a connect that succeeds, with one that the timer
aborts, or after the last endpoint. -/
def connectEnd : List ℕ → List ConnectOutcome → ConnectOutcome
  | [], _ => .failed
  | _ :: rest, outcomes =>
    match outcomes.headD .failed with
    | .success => .success
    | .aborted => .aborted
    | .failed => connectEnd rest outcomes.tail

/-- The socket that the loop over the endpoints leaves. -/
def ConnectOutcome.sock : ConnectOutcome → Option Sock
  | .success => some ⟨true, false, false, []⟩
  | .failed => none
  | .aborted => some ⟨false, false, false, []⟩

/-- The loop over the endpoints: each connect has a new socket, which a failed connect removes
again. -/
def connectLoop (https : Bool) :
    List ℕ → List ConnectOutcome → HttpConnection → HttpConnection × Bool
  | [], _, conn => (conn, false)
  | _ :: rest, outcomes, conn =>
    match outcomes.headD .failed with
    | .success => (conn.putSock https (some ⟨true, false, false, []⟩), true)
    | .aborted => (conn.putSock https (some ⟨false, false, false, []⟩), false)
    | .failed => connectLoop https rest outcomes.tail (conn.putSock https none)

/-- `_getConnection` from the test of `is_open` on: the connection afterwards, and the exception
if there is one. -/
def setUp (target : Target) (conn : HttpConnection) (env : SetUp) :
    HttpConnection × Option HttpError :=
  if conn.isOpen then ({ conn with lastUsedTime := env.now }, none)
  else
    match chooseEndpoints conn env with
    | .error e => (conn, some e)
    | .ok endpoints =>
      match connectLoop target.https endpoints env.connects
          { conn with endpoints := endpoints }.close with
      | (conn, false) => (conn, some (.connectTimeout target.host target.port))
      | (conn, true) =>
        match env.setOption with
        | some what => (conn, some (.setOption what))
        | none =>
          if target.https then
            match env.handshake with
            | .aborted => (conn, some .handshakeTimeout)
            | .failed what => (conn, some (.handshakeFailed what))
            | .success =>
              let conn := conn.modify fun s => { s with handshaken := true }
              ({ conn with lastUsedTime := env.now }, none)
          else ({ conn with lastUsedTime := env.now }, none)

/-- The loop leaves the socket of the connect that it ends with.

**Proof sketch.** By induction on the endpoints. A failed connect puts its socket away before the
next one is tried. -/
lemma connectLoop_spec (https : Bool) (eps : List ℕ) (outcomes : List ConnectOutcome)
    (conn : HttpConnection) (hssl : conn.sslSocket = none) (hsocket : conn.socket = none) :
    (connectLoop https eps outcomes conn).1.sock = (connectEnd eps outcomes).sock ∧
      ((connectLoop https eps outcomes conn).2 = true ↔ connectEnd eps outcomes = .success) := by
  induction eps generalizing outcomes conn with
  | nil => simp [connectLoop, connectEnd, ConnectOutcome.sock, HttpConnection.sock, hssl, hsocket]
  | cons ep rest ih =>
    unfold connectLoop connectEnd
    cases outcomes.headD .failed with
    | success =>
      cases https <;>
        simp [ConnectOutcome.sock, HttpConnection.sock, HttpConnection.putSock, hssl]
    | aborted =>
      cases https <;>
        simp [ConnectOutcome.sock, HttpConnection.sock, HttpConnection.putSock, hssl]
    | failed =>
      refine ih outcomes.tail _ ?_ ?_ <;>
        cases https <;> simp [HttpConnection.putSock, hssl, hsocket]

/-- **The ways in which a set-up ends**, with the connection that it leaves and the exception, if
there is one. -/
inductive SetsUp (target : Target) (conn : HttpConnection) (env : SetUp) :
    HttpConnection → Option HttpError → Prop where
  /-- The connection is open and taken as it is. -/
  | reused {conn' : HttpConnection} (hopen : conn.isOpen = true) (hsock : conn'.sock = conn.sock) :
    SetsUp target conn env conn' none
  | unresolved (e : HttpError) (hopen : conn.isOpen = false) : SetsUp target conn env conn (some e)
  /-- No connect has succeeded. -/
  | unconnected {conn' : HttpConnection} {eps : List ℕ} (e : HttpError)
    (hopen : conn.isOpen = false) (heps : chooseEndpoints conn env = .ok eps)
    (hend : connectEnd eps env.connects ≠ .success)
    (hsock : conn'.sock = (connectEnd eps env.connects).sock) :
    SetsUp target conn env conn' (some e)
  /-- A connect has succeeded, and `set_option` throws or the handshake fails. -/
  | unfinished {conn' : HttpConnection} {eps : List ℕ} (e : HttpError)
    (hopen : conn.isOpen = false) (heps : chooseEndpoints conn env = .ok eps)
    (hend : connectEnd eps env.connects = .success)
    (hfail : target.https = true → env.setOption = none → env.handshake ≠ .success)
    (hsock : conn'.sock = some ⟨true, false, false, []⟩) : SetsUp target conn env conn' (some e)
  | established {conn' : HttpConnection} (hopen : conn.isOpen = false)
    (hsock : conn'.sock = some ⟨true, target.https, false, []⟩) :
    SetsUp target conn env conn' none

/-- **Inversion of a set-up**: the socket it leaves on each of its exits.

**Proof sketch.** One case for each exit of the function, in the order of the source; the loop over
the endpoints is `connectLoop_spec`. -/
theorem setsUp_setUp (target : Target) (conn : HttpConnection) (env : SetUp) :
    SetsUp target conn env (setUp target conn env).1 (setUp target conn env).2 := by
  unfold setUp
  split
  · next hopen => exact .reused hopen rfl
  next hopen =>
  rw [Bool.not_eq_true] at hopen
  split
  · next e _ => exact .unresolved e hopen
  next eps heps =>
  obtain ⟨hsock, hend⟩ := connectLoop_spec target.https eps env.connects
    (HttpConnection.close { conn with endpoints := eps }) rfl rfl
  split
  · next conn' hloop =>
    rw [hloop] at hsock hend
    exact .unconnected _ hopen heps (by simpa using hend) hsock
  next conn' hloop =>
  rw [hloop] at hsock hend
  have hsuccess : connectEnd eps env.connects = .success := by simpa using hend
  rw [hsuccess] at hsock
  split
  · next what hoption =>
    exact .unfinished _ hopen heps hsuccess (by simp [hoption]) hsock
  split
  · next hhttps =>
    split
    · next hhand => exact .unfinished _ hopen heps hsuccess (by simp [hhand]) hsock
    · next what hhand => exact .unfinished _ hopen heps hsuccess (by simp [hhand]) hsock
    · refine .established hopen ?_
      show (conn'.modify _).sock = _
      rw [HttpConnection.sock_modify, hsock, hhttps]
      rfl
  · next hhttps =>
    refine .established hopen ?_
    rw [Bool.not_eq_true] at hhttps
    rw [hhttps]
    exact hsock

/-! ## The exchange -/

/-- How `http::async_write` ends; the request may have reached the server in any case. -/
inductive WriteOutcome where
  /-- Building the request throws before anything is written. -/
  | unbuilt (what : String)
  | ok (reached : Bool)
  | timeout (reached : Bool)
  | failed (what : String) (reached : Bool)
  deriving DecidableEq, Repr

/-- How `http::async_read` of a whole response ends. -/
inductive ReadOutcome where
  /-- The response is complete; it may announce that the server closes the connection. -/
  | complete (closes : Bool)
  /-- The response is complete and its body cannot be decompressed. -/
  | undecodable (closes : Bool) (what : String)
  | timeout
  | failed (what : String)
  deriving DecidableEq, Repr

/-- How `http::async_read_header` ends. -/
inductive HeaderOutcome where
  /-- The header is there, and the whole response if there is no body. -/
  | header (closes done : Bool)
  /-- The server has closed the connection; what it has not answered it never will. -/
  | endOfStream
  | failed (what : String)
  deriving DecidableEq, Repr

/-- How `http::async_read` of a piece of the body ends. -/
inductive ChunkOutcome where
  /-- A piece is there, the last one or not; the callback may throw. -/
  | chunk (last : Bool) (throws : Option String)
  | endOfStream
  | failed (what : String)
  deriving DecidableEq, Repr

/-- The outcome of a step of a call. -/
inductive Outcome where
  | setUp (env : SetUp)
  | write (w : WriteOutcome)
  | read (r : ReadOutcome)
  | readHeader (r : HeaderOutcome)
  | readChunk (r : ChunkOutcome)
  deriving DecidableEq, Repr

/-- Where a call of `async_request` or `async_requestStream` is. A phase ends with the operation
that the coroutine waits for. -/
inductive Phase where
  /-- The call has not been made. -/
  | unmade
  /-- In `m_connection_pool->get()`. -/
  | waiting (stream : Bool)
  /-- In `_getConnection`, with a connection. -/
  | connecting (stream : Bool)
  /-- Before the end of the write. -/
  | writing (stream : Bool)
  /-- Before the end of the read of a whole response. -/
  | reading
  /-- Before the end of the read of a header. -/
  | readingHeader
  /-- In the loop over the body of the response to the request `tag`, if there is a response. -/
  | readingBody (tag : Option ℕ)
  /-- The response to the request `tag` has been returned. -/
  | returned (tag : ℕ)
  | threw (e : HttpError)
  deriving DecidableEq, Repr

/-- The call has ended. -/
def Phase.over : Phase → Bool
  | .returned _ | .threw _ => true
  | _ => false

/-- The request `c` is written to the socket. -/
def Sock.request (c : ℕ) (reached : Bool) (s : Sock) : Sock :=
  if reached then { s with unread := s.unread ++ [c] } else s

/-- The response at the front has been read completely. -/
def Sock.finish (s : Sock) : Sock := { s with unread := s.unread.tail }

/-- The response at the front announces that the server closes the connection, or not. -/
def Sock.announce (closes : Bool) (s : Sock) : Sock := { s with closing := s.closing || closes }

/-- The server has closed the connection. -/
def Sock.hangUp (s : Sock) : Sock := { s with unread := [] }

namespace HttpConnection

variable (conn : HttpConnection) (c : ℕ)

/-- A request that does not reach the server changes nothing. -/
@[simp]
lemma unread_request_false : (conn.modify (Sock.request c false)).unread = conn.unread := by
  unfold unread
  rw [sock_modify]
  cases conn.sock <;> rfl

/-- A request goes behind those that are there. -/
lemma unread_request (reached : Bool) :
    (conn.modify (Sock.request c reached)).unread = conn.unread ∨
      (conn.modify (Sock.request c reached)).unread = conn.unread ++ [c] := by
  cases reached with
  | false => exact Or.inl (unread_request_false conn c)
  | true =>
    unfold unread
    rw [sock_modify]
    cases conn.sock with
    | none => exact Or.inl rfl
    | some s => exact Or.inr rfl

/-- The response at the front is taken off. -/
@[simp]
lemma unread_finish : (conn.modify Sock.finish).unread = conn.unread.tail := by
  unfold unread
  rw [sock_modify]
  cases conn.sock <;> rfl

/-- Its announcement does not change that. -/
@[simp]
lemma unread_announce_finish (closes : Bool) :
    (conn.modify fun s => (s.announce closes).finish).unread = conn.unread.tail := by
  unfold unread
  rw [sock_modify]
  cases conn.sock <;> rfl

/-- A header is not the response. -/
@[simp]
lemma unread_announce (closes : Bool) :
    (conn.modify (Sock.announce closes)).unread = conn.unread := by
  unfold unread
  rw [sock_modify]
  cases conn.sock <;> rfl

/-- After the server has closed there is nothing to read. -/
@[simp]
lemma unread_hangUp : (conn.modify Sock.hangUp).unread = [] := by
  unfold unread
  rw [sock_modify]
  cases conn.sock <;> rfl

end HttpConnection

/-- The end of the write of the request `c`. The write of `async_requestStream` has no timer. -/
def write (c : ℕ) (stream : Bool) (conn : HttpConnection) :
    WriteOutcome → Option (HttpConnection × Phase)
  | .unbuilt what => some (conn, .threw (.build what))
  | .ok reached =>
    some (conn.modify (Sock.request c reached), if stream then .readingHeader else .reading)
  | .timeout reached =>
    if stream then none else some (conn.modify (Sock.request c reached), .threw .writeTimeout)
  | .failed what reached =>
    some (conn.modify (Sock.request c reached), .threw (.writeFailed what))

/-- The end of the read of a whole response. -/
def read (conn : HttpConnection) : ReadOutcome → Option (HttpConnection × Phase)
  | .complete closes =>
    conn.unread.head?.map fun tag =>
      (conn.modify fun s => (s.announce closes).finish, .returned tag)
  | .undecodable closes what =>
    conn.unread.head?.map fun _ =>
      (conn.modify fun s => (s.announce closes).finish, .threw (.decompress what))
  | .timeout => some (conn, .threw .readTimeout)
  | .failed what => some (conn, .threw (.readFailed what))

/-- The end of the read of a header; `end_of_stream` is not taken for an error. -/
def readHeader (conn : HttpConnection) : HeaderOutcome → Option (HttpConnection × Phase)
  | .header closes done =>
    conn.unread.head?.map fun tag =>
      if done then (conn.modify fun s => (s.announce closes).finish, .returned tag)
      else (conn.modify (Sock.announce closes), .readingBody (some tag))
  | .endOfStream => some (conn.modify Sock.hangUp, .readingBody none)
  | .failed what => some (conn, .threw (.readHeaderFailed what))

/-- One turn of the loop over the body: a chunk, which goes to the callback, the end of the stream,
which the loop tolerates, or an error. -/
def readChunk (tag : Option ℕ) (conn : HttpConnection) :
    ChunkOutcome → Option (HttpConnection × Phase)
  | .chunk last throws =>
    tag.map fun tag =>
      (if last then conn.modify Sock.finish else conn,
        match throws with
        | some what => .threw (.callback what)
        | none => if last then .returned tag else .readingBody (some tag))
  | .endOfStream => some (conn, .readingBody tag)
  | .failed what => some (conn, .threw (.readBodyFailed what))

/-- A step of the call `c` on its connection. An outcome that does not belong to the phase is no
step. -/
def act (target : Target) (c : ℕ) (conn : HttpConnection) :
    Phase → Outcome → Option (HttpConnection × Phase)
  | .connecting stream, .setUp env =>
    match setUp target conn env with
    | (conn, none) => some (conn, .writing stream)
    | (conn, some e) => some (conn, .threw e)
  | .writing stream, .write w => write c stream conn w
  | .reading, .read r => read conn r
  | .readingHeader, .readHeader r => readHeader conn r
  | .readingBody tag, .readChunk r => readChunk tag conn r
  | _, _ => none

/-! ## Inversion of a step -/

/-- **The ways in which the call `c` takes a step** on its connection: one constructor for each
outcome of each phase. -/
inductive Acts (target : Target) (c : ℕ) (conn : HttpConnection) :
    Phase → Outcome → HttpConnection → Phase → Prop where
  | setUp {stream : Bool} {env : SetUp} {conn' : HttpConnection}
    (h : SetsUp target conn env conn' none) :
    Acts target c conn (.connecting stream) (.setUp env) conn' (.writing stream)
  | setUpThrows {stream : Bool} {env : SetUp} {conn' : HttpConnection} {e : HttpError}
    (h : SetsUp target conn env conn' (some e)) :
    Acts target c conn (.connecting stream) (.setUp env) conn' (.threw e)
  | unbuilt {stream : Bool} (what : String) :
    Acts target c conn (.writing stream) (.write (.unbuilt what)) conn (.threw (.build what))
  | written {stream : Bool} (reached : Bool) :
    Acts target c conn (.writing stream) (.write (.ok reached))
      (conn.modify (Sock.request c reached)) (if stream then .readingHeader else .reading)
  | writeTimeout (reached : Bool) :
    Acts target c conn (.writing false) (.write (.timeout reached))
      (conn.modify (Sock.request c reached)) (.threw .writeTimeout)
  | writeFailed {stream : Bool} (what : String) (reached : Bool) :
    Acts target c conn (.writing stream) (.write (.failed what reached))
      (conn.modify (Sock.request c reached)) (.threw (.writeFailed what))
  | complete {closes : Bool} {tag : ℕ} (htag : conn.unread.head? = some tag) :
    Acts target c conn .reading (.read (.complete closes))
      (conn.modify fun s => (s.announce closes).finish) (.returned tag)
  | undecodable {closes : Bool} {tag : ℕ} (what : String) (htag : conn.unread.head? = some tag) :
    Acts target c conn .reading (.read (.undecodable closes what))
      (conn.modify fun s => (s.announce closes).finish) (.threw (.decompress what))
  | readTimeout : Acts target c conn .reading (.read .timeout) conn (.threw .readTimeout)
  | readFailed (what : String) :
    Acts target c conn .reading (.read (.failed what)) conn (.threw (.readFailed what))
  /-- The header of a response that has a body. -/
  | header {closes : Bool} {tag : ℕ} (htag : conn.unread.head? = some tag) :
    Acts target c conn .readingHeader (.readHeader (.header closes false))
      (conn.modify (Sock.announce closes)) (.readingBody (some tag))
  /-- The header of a response that has none. -/
  | headerOnly {closes : Bool} {tag : ℕ} (htag : conn.unread.head? = some tag) :
    Acts target c conn .readingHeader (.readHeader (.header closes true))
      (conn.modify fun s => (s.announce closes).finish) (.returned tag)
  | noHeader :
    Acts target c conn .readingHeader (.readHeader .endOfStream) (conn.modify Sock.hangUp)
      (.readingBody none)
  | headerFailed (what : String) :
    Acts target c conn .readingHeader (.readHeader (.failed what)) conn
      (.threw (.readHeaderFailed what))
  | chunk (tag : ℕ) :
    Acts target c conn (.readingBody (some tag)) (.readChunk (.chunk false none)) conn
      (.readingBody (some tag))
  | lastChunk (tag : ℕ) :
    Acts target c conn (.readingBody (some tag)) (.readChunk (.chunk true none))
      (conn.modify Sock.finish) (.returned tag)
  | callback (tag : ℕ) (last : Bool) (what : String) :
    Acts target c conn (.readingBody (some tag)) (.readChunk (.chunk last (some what)))
      (if last then conn.modify Sock.finish else conn) (.threw (.callback what))
  | noChunk (tag : Option ℕ) :
    Acts target c conn (.readingBody tag) (.readChunk .endOfStream) conn (.readingBody tag)
  | bodyFailed (tag : Option ℕ) (what : String) :
    Acts target c conn (.readingBody tag) (.readChunk (.failed what)) conn
      (.threw (.readBodyFailed what))

section Inversion

variable {target : Target} {c : ℕ} {conn conn' : HttpConnection} {phase phase' : Phase}

/-- A write in one of its ways. -/
lemma acts_of_write {stream : Bool} {w : WriteOutcome}
    (h : write c stream conn w = some (conn', phase')) :
    Acts target c conn (.writing stream) (.write w) conn' phase' := by
  cases w with
  | unbuilt what =>
    cases h
    exact .unbuilt what
  | ok reached =>
    cases h
    exact .written reached
  | timeout reached =>
    cases stream with
    | true => simp [write] at h
    | false =>
      cases h
      exact .writeTimeout reached
  | failed what reached =>
    cases h
    exact .writeFailed what reached

/-- The read of a whole response in one of its ways. -/
lemma acts_of_read {r : ReadOutcome} (h : read conn r = some (conn', phase')) :
    Acts target c conn .reading (.read r) conn' phase' := by
  cases r with
  | complete closes =>
    obtain ⟨tag, htag, h⟩ := Option.map_eq_some_iff.mp h
    cases h
    exact .complete htag
  | undecodable closes what =>
    obtain ⟨tag, htag, h⟩ := Option.map_eq_some_iff.mp h
    cases h
    exact .undecodable what htag
  | timeout =>
    cases h
    exact .readTimeout
  | failed what =>
    cases h
    exact .readFailed what

/-- The read of a header in one of its ways. -/
lemma acts_of_readHeader {r : HeaderOutcome} (h : readHeader conn r = some (conn', phase')) :
    Acts target c conn .readingHeader (.readHeader r) conn' phase' := by
  cases r with
  | header closes done =>
    obtain ⟨tag, htag, h⟩ := Option.map_eq_some_iff.mp h
    cases done <;> cases h
    · exact .header htag
    · exact .headerOnly htag
  | endOfStream =>
    cases h
    exact .noHeader
  | failed what =>
    cases h
    exact .headerFailed what

/-- A turn of the loop over the body in one of its ways.

**Proof sketch.** One case for each outcome of the read, and in it whether the callback throws and
whether the chunk is the last. -/
lemma acts_of_readChunk {tag : Option ℕ} {r : ChunkOutcome}
    (h : readChunk tag conn r = some (conn', phase')) :
    Acts target c conn (.readingBody tag) (.readChunk r) conn' phase' := by
  cases r with
  | chunk last throws =>
    cases tag with
    | none => simp [readChunk] at h
    | some tag =>
      cases throws with
      | some what =>
        cases h
        exact .callback tag last what
      | none =>
        cases last <;> cases h
        · exact .chunk tag
        · exact .lastChunk tag
  | endOfStream =>
    cases h
    exact .noChunk tag
  | failed what =>
    cases h
    exact .bodyFailed tag what

/-- **Inversion of a step** of a call on its connection.

**Proof sketch.** One case for each phase, by its own lemma. -/
theorem acts_of_act {outcome : Outcome}
    (h : act target c conn phase outcome = some (conn', phase')) :
    Acts target c conn phase outcome conn' phase' := by
  unfold act at h
  split at h
  · next stream env =>
    have hset := setsUp_setUp target conn env
    split at h
    · next heq =>
      rw [heq] at hset
      cases h
      exact .setUp hset
    · next heq =>
      rw [heq] at hset
      cases h
      exact .setUpThrows hset
  · exact acts_of_write h
  · exact acts_of_read h
  · exact acts_of_readHeader h
  · exact acts_of_readChunk h
  · simp at h

end Inversion

end HkuUtils.HttpClient
