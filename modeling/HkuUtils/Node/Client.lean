import HkuUtils.Node.Message
import HkuUtils.Threads

set_option relaxedAutoImplicit false
set_option autoImplicit false

/-!
# The client of a node server

`NodeClient`, whose functions any number of threads call. `dial` and `post` run under one lock;
`close` does not take it, and is also called by `dial`.

## Main definitions

* `HkuUtils.Node.Client.Shared` — the members of a client, and its sockets.
* `HkuUtils.Node.Client.Stage`, `Action` — where a thread is in its call, and how the functions of
  the library end.
* `HkuUtils.Node.Client.act`, `Acts` — the actions, and their inversion.
* `HkuUtils.Node.Client.system` — the interleavings.

## Design

The sockets of the library are part of the memory. A request that is sent on a socket takes the
place of the one before, together with a reply to that one; a receive gives the reply to the request
on the socket, if there is one. A socket is closed once, and to close it again is an error that the
client does not look at. Which function fails, and when, is a choice outside of the client, but none
works on a closed socket. What only the log shows is left out.
-/

namespace HkuUtils.Node.Client

open Transition

/-- A socket for requests. -/
structure Socket where
  isOpen : Bool
  /-- The address that it was connected to. -/
  peer : Option String
  /-- The last request, by its number. -/
  outstanding : Option ℕ
  /-- The reply to it, if it has come. -/
  reply : Option (List UInt8)
  deriving DecidableEq, Repr

/-- A call of `post` that returned true. -/
structure Result where
  /-- The argument. -/
  req : Json
  /-- The number of the request that the call sent. -/
  sent : ℕ
  /-- The value that was assigned to `res`. -/
  res : Json

/-- The members of a client, and what its calls have done. The sockets are kept with their numbers,
so that one that is replaced is not forgotten. -/
structure Shared where
  /-- `m_mutex`. -/
  mutex : Bool
  /-- `m_server_addr`. -/
  serverAddr : String
  /-- `m_connected`. -/
  connected : Bool
  /-- `m_socket`. -/
  socket : ℕ
  /-- `m_last_ack_time`. -/
  lastAckTime : ℤ
  /-- All sockets that were opened. -/
  sockets : List Socket
  /-- The bodies of the requests that were sent. -/
  sent : List (List UInt8)
  /-- The replies that came, with the number of their request. -/
  replies : List (ℕ × List UInt8)
  /-- How many messages the client was given: by `nng_msg_alloc`, or with a reply. -/
  taken : ℕ
  /-- How many messages the client freed. -/
  freed : ℕ
  /-- The calls of `post` that returned true. -/
  results : List Result

namespace Shared

/-- `nng_close` of a socket. -/
def nngClose (m : Shared) (q : ℕ) : Shared :=
  { m with sockets := m.sockets.modify q fun s => { s with isOpen := false } }

/-- A new socket is assigned to `m_socket`. -/
def nngOpen (m : Shared) : Shared :=
  { m with socket := m.sockets.length, sockets := m.sockets ++ [⟨true, none, none, none⟩] }

/-- `m_socket` is connected to the server. -/
def nngDial (m : Shared) : Shared :=
  { m with sockets := m.sockets.modify m.socket fun s => { s with peer := some m.serverAddr } }

/-- A request is sent. -/
def nngSend (m : Shared) (body : List UInt8) : Shared :=
  { m with
    sent := m.sent ++ [body]
    sockets := m.sockets.modify m.socket fun s =>
      { s with outstanding := some m.sent.length, reply := none } }

/-- A reply is taken from `m_socket`. -/
def nngRecv (m : Shared) : Shared :=
  { m with
    taken := m.taken + 1
    sockets := m.sockets.modify m.socket fun s => { s with outstanding := none, reply := none } }

/-- The current socket, unless it is closed. -/
def openSocket (m : Shared) : Option Socket := m.sockets[m.socket]?.filter Socket.isOpen

end Shared

/-- Where a thread is in its call. Between two stages any other thread may act, with or without the
lock. -/
inductive Stage where
  /-- Between two calls. -/
  | idle
  /-- In `dial`, before the lock. -/
  | dialLock
  /-- In `dial`, before `close` looks at `m_connected`. -/
  | dialCheck
  /-- In `close` of `dial`, before `nng_close`. -/
  | dialClose
  /-- In `close` of `dial`, before `m_connected = false`. -/
  | dialClear
  /-- Before `nng_req0_open`. -/
  | dialOpen
  /-- Before `m_connected = true`. -/
  | dialMark
  /-- Before the options are set and the server is dialed. -/
  | dialConnect
  /-- Behind the exceptions, before `m_connected = false`. -/
  | dialUnmark
  /-- Before the last `nng_close`. -/
  | dialDrop
  | dialUnlock (result : Bool)
  /-- In `close`, before `nng_close`. -/
  | close
  /-- In `close`, before `m_connected = false`; the socket that was closed. -/
  | clear (q : ℕ)
  /-- In `post`, before the lock. -/
  | postLock (req : Json)
  /-- Before `_send` looks at `m_connected`. -/
  | postCheck (req : Json)
  /-- Before `nng_msg_alloc`. -/
  | postAlloc (req : Json)
  /-- Before `encodeMsg`. -/
  | postEncode (req : Json)
  /-- Before `nng_sendmsg`. -/
  | postSend (req : Json) (msg : Message)
  /-- Before `nng_msg_free` of a message that was not sent. -/
  | postFree
  /-- Before `nng_recvmsg`. -/
  | postRecv (req : Json) (sent : ℕ)
  /-- Before `decodeMsg`. -/
  | postDecode (req : Json) (sent : ℕ) (body : List UInt8)
  /-- Before `nng_msg_free` of the response. -/
  | postDrop (result : Option Result)
  | postUnlock (result : Option Result)

/-- The choices that are not made by the client: which call comes next, and what the functions of
the library return. -/
inductive Action where
  | dial
  | close
  | post (req : Json)
  /-- The call goes on. -/
  | next
  /-- A function of the library has succeeded or failed. -/
  | ends (success : Bool)
  /-- `nng_recvmsg` has succeeded; the time then. -/
  | received (now : ℤ)

variable (L : Library)

/-- An action of a thread. `close` takes no lock, while `dial` and `post` hold it from their
beginning to their end. -/
def act (m : Shared) (l : Stage) (a : Action) : Option (Shared × Stage) :=
  match l, a with
  | .idle, .dial => some (m, .dialLock)
  | .dialLock, .next => if m.mutex then none else some ({ m with mutex := true }, .dialCheck)
  | .dialCheck, .next => some (m, if m.connected then .dialClose else .dialOpen)
  | .dialClose, .next => some (m.nngClose m.socket, .dialClear)
  | .dialClear, .next => some ({ m with connected := false }, .dialOpen)
  | .dialOpen, .ends true => some (m.nngOpen, .dialMark)
  | .dialOpen, .ends false => some (m, .dialUnlock false)
  | .dialMark, .next => some ({ m with connected := true }, .dialConnect)
  | .dialConnect, .ends true => m.openSocket.map fun _ => (m.nngDial, .dialUnlock true)
  | .dialConnect, .ends false => some (m, .dialUnmark)
  | .dialUnmark, .next => some ({ m with connected := false }, .dialDrop)
  | .dialDrop, .next => some (m.nngClose m.socket, .dialUnlock false)
  | .dialUnlock _, .next => some ({ m with mutex := false }, .idle)
  | .idle, .close => some (m, if m.connected then .close else .idle)
  | .close, .next => some (m.nngClose m.socket, .clear m.socket)
  | .clear _, .next => some ({ m with connected := false }, .idle)
  | .idle, .post req => some (m, .postLock req)
  | .postLock req, .next =>
    if m.mutex then none else some ({ m with mutex := true }, .postCheck req)
  | .postCheck req, .next => some (m, if m.connected then .postAlloc req else .postUnlock none)
  | .postAlloc req, .ends true => some ({ m with taken := m.taken + 1 }, .postEncode req)
  | .postAlloc _, .ends false => some (m, .postUnlock none)
  | .postEncode req, .ends true =>
    match encodeMsg L req (some ⟨[], none⟩) with
    | .ok msg => some (m, .postSend req msg)
    | .error _ => none
  | .postEncode _, .ends false => some (m, .postFree)
  | .postSend req msg, .ends true =>
    m.openSocket.map fun _ => (m.nngSend msg.body, .postRecv req m.sent.length)
  | .postSend _ _, .ends false => some (m, .postFree)
  | .postFree, .next => some ({ m with freed := m.freed + 1 }, .postUnlock none)
  | .postRecv req sent, .received now =>
    (m.openSocket.bind Socket.reply).map fun body =>
      ({ m.nngRecv with lastAckTime := now }, .postDecode req sent body)
  | .postRecv _ _, .ends false => some (m, .postUnlock none)
  | .postDecode req sent body, .next =>
    match decodeMsg L (some ⟨body, none⟩) with
    | .ok res => some (m, .postDrop (some ⟨req, sent, res⟩))
    | .error _ => some (m, .postDrop none)
  | .postDrop result, .next => some ({ m with freed := m.freed + 1 }, .postUnlock result)
  | .postUnlock result, .next =>
    some ({ m with mutex := false, results := result.toList ++ m.results }, .idle)
  | _, _ => none

/-- **The ways in which a thread takes an action**: one constructor for each branch of `act`, with
its guard. -/
inductive Acts (m : Shared) : Stage → Action → Shared → Stage → Prop where
  | dial : Acts m .idle .dial m .dialLock
  | dialLock (hm : m.mutex = false) : Acts m .dialLock .next { m with mutex := true } .dialCheck
  | dialConnected (hm : m.connected = true) : Acts m .dialCheck .next m .dialClose
  | dialNotConnected (hm : m.connected = false) : Acts m .dialCheck .next m .dialOpen
  | dialClose : Acts m .dialClose .next (m.nngClose m.socket) .dialClear
  | dialClear : Acts m .dialClear .next { m with connected := false } .dialOpen
  | dialOpen : Acts m .dialOpen (.ends true) m.nngOpen .dialMark
  | dialNotOpened : Acts m .dialOpen (.ends false) m (.dialUnlock false)
  | dialMark : Acts m .dialMark .next { m with connected := true } .dialConnect
  | dialConnect {s : Socket} (hs : m.openSocket = some s) :
    Acts m .dialConnect (.ends true) m.nngDial (.dialUnlock true)
  | dialFail : Acts m .dialConnect (.ends false) m .dialUnmark
  | dialUnmark : Acts m .dialUnmark .next { m with connected := false } .dialDrop
  | dialDrop : Acts m .dialDrop .next (m.nngClose m.socket) (.dialUnlock false)
  | dialUnlock (result : Bool) : Acts m (.dialUnlock result) .next { m with mutex := false } .idle
  | closeConnected (hm : m.connected = true) : Acts m .idle .close m .close
  | closeNotConnected (hm : m.connected = false) : Acts m .idle .close m .idle
  | close : Acts m .close .next (m.nngClose m.socket) (.clear m.socket)
  | clear (q : ℕ) : Acts m (.clear q) .next { m with connected := false } .idle
  | post (req : Json) : Acts m .idle (.post req) m (.postLock req)
  | postLock (hm : m.mutex = false) (req : Json) :
    Acts m (.postLock req) .next { m with mutex := true } (.postCheck req)
  | postConnected (hm : m.connected = true) (req : Json) :
    Acts m (.postCheck req) .next m (.postAlloc req)
  | postNotConnected (hm : m.connected = false) (req : Json) :
    Acts m (.postCheck req) .next m (.postUnlock none)
  | postAlloc (req : Json) :
    Acts m (.postAlloc req) (.ends true) { m with taken := m.taken + 1 } (.postEncode req)
  | postNotAllocated (req : Json) : Acts m (.postAlloc req) (.ends false) m (.postUnlock none)
  | postEncode (req : Json) :
    Acts m (.postEncode req) (.ends true) m (.postSend req ⟨L.toMsgpack req, none⟩)
  | postNotEncoded (req : Json) : Acts m (.postEncode req) (.ends false) m .postFree
  | postSend {s : Socket} (hs : m.openSocket = some s) (req : Json) (msg : Message) :
    Acts m (.postSend req msg) (.ends true) (m.nngSend msg.body) (.postRecv req m.sent.length)
  | postNotSent (req : Json) (msg : Message) : Acts m (.postSend req msg) (.ends false) m .postFree
  | postFree : Acts m .postFree .next { m with freed := m.freed + 1 } (.postUnlock none)
  | postRecv {body : List UInt8} (hbody : m.openSocket.bind Socket.reply = some body) (now : ℤ)
    (req : Json) (sent : ℕ) :
    Acts m (.postRecv req sent) (.received now) { m.nngRecv with lastAckTime := now }
      (.postDecode req sent body)
  | postNotReceived (req : Json) (sent : ℕ) :
    Acts m (.postRecv req sent) (.ends false) m (.postUnlock none)
  | postDecode {body : List UInt8} {res : Json} (hres : L.fromMsgpack body = .ok res) (req : Json)
    (sent : ℕ) : Acts m (.postDecode req sent body) .next m (.postDrop (some ⟨req, sent, res⟩))
  | postNotDecoded {body : List UInt8} {what : String} (hwhat : L.fromMsgpack body = .error what)
    (req : Json) (sent : ℕ) : Acts m (.postDecode req sent body) .next m (.postDrop none)
  | postDrop (result : Option Result) :
    Acts m (.postDrop result) .next { m with freed := m.freed + 1 } (.postUnlock result)
  | postUnlock (result : Option Result) :
    Acts m (.postUnlock result) .next
      { m with mutex := false, results := result.toList ++ m.results } .idle

variable {L} in
/-- **Inversion of an action.**

**Proof sketch.** One case for each stage. In a few of them the step is partial or has two
outcomes, and these are split first. -/
theorem acts_of_act {m m' : Shared} {l l' : Stage} {a : Action}
    (h : act L m l a = some (m', l')) : Acts L m l a m' l' := by
  unfold act at h
  split at h
  case h_9 | h_24 | h_27 =>
    obtain ⟨x, hx, h⟩ := Option.map_eq_some_iff.1 h
    obtain ⟨rfl, rfl⟩ := Prod.mk.inj h
    first
    | exact .dialConnect hx
    | exact .postSend hx _ _
    | exact .postRecv hx _ _ _
  case h_22 =>
    obtain ⟨rfl, rfl⟩ := Prod.mk.inj (Option.some.inj h)
    exact .postEncode _
  case h_29 req sent body =>
    rw [decodeMsg] at h
    cases hbody : L.fromMsgpack body with
    | ok res =>
      rw [hbody] at h
      obtain ⟨rfl, rfl⟩ := Prod.mk.inj (Option.some.inj h)
      exact .postDecode hbody _ _
    | error what =>
      rw [hbody] at h
      obtain ⟨rfl, rfl⟩ := Prod.mk.inj (Option.some.inj h)
      exact .postNotDecoded hbody _ _
  all_goals try split at h
  all_goals simp only [Option.some.injEq, Prod.mk.injEq, reduceCtorEq] at h
  all_goals obtain ⟨rfl, rfl⟩ := h
  · exact .dial
  · exact .dialLock (Bool.eq_false_of_not_eq_true ‹_›)
  · exact .dialConnected ‹_›
  · exact .dialNotConnected (Bool.eq_false_of_not_eq_true ‹_›)
  · exact .dialClose
  · exact .dialClear
  · exact .dialOpen
  · exact .dialNotOpened
  · exact .dialMark
  · exact .dialFail
  · exact .dialUnmark
  · exact .dialDrop
  · exact .dialUnlock _
  · exact .closeConnected ‹_›
  · exact .closeNotConnected (Bool.eq_false_of_not_eq_true ‹_›)
  · exact .close
  · exact .clear _
  · exact .post _
  · exact .postLock (Bool.eq_false_of_not_eq_true ‹_›) _
  · exact .postConnected ‹_› _
  · exact .postNotConnected (Bool.eq_false_of_not_eq_true ‹_›) _
  · exact .postAlloc _
  · exact .postNotAllocated _
  · exact .postNotEncoded _
  · exact .postNotSent _ _
  · exact .postFree
  · exact .postNotReceived _ _
  · exact .postDrop _
  · exact .postUnlock _

/-- What happens outside of the calls. -/
inductive Change where
  /-- The reply to the request on a socket comes. -/
  | reply (q : ℕ) (body : List UInt8)
  | setServerAddr (serverAddr : String)
  deriving DecidableEq, Repr

/-- The step of a change. -/
def change (m : Shared) : Change → Option Shared
  | .reply q body =>
    m.sockets[q]?.bind fun s =>
      match s.isOpen, s.outstanding, s.reply with
      | true, some sent, none =>
        some { m with
          replies := (sent, body) :: m.replies
          sockets := m.sockets.modify q fun s => { s with reply := some body } }
      | _, _, _ => none
  | .setServerAddr serverAddr => some { m with serverAddr := serverAddr }

/-- A thread that calls the functions of a client any number of times. -/
def program : Threads.Program Shared Stage Action Change where
  start := .idle
  act := act L
  env := change

/-- A client after its constructor. -/
def Shared.init (serverAddr : String) : Shared where
  mutex := false
  serverAddr := serverAddr
  connected := false
  socket := 0
  lastAckTime := 0
  sockets := []
  sent := []
  replies := []
  taken := 0
  freed := 0
  results := []

/-- The interleavings of any number of threads. -/
def system (serverAddr : String) :
    System (Threads.State Shared Stage) (Threads.Event Action Change) :=
  (program L).system (.init serverAddr)

end HkuUtils.Node.Client
