import Mathlib.Algebra.Group.Nat.Defs
import HkuUtils.Node.Message
import HkuUtils.Transition

set_option relaxedAutoImplicit false
set_option autoImplicit false

/-!
# The node server

The contexts of a server, each of which receives a request, lets a handler answer it, sends the
reply and receives again; and what becomes of the exceptions of a handler.

## Main definitions

* `HkuUtils.Node.Work`, `Completion` — a context, and what an operation of it comes back with.
* `HkuUtils.Node.processRequest`, `serverCallback` — the callback.
* `HkuUtils.Node.Server`, `Event`, `step` — the contexts of a server and the events.
* `HkuUtils.Node.Handled.Good` — what the callback should do when a receive comes back.
* `HkuUtils.Node.Answerable` — what it does so for.

## Main results

* `HkuUtils.Node.answers_iff` — when a request is answered.
* `HkuUtils.Node.answers_every_request` — in which runs every request is.

## Design

The `catch` arms run in the frame that the exception has left, so that a value that a handler has
returned is still in `res`. An exception that leaves the callback ends the process. The handlers are
part of what a receive comes back with: they may do anything at any call.
-/

namespace HkuUtils.Node

open Fallible

/-! ## The callback -/

/-- A handler, in one call. -/
abbrev Handle : Type := Json → Except Exn Json

/-- `Work::state`. -/
inductive WorkState where
  | init
  | recv
  | send
  | finish
  deriving DecidableEq, Repr

/-- The operation that is pending on `Work::aio`. -/
inductive Aio where
  | idle
  | receiving
  | sending
  deriving DecidableEq, Repr

/-- `Work`. -/
structure Work where
  state : WorkState
  aio : Aio
  /-- `server` is not null. -/
  server : Bool
  deriving DecidableEq, Repr

/-- What an operation comes back with, and the handlers that are there. -/
structure Completion where
  /-- `nng_aio_result`. -/
  rv : ℕ
  /-- `nng_aio_get_msg`. -/
  msg : Option Message
  /-- `m_handles`. -/
  handles : String → Option Handle

/-- The variables of `_processRequest`, the context, and what was sent. -/
structure Frame where
  work : Work
  msg : Option Message
  res : Json
  sent : List (Option Message)

/-- The text of a command: older versions send a number. -/
def cmdOf (L : Library) : Json → Except Exn String
  | .integer n => .ok (toString (Int.bmod n (2 ^ 32)))
  | .double bits => .ok (toString (L.toInt bits))
  | j => j.getString

/-- The request, with the address of the peer, and its handler. Each way in which there is none is
an exception of its own. -/
def request (L : Library) (c : Completion) : Except Exn (Handle × Json) := do
  let req ← decodeMsg L c.msg
  match req.get? "cmd" with
  | none => .error (.node missingCmd "Missing command!")
  | some value =>
    let cmd ← cmdOf L value
    match c.handles cmd with
    | none =>
      .error (.node invalidCmd ("The server does not know how to process the message: " ++ cmd))
    | some handle =>
      let (host, port) := (c.msg.bind Message.peer).getD ("", 0)
      let req ← req.set "remote_host" (.string host)
      let req ← req.set "remote_port" (.integer port)
      .ok (handle, req)

/-- A value, or an exception. -/
def orThrow {α : Type} (r : Except Exn α) : Fallible Frame Exn α := fun f => (r, f)

/-- `res[key] = value`. -/
def setRes (key : String) (value : Json) : Fallible Frame Exn Unit := do
  let f ← get
  let res ← orThrow (f.res.set key value)
  modify fun f => { f with res := res }

/-- `encodeMsg(msg, res)`. -/
def encode (L : Library) : Fallible Frame Exn Unit := do
  let f ← get
  let msg ← orThrow (encodeMsg L f.res f.msg)
  modify fun f => { f with msg := some msg }

/-- The message is sent. -/
def reply : Fallible Frame Exn Unit :=
  modify fun f =>
    { f with
      work := { f.work with state := .send, aio := .sending }
      sent := f.sent ++ [f.msg] }

/-- A reply that reports an error. -/
def errorReply (L : Library) (errcode : ℤ) (what : String) : Fallible Frame Exn Unit := do
  setRes "ret" (.integer errcode)
  setRes "msg" (.string what)
  encode L
  reply

/-- `HKU_CHECK(rv == 0, "Failed nng_aio_result!")`. -/
def checkResult (c : Completion) : Except Exn Unit :=
  if c.rv = 0 then .ok () else .error (.std "HKU_CHECK(rv == 0) Failed nng_aio_result!")

/-- The `try` block. -/
def tryBlock (L : Library) (c : Completion) : Fallible Frame Exn Unit := do
  orThrow (checkResult c)
  modify fun f => { f with msg := c.msg }
  let call ← orThrow (request L c)
  let res ← orThrow (call.1 call.2)
  modify fun f => { f with res := res }
  setRes "ret" (.integer success)
  encode L
  reply

/-- The `catch` arms. -/
def catchBlock (L : Library) : Exn → Fallible Frame Exn Unit
  | .nng _ => modify fun f => { f with work := { f.work with state := .finish } }
  | .node errcode what => errorReply L errcode what
  | .std what => errorReply L unknownError what
  | .unknown => do
    setRes "ret" (.integer unknownError)
    setRes "msg" (.string "Unknown error!")
    -- The message still holds the request.
    reply

/-- The frame that `_processRequest` starts with. -/
def Frame.start (w : Work) : Frame := ⟨w, none, .null, []⟩

/-- `_processRequest`. -/
def processRequest (L : Library) (c : Completion) (w : Work) : Except Exn Unit × Frame :=
  if w.server then tryCatch (tryBlock L c) (catchBlock L) (Frame.start w)
  else (.ok (), Frame.start w)

/-- `_serverCallback`. -/
def serverCallback (L : Library) (c : Completion) (w : Work) : Except Exn Unit × Frame :=
  match w.state with
  | .init => (.ok (), Frame.start { w with state := .recv, aio := .receiving })
  | .recv => processRequest L c w
  | .send =>
    if c.rv ≠ 0 then (.ok (), Frame.start { w with state := .finish })
    else (.ok (), Frame.start { w with state := .recv, aio := .receiving })
  | .finish => (.ok (), Frame.start w)

/-! ## The server -/

/-- What the callback did when a receive came back: whether it answered, and whether it has started
the next operation. -/
structure Handled where
  /-- A request was received. -/
  received : Bool
  /-- An exception left the callback. -/
  escaped : Bool
  /-- What was sent. -/
  sent : List (Option Message)
  /-- A send or a receive is pending. -/
  rearmed : Bool
  /-- The server is being stopped. -/
  stopping : Bool

/-- **What the callback should do when a receive comes back**: no exception leaves it, a request
gets one reply, with a field `ret`, and the context is used again unless the server is being
stopped. -/
structure Handled.Good (L : Library) (h : Handled) : Prop where
  contained : h.escaped = false
  answered : h.received = true → ∃ m, h.sent = [some m] ∧ m.Has L "ret"
  rearmed : h.stopping = true ∨ h.rearmed = true

/-- A context, and the receives of it that have come back. -/
structure Context where
  work : Work
  handled : List Handled

/-- A server. -/
structure Server where
  contexts : List Context
  /-- An exception has left a callback. -/
  terminated : Bool

/-- The contexts after `start` has opened them. -/
def Server.opened (maxParrel : ℕ) : Server :=
  ⟨List.replicate maxParrel ⟨⟨.init, .idle, true⟩, []⟩, false⟩

/-- The events. -/
inductive Event where
  /-- `start` calls the callback of a context, or an operation of it comes back. -/
  | callback (i : ℕ) (c : Completion)
  /-- `stop` takes the server from a context. -/
  | disown (i : ℕ)
  /-- `stop` marks a context, and cancels its operation. -/
  | finish (i : ℕ)

/-- The callback of a context may be called: by `start`, or because an operation comes back. A
receive without an error comes back with a message. -/
def Work.Calls (w : Work) (c : Completion) : Prop :=
  match w.aio with
  | .idle => w.state = .init
  | .receiving => c.rv = 0 → c.msg.isSome = true
  | .sending => True

instance (w : Work) (c : Completion) : Decidable (w.Calls c) :=
  match w with
  | ⟨_, .idle, _⟩ => inferInstanceAs (Decidable (_ = _))
  | ⟨_, .receiving, _⟩ => inferInstanceAs (Decidable (_ → _))
  | ⟨_, .sending, _⟩ => isTrue trivial

/-- A call of the callback of a context that had the operation `aio` pending. -/
def Context.called (L : Library) (c : Completion) (x : Context) : Context × Bool :=
  let (r, f) := serverCallback L c { x.work with aio := .idle }
  let escaped := !r.isOk
  let h : Handled :=
    ⟨c.rv = 0, escaped, f.sent, f.work.aio ≠ .idle, !x.work.server⟩
  (⟨f.work, if x.work.aio = .receiving then x.handled ++ [h] else x.handled⟩, escaped)

/-- The events of a server. An exception that leaves the callback terminates the program, and there
are no steps then. -/
def step (L : Library) (s : Server) (e : Event) : Option Server :=
  if s.terminated then none
  else
    match e with
    | .callback i c =>
      match s.contexts[i]? with
      | none => none
      | some x =>
        if x.work.Calls c then
          let (x', escaped) := x.called L c
          some ⟨s.contexts.set i x', escaped⟩
        else none
    | .disown i =>
      match s.contexts[i]? with
      | none => none
      | some x => some { s with
          contexts := s.contexts.set i { x with work := { x.work with server := false } } }
    | .finish i =>
      match s.contexts[i]? with
      | none => none
      | some x =>
        if x.work.server then none
        else some { s with
          contexts := s.contexts.set i { x with work := { x.work with state := .finish } } }

/-- The runs of a server. -/
def system (L : Library) (maxParrel : ℕ) : Transition.System Server Event :=
  ⟨Server.opened maxParrel, step L⟩

/-- Every receive that has come back was handled well. -/
def Server.Good (L : Library) (s : Server) : Prop :=
  ∀ x ∈ s.contexts, ∀ h ∈ x.handled, h.Good L

/-- The request is one that the server answers, whatever becomes of it before its handler is called:
the handler returns an object or null, or throws what is reported; if it throws something else,
the request has a field `ret` itself, for it is sent back. -/
def Answered (L : Library) (c : Completion) : Prop :=
  ∀ handle req, request L c = .ok (handle, req) →
    match handle req with
    | .ok res => res.isNullOrObject = true
    | .error (.nng _) => False
    | .error .unknown => ∃ m, c.msg = some m ∧ m.Has L "ret"
    | .error _ => True

/-- A receive comes back with a request that the server answers, or, while the server is being
stopped, with an error. -/
def Answerable (L : Library) (s : Server) (e : Event) : Prop :=
  ∀ i c x, e = .callback i c → s.contexts[i]? = some x → x.work.aio = .receiving →
    if x.work.server then c.rv = 0 ∧ Answered L c else c.rv ≠ 0

/-! ## Parts of the callback -/

variable {L : Library} {c : Completion} {f : Frame}

/-- A value. -/
lemma orThrow_ok {α : Type} {r : Except Exn α} {a : α} (h : r = .ok a) (f : Frame) :
    orThrow r f = (.ok a, f) := by
  rw [h]
  rfl

/-- An exception. -/
lemma orThrow_error {α : Type} {r : Except Exn α} {e : Exn} (h : r = .error e) (f : Frame) :
    orThrow r f = (.error e, f) := by
  rw [h]
  rfl

/-- A field that can be set. -/
lemma setRes_ok {key : String} {value j : Json} (h : f.res.set key value = .ok j) :
    setRes key value f = (.ok (), { f with res := j }) := by
  rw [setRes, bind_ok (get_apply f), bind_ok (orThrow_ok h f), modify_apply]

/-- A field that cannot be set. -/
lemma setRes_error {key : String} {value : Json} {e : Exn} (h : f.res.set key value = .error e) :
    setRes key value f = (.error e, f) := by
  rw [setRes, bind_ok (get_apply f), bind_error (orThrow_error h f)]

/-- A message that can be written. -/
lemma encode_ok {m : Message} (h : f.msg = some m) :
    encode L f = (.ok (), { f with msg := some { m with body := L.toMsgpack f.res } }) := by
  have henc : encodeMsg L f.res f.msg = .ok { m with body := L.toMsgpack f.res } := by
    rw [h]
    rfl
  rw [encode, bind_ok (get_apply f), bind_ok (orThrow_ok henc f), modify_apply]

/-- No message. -/
lemma encode_error (h : f.msg = none) : encode L f = (.error nullMessage, f) := by
  have henc : encodeMsg L f.res f.msg = .error nullMessage := by
    rw [h]
    rfl
  rw [encode, bind_ok (get_apply f), bind_error (orThrow_error henc f)]

/-- One reply has been sent, and it has a field `ret`. -/
def Frame.Answers (L : Library) (f : Frame) : Prop :=
  f.work.aio ≠ .idle ∧ ∃ m, f.sent = [some m] ∧ m.Has L "ret"

/-- The reply is written and sent. -/
lemma encode_reply (hL : L.Keeps "ret") {m : Message} (hmsg : f.msg = some m)
    (hsent : f.sent = []) (hret : f.res.contains "ret" = true) :
    ∃ g, (encode L >>= fun _ => reply) f = (.ok (), g) ∧ g.Answers L := by
  rw [bind_ok (encode_ok hmsg), reply, modify_apply]
  refine ⟨_, rfl, by simp, { m with body := L.toMsgpack f.res }, by simp [hsent], ?_⟩
  exact hL f.res hret

/-- An error is reported, if a message is there and `res` is what a field can be set on. -/
lemma errorReply_ok (hL : L.Keeps "ret") {m : Message} (hmsg : f.msg = some m)
    (hsent : f.sent = []) (hres : f.res.isNullOrObject = true) (errcode : ℤ) (what : String) :
    ∃ g, errorReply L errcode what f = (.ok (), g) ∧ g.Answers L := by
  obtain ⟨j, hj⟩ := (Json.set_eq_ok_iff "ret" (.integer errcode) f.res).mpr hres
  obtain ⟨k, hk⟩ := (Json.set_eq_ok_iff "msg" (.string what) j).mpr (Json.isNullOrObject_of_set hj)
  have hret : k.contains "ret" = true := by
    rw [Json.contains_of_set hk, Json.contains_of_set hj]
    simp
  rw [errorReply, bind_ok (setRes_ok hj), bind_ok (setRes_ok hk)]
  exact encode_reply hL hmsg hsent hret

/-- An error cannot be reported without a message, or if `res` is what no field can be set on. -/
lemma errorReply_error (h : f.msg = none ∨ f.res.isNullOrObject = false) (errcode : ℤ)
    (what : String) : ∃ e g, errorReply L errcode what f = (.error e, g) := by
  rw [errorReply]
  cases hj : f.res.set "ret" (.integer errcode) with
  | error e => exact ⟨e, f, bind_error (setRes_error hj) _⟩
  | ok j =>
    have hres : f.res.isNullOrObject = true := (Json.set_eq_ok_iff _ _ _).mp ⟨j, hj⟩
    have hmsg : f.msg = none := h.resolve_right (by simp [hres])
    obtain ⟨k, hk⟩ := (Json.set_eq_ok_iff "msg" (.string what) j).mpr
      (Json.isNullOrObject_of_set hj)
    have hencode := encode_error (L := L) (f := { f with res := k }) hmsg
    refine ⟨nullMessage, { f with res := k }, ?_⟩
    rw [bind_ok (setRes_ok hj), bind_ok (setRes_ok hk)]
    exact bind_error hencode _

/-- The message is sent as it is. -/
lemma catchBlock_unknown (hres : f.res.isNullOrObject = true) :
    ∃ g, catchBlock L .unknown f = (.ok (), g) ∧ g.work.aio = .sending ∧
      g.sent = f.sent ++ [f.msg] := by
  obtain ⟨j, hj⟩ := (Json.set_eq_ok_iff "ret" (.integer unknownError) f.res).mpr hres
  obtain ⟨k, hk⟩ := (Json.set_eq_ok_iff "msg" (.string "Unknown error!") j).mpr
    (Json.isNullOrObject_of_set hj)
  rw [catchBlock, bind_ok (setRes_ok hj), bind_ok (setRes_ok hk), reply, modify_apply]
  exact ⟨_, rfl, rfl, rfl⟩

/-- What is reported to the peer. -/
def Exn.isReported : Exn → Bool
  | .node _ _ | .std _ => true
  | .nng _ | .unknown => false

/-- What a computation throws is reported to the peer. -/
def Reports {α : Type} (r : Except Exn α) : Prop := ∀ e, r = .error e → e.isReported = true

/-- A value. -/
lemma Reports.ok {α : Type} (a : α) : Reports (.ok a) := fun _ h => by cases h

/-- An exception that is reported. -/
lemma Reports.error {α : Type} {e : Exn} (h : e.isReported = true) :
    Reports (.error e : Except Exn α) := fun _ h' => by cases h'; exact h

/-- One computation after the other. -/
lemma Reports.bind {α β : Type} {r : Except Exn α} {k : α → Except Exn β} (hr : Reports r)
    (hk : ∀ a, Reports (k a)) : Reports (r >>= k) := by
  cases r with
  | error e => exact Reports.error (hr e rfl)
  | ok a => exact hk a

/-- Setting a field. -/
lemma Reports.set (j : Json) (key : String) (value : Json) : Reports (j.set key value) := by
  cases j with
  | null | object _ => exact Reports.ok _
  | _ => exact Reports.error rfl

/-- What is thrown before the handler is called is reported. It comes from `decodeMsg` or from one
of the checks, which throw a `NodeError` or an exception of the JSON library. -/
lemma Reports.request (L : Library) (c : Completion) : Reports (request L c) := by
  have hdecode : Reports (decodeMsg L c.msg) := by
    unfold decodeMsg
    split
    · exact Reports.error rfl
    · split
      · exact Reports.ok _
      · exact Reports.error rfl
  have hcmd : ∀ j, Reports (cmdOf L j) := fun j => by
    cases j with
    | integer _ | double _ | string _ => exact Reports.ok _
    | _ => exact Reports.error rfl
  refine hdecode.bind fun req => ?_
  split
  · exact Reports.error rfl
  · refine (hcmd _).bind fun cmd => ?_
    split
    · exact Reports.error rfl
    · exact (Reports.set _ _ _).bind fun _ => (Reports.set _ _ _).bind fun _ => Reports.ok _

/-- A receive without an error. -/
lemma checkResult_ok (hrv : c.rv = 0) : checkResult c = .ok () := if_pos hrv

/-- The `try` block when no handler is called. -/
lemma tryBlock_request {e : Exn} (hrv : c.rv = 0) (h : request L c = .error e) :
    tryBlock L c f = (.error e, { f with msg := c.msg }) := by
  rw [tryBlock, bind_ok (orThrow_ok (checkResult_ok hrv) f), bind_ok (modify_apply _ f),
    bind_error (orThrow_error h _)]

/-- The `try` block when the handler throws. -/
lemma tryBlock_threw {handle : Handle} {req : Json} {e : Exn} (hrv : c.rv = 0)
    (h : request L c = .ok (handle, req)) (hthrew : handle req = .error e) :
    tryBlock L c f = (.error e, { f with msg := c.msg }) := by
  rw [tryBlock, bind_ok (orThrow_ok (checkResult_ok hrv) f), bind_ok (modify_apply _ f),
    bind_ok (orThrow_ok h _), bind_error (orThrow_error hthrew _)]

/-- The `try` block when the handler returns. -/
lemma tryBlock_returned {handle : Handle} {req res : Json} (hrv : c.rv = 0)
    (h : request L c = .ok (handle, req)) (hreturned : handle req = .ok res) :
    tryBlock L c f = (setRes "ret" (.integer success) >>= fun _ => encode L >>= fun _ => reply)
      { f with msg := c.msg, res := res } := by
  rw [tryBlock, bind_ok (orThrow_ok (checkResult_ok hrv) f), bind_ok (modify_apply _ f),
    bind_ok (orThrow_ok h _), bind_ok (orThrow_ok hreturned _), bind_ok (modify_apply _ _)]

/-- A receive that fails: no message is there, and the `catch` arm throws in its turn. -/
lemma processRequest_failed (hrv : c.rv ≠ 0) {w : Work} (hserver : w.server = true) :
    ∃ e g, processRequest L c w = (.error e, g) := by
  have hcheck : checkResult c = .error (.std "HKU_CHECK(rv == 0) Failed nng_aio_result!") :=
    if_neg hrv
  have htry : tryBlock L c (Frame.start w) =
      (.error (.std "HKU_CHECK(rv == 0) Failed nng_aio_result!"), Frame.start w) := by
    rw [tryBlock, bind_error (orThrow_error hcheck _)]
  rw [processRequest, if_pos hserver, tryCatch_error htry]
  exact errorReply_error (Or.inl rfl) unknownError _

/-- The `catch` arms answer what they report. -/
lemma catchBlock_reported (hL : L.Keeps "ret") {m : Message} (hmsg : f.msg = some m)
    (hsent : f.sent = []) (hres : f.res.isNullOrObject = true) {e : Exn}
    (he : e.isReported = true) : ∃ g, catchBlock L e f = (.ok (), g) ∧ g.Answers L := by
  cases e with
  | nng what => cases he
  | node errcode what => exact errorReply_ok hL hmsg hsent hres errcode what
  | std what => exact errorReply_ok hL hmsg hsent hres unknownError what
  | unknown => cases he

/-- The `catch` arms throw if `res` is what no field can be set on. -/
lemma catchBlock_escapes (hres : f.res.isNullOrObject = false) {e : Exn}
    (he : e.isReported = true) : ∃ e' g, catchBlock L e f = (.error e', g) := by
  cases e with
  | nng what => cases he
  | node errcode what => exact errorReply_error (Or.inr hres) errcode what
  | std what => exact errorReply_error (Or.inr hres) unknownError what
  | unknown => cases he

/-- A request whose handler returns is answered if a field can be set on what it returned.

**Proof sketch.** If a field can be set on what the handler returned, the reply has `ret` and is
encoded and sent. Otherwise the exception is caught, and the arm that catches it fails at the same
field. -/
lemma answers_returned (hL : L.Keeps "ret") {m : Message} (hmsg : c.msg = some m) (hrv : c.rv = 0)
    {handle : Handle} {req res : Json} (hrequest : request L c = .ok (handle, req))
    (hreturned : handle req = .ok res) (w : Work) :
    (∃ g, tryCatch (tryBlock L c) (catchBlock L) (Frame.start w) = (.ok (), g) ∧ g.Answers L) ↔
      res.isNullOrObject = true := by
  have htry := tryBlock_returned (f := Frame.start w) hrv hrequest hreturned
  cases hset : res.set "ret" (.integer success) with
  | ok j =>
    rw [bind_ok (setRes_ok hset)] at htry
    have hret : j.contains "ret" = true := by simp [Json.contains_of_set hset]
    obtain ⟨g, hg, hanswers⟩ := encode_reply hL
      (f := { Frame.start w with msg := c.msg, res := j }) hmsg rfl hret
    rw [tryCatch_ok (htry.trans hg)]
    exact iff_of_true ⟨g, rfl, hanswers⟩ ((Json.set_eq_ok_iff _ _ _).mp ⟨j, hset⟩)
  | error e =>
    rw [bind_error (setRes_error hset)] at htry
    -- The arm that takes the exception sets the same field again.
    have hres : res.isNullOrObject = false := by
      rw [← Bool.not_eq_true, ← Json.set_eq_ok_iff "ret" (.integer success), hset]
      simp
    obtain ⟨e', g', hg'⟩ := catchBlock_escapes (L := L)
      (f := { Frame.start w with msg := c.msg, res := res }) hres
      (Reports.set res "ret" (.integer success) e hset)
    rw [tryCatch_error htry]
    refine iff_of_false ?_ (by simp [hres])
    rintro ⟨g, hg, -⟩
    cases hg.symm.trans hg'

/-- An error of the network is not answered. -/
lemma catchBlock_nng_silent (hsent : f.sent = []) (what : String) :
    ¬ ∃ g, catchBlock L (.nng what) f = (.ok (), g) ∧ g.Answers L := by
  rintro ⟨g, hg, -, m, hm, -⟩
  cases hg
  rw [hsent] at hm
  cases hm

/-- Where the request is sent back, it is the answer if it has a field `ret`. -/
lemma answers_unknown {m : Message} (hmsg : f.msg = some m) (hsent : f.sent = [])
    (hres : f.res.isNullOrObject = true) :
    (∃ g, catchBlock L .unknown f = (.ok (), g) ∧ g.Answers L) ↔ m.Has L "ret" := by
  obtain ⟨g, hg, haio, hreply⟩ := catchBlock_unknown (L := L) hres
  rw [hsent, hmsg, List.nil_append] at hreply
  constructor
  · rintro ⟨g', hg', -, m', hm', hret⟩
    cases hg.symm.trans hg'
    rw [hreply] at hm'
    cases hm'
    exact hret
  · exact fun hret => ⟨g, hg, by simp [haio], m, hreply, hret⟩

/-- What is asked of a request that reaches a handler. -/
lemma answered_iff {handle : Handle} {req : Json} (hrequest : request L c = .ok (handle, req)) :
    Answered L c ↔ match handle req with
      | .ok res => res.isNullOrObject = true
      | .error (.nng _) => False
      | .error .unknown => ∃ m, c.msg = some m ∧ m.Has L "ret"
      | .error _ => True := by
  constructor
  · exact fun h => h handle req hrequest
  · rintro h handle' req' hrequest'
    cases hrequest.symm.trans hrequest'
    exact h

/-- **When a request is answered.**

**Proof sketch.** By cases on whether something was received, whether the request is read, and what
its handler does. The exceptions that name their error are answered, and an array or a scalar is
not. -/
lemma answers_iff (hL : L.Keeps "ret") (hmsg : c.rv = 0 → c.msg.isSome = true) {w : Work}
    (hserver : w.server = true) :
    (∃ g, processRequest L c w = (.ok (), g) ∧ g.Answers L) ↔ c.rv = 0 ∧ Answered L c := by
  by_cases hrv : c.rv = 0
  · rw [processRequest, if_pos hserver, and_iff_right hrv]
    obtain ⟨m, hm⟩ := Option.isSome_iff_exists.mp (hmsg hrv)
    set f : Frame := { Frame.start w with msg := c.msg } with hf
    have hstart : f.res.isNullOrObject = true := rfl
    cases hrequest : request L c with
    | error e =>
      rw [tryCatch_error (tryBlock_request hrv hrequest)]
      refine iff_of_true
        (catchBlock_reported hL hm rfl hstart (Reports.request L c e hrequest)) fun _ _ h => ?_
      cases hrequest.symm.trans h
    | ok call =>
      obtain ⟨handle, req⟩ := call
      rw [answered_iff hrequest]
      cases hhandle : handle req with
      | ok res => exact answers_returned hL hm hrv hrequest hhandle w
      | error e =>
        rw [tryCatch_error (tryBlock_threw hrv hrequest hhandle)]
        cases e with
        | nng what => exact iff_of_false (catchBlock_nng_silent rfl what) id
        | node errcode what => exact iff_of_true (catchBlock_reported hL hm rfl hstart rfl) trivial
        | std what => exact iff_of_true (catchBlock_reported hL hm rfl hstart rfl) trivial
        | unknown =>
          rw [answers_unknown (f := f) hm rfl hstart]
          simp [hm]
  · obtain ⟨e, g, hg⟩ := processRequest_failed (L := L) hrv hserver
    refine iff_of_false ?_ fun h => hrv h.1
    rintro ⟨g', hg', -⟩
    cases hg.symm.trans hg'

/-! ## Runs -/

variable {s t : Server} {e : Event} {w : Work}

/-- No receive is pending. -/
def Frame.NotReceiving (f : Frame) : Prop := f.work.aio ≠ .receiving

/-- A computation leaves the context as it is. -/
lemma preserves_orThrow {α : Type} (r : Except Exn α) :
    Preserves Frame.NotReceiving (orThrow r) := fun _ h => h

/-- A field of `res`. -/
lemma preserves_setRes (key : String) (value : Json) :
    Preserves Frame.NotReceiving (setRes key value) :=
  Preserves.bind (fun _ h => h) fun _ => (preserves_orThrow _).bind fun _ _ h => h

/-- The content of the message. -/
lemma preserves_encode (L : Library) : Preserves Frame.NotReceiving (encode L) :=
  Preserves.bind (fun _ h => h) fun _ => (preserves_orThrow _).bind fun _ _ h => h

/-- A send is pending after a reply. -/
lemma preserves_reply : Preserves Frame.NotReceiving reply := fun _ _ h => by cases h

/-- An error that is reported. -/
lemma preserves_errorReply (L : Library) (errcode : ℤ) (what : String) :
    Preserves Frame.NotReceiving (errorReply L errcode what) :=
  (preserves_setRes _ _).bind fun _ => (preserves_setRes _ _).bind fun _ =>
    (preserves_encode L).bind fun _ => preserves_reply

/-- `_processRequest` never receives: neither the `try` block nor a `catch` clause starts anything
but a send. -/
lemma processRequest_notReceiving (L : Library) (c : Completion) (h : w.aio ≠ .receiving) :
    (processRequest L c w).2.work.aio ≠ .receiving := by
  rw [processRequest]
  split
  · have htry : Preserves Frame.NotReceiving (tryBlock L c) :=
      (preserves_orThrow _).bind fun _ => Preserves.bind (fun _ h => h) fun _ =>
        (preserves_orThrow _).bind fun _ => (preserves_orThrow _).bind fun _ =>
          Preserves.bind (fun _ h => h) fun _ => (preserves_setRes _ _).bind fun _ =>
            (preserves_encode L).bind fun _ => preserves_reply
    refine htry.tryCatch (fun e => ?_) _ h
    cases e with
    | nng what => exact fun _ h => h
    | node errcode what => exact preserves_errorReply L errcode what
    | std what => exact preserves_errorReply L unknownError what
    | unknown =>
      exact (preserves_setRes _ _).bind fun _ => (preserves_setRes _ _).bind fun _ =>
        preserves_reply
  · exact h

/-- A context that receives is in the state for it, or has been marked by `stop`. -/
def Context.Held (x : Context) : Prop :=
  x.work.aio = .receiving → x.work.state = .recv ∨ x.work.state = .finish ∧ x.work.server = false

/-- The callback leaves it so. -/
lemma held_called (L : Library) (c : Completion) (x : Context) : (x.called L c).1.Held := by
  intro haio
  change (serverCallback L c { x.work with aio := .idle }).2.work.aio = .receiving at haio
  show (serverCallback L c { x.work with aio := .idle }).2.work.state = .recv ∨ _
  cases hstate : x.work.state with
  | init => exact Or.inl (by simp [serverCallback, hstate, Frame.start])
  | recv =>
    have hprocess : serverCallback L c { x.work with aio := .idle } =
        processRequest L c { x.work with aio := .idle } := by simp [serverCallback, hstate]
    rw [hprocess] at haio
    exact absurd haio (processRequest_notReceiving L c (by simp))
  | send =>
    by_cases hrv : c.rv = 0
    · exact Or.inl (by simp [serverCallback, hstate, hrv, Frame.start])
    · simp [serverCallback, hstate, hrv, Frame.start] at haio
  | finish => simp [serverCallback, hstate, Frame.start] at haio

/-- **What an event does**: one constructor for each branch of `step`, with its guards. -/
inductive Moves (L : Library) (s : Server) : Event → Server → Prop where
  | callback {i : ℕ} {c : Completion} {x : Context} (hx : s.contexts[i]? = some x)
      (hcalls : x.work.Calls c) :
      Moves L s (.callback i c) ⟨s.contexts.set i (x.called L c).1, (x.called L c).2⟩
  | disown {i : ℕ} {x : Context} (hx : s.contexts[i]? = some x) :
      Moves L s (.disown i) { s with
        contexts := s.contexts.set i { x with work := { x.work with server := false } } }
  | finish {i : ℕ} {x : Context} (hx : s.contexts[i]? = some x) (hserver : x.work.server = false) :
      Moves L s (.finish i) { s with
        contexts := s.contexts.set i { x with work := { x.work with state := .finish } } }

/-- A step does what its event does.

**Proof sketch.** One case for each event, with its context. -/
lemma moves_of_step (h : step L s e = some t) : Moves L s e t := by
  unfold step at h
  split at h
  · cases h
  · cases e with
    | callback i c =>
      cases hx : s.contexts[i]? with
      | none => simp [hx] at h
      | some x =>
        simp only [hx] at h
        split at h
        · next hcalls => exact Option.some.inj h ▸ .callback hx hcalls
        · cases h
    | disown i =>
      cases hx : s.contexts[i]? with
      | none => simp [hx] at h
      | some x =>
        simp only [hx] at h
        exact Option.some.inj h ▸ .disown hx
    | finish i =>
      cases hx : s.contexts[i]? with
      | none => simp [hx] at h
      | some x =>
        simp only [hx] at h
        split at h
        · cases h
        · next hserver => exact Option.some.inj h ▸ .finish hx (by simpa using hserver)

/-- What holds of every context holds after one of them is replaced by one of which it holds. -/
lemma forall_set {P : Context → Prop} {l : List Context} (h : ∀ x ∈ l, P x) {y : Context}
    (hy : P y) (i : ℕ) : ∀ x ∈ l.set i y, P x := by
  intro x hx
  rcases List.mem_or_eq_of_mem_set hx with hx | rfl
  · exact h x hx
  · exact hy

/-- What holds of every context goes on to do so exactly if it holds of the one that is new. -/
lemma forall_set_iff {P : Context → Prop} {l : List Context} (h : ∀ x ∈ l, P x) {x y : Context}
    {i : ℕ} (hx : l[i]? = some x) : (∀ x ∈ l.set i y, P x) ↔ P y := by
  obtain ⟨hi, -⟩ := List.getElem?_eq_some_iff.mp hx
  exact ⟨fun hset => hset y (List.mem_set hi y), fun hy => forall_set h hy i⟩

/-- Every step leaves the contexts in the states that they receive in. -/
lemma held_step (h : ∀ x ∈ s.contexts, x.Held) (hstep : step L s e = some t) :
    ∀ x ∈ t.contexts, x.Held := by
  cases moves_of_step hstep with
  | callback hx hcalls => exact forall_set h (held_called L _ _) _
  | disown hx =>
    refine forall_set h (fun haio => ?_) _
    exact (h _ (List.mem_of_getElem? hx) haio).imp_right fun hfinish => ⟨hfinish.1, rfl⟩
  | finish hx hserver =>
    refine forall_set h ?_ _
    exact fun _ => Or.inr ⟨rfl, hserver⟩

/-- **What the callback does when a receive comes back** is what it should do exactly if the
receive is answerable.

**Proof sketch.** The callback of a server with a request is `_processRequest`, so it is
`answers_iff`; otherwise it should send nothing and end, which is what a receive that fails is
for. -/
lemma good_called_iff (hL : L.Keeps "ret") {x : Context} (hheld : x.Held)
    (haio : x.work.aio = .receiving) (hcalls : x.work.Calls c) (hgood : ∀ h ∈ x.handled, h.Good L) :
    (∀ h ∈ (x.called L c).1.handled, h.Good L) ↔
      if x.work.server then c.rv = 0 ∧ Answered L c else c.rv ≠ 0 := by
  have hmsg : c.rv = 0 → c.msg.isSome = true := by
    rw [Work.Calls, haio] at hcalls
    exact hcalls
  set w : Work := { x.work with aio := .idle } with hw
  have hhandled : (x.called L c).1.handled = x.handled ++
      [⟨decide (c.rv = 0), !(serverCallback L c w).1.isOk, (serverCallback L c w).2.sent,
        decide ((serverCallback L c w).2.work.aio ≠ .idle), !x.work.server⟩] := by
    simp [Context.called, haio, ← hw]
  rw [hhandled, List.forall_mem_append, and_iff_right hgood, List.forall_mem_singleton]
  cases hserver : x.work.server with
  | true =>
    have hstate : x.work.state = .recv :=
      (hheld haio).resolve_right fun h => by rw [hserver] at h; cases h.2
    have hprocess : serverCallback L c w = processRequest L c w := by
      simp [serverCallback, hw, hstate]
    rw [if_pos rfl, ← answers_iff hL hmsg (w := w) hserver, hprocess]
    constructor
    · intro hgood
      have hok : (processRequest L c w).1.isOk = true := by simpa using hgood.contained
      have hrv : c.rv = 0 := by
        by_contra hrv
        obtain ⟨e, g, hg⟩ := processRequest_failed (L := L) hrv (w := w) hserver
        rw [hg] at hok
        cases hok
      have hanswers : (processRequest L c w).2.Answers L :=
        ⟨by simpa using hgood.rearmed, hgood.answered (by simpa using hrv)⟩
      rcases hprocessed : processRequest L c w with ⟨r, g⟩
      rw [hprocessed] at hok hanswers
      cases r with
      | error e => cases hok
      | ok u => exact ⟨g, rfl, hanswers⟩
    · rintro ⟨g, hg, haio', hsent⟩
      rw [hg]
      exact ⟨rfl, fun _ => hsent, Or.inr (by simpa using haio')⟩
  | false =>
    have hnothing : serverCallback L c w = (.ok (), Frame.start w) := by
      rcases hheld haio with hstate | ⟨hstate, -⟩ <;>
        simp [serverCallback, processRequest, hw, hstate, hserver]
    rw [if_neg (by simp), hnothing]
    constructor
    · intro hgood hrv
      obtain ⟨m, hm, -⟩ := hgood.answered (by simpa using hrv)
      cases hm
    · exact fun hrv => ⟨rfl, fun h => absurd (by simpa using h) hrv, Or.inl rfl⟩

/-- **What a step leaves well handled** are all receives exactly if it is answerable.

**Proof sketch.** Only a callback adds to what was handled, and this is `good_called_iff`. -/
lemma good_step_iff (hL : L.Keeps "ret") (hheld : ∀ x ∈ s.contexts, x.Held) (hgood : s.Good L)
    (hstep : step L s e = some t) : t.Good L ↔ Answerable L s e := by
  cases moves_of_step hstep with
  | callback hx hcalls =>
    rename_i i c x
    have hmem := List.mem_of_getElem? hx
    have hanswerable : Answerable L s (.callback i c) ↔ (x.work.aio = .receiving →
        if x.work.server then c.rv = 0 ∧ Answered L c else c.rv ≠ 0) := by
      constructor
      · exact fun h => h i c x rfl hx
      · rintro h i' c' x' he hx'
        cases he
        cases hx.symm.trans hx'
        exact h
    rw [hanswerable]
    refine (forall_set_iff hgood hx).trans ?_
    by_cases haio : x.work.aio = .receiving
    · rw [good_called_iff hL (hheld x hmem) haio hcalls (hgood x hmem)]
      exact ⟨fun h _ => h, fun h => h haio⟩
    · refine iff_of_true ?_ fun h => absurd h haio
      have hhandled : (x.called L c).1.handled = x.handled := by simp [Context.called, haio]
      rw [hhandled]
      exact hgood x hmem
  | disown hx =>
    rename_i i x
    have hx' := hgood x (List.mem_of_getElem? hx)
    refine iff_of_true (forall_set hgood ?_ i) fun _ _ _ h => by cases h
    exact hx'
  | finish hx hserver =>
    rename_i i x
    have hx' := hgood x (List.mem_of_getElem? hx)
    refine iff_of_true (forall_set hgood ?_ i) fun _ _ _ h => by cases h
    exact hx'

/-- **In which runs every request is answered**: those in which every receive is answerable.

**Proof sketch.** A context that receives is in the state `recv` unless it is being stopped, so that
its callback processes the request. What is thrown there before the handler is called is reported,
because nothing has been assigned to `res`. -/
theorem answers_every_request (hL : L.Keeps "ret") {maxParrel : ℕ} {es : List Event}
    (hrun : (system L maxParrel).run es = some s) :
    (system L maxParrel).Always (Server.Good L) es ↔
      (system L maxParrel).Along (Answerable L) es := by
  have hopened : ∀ x ∈ (Server.opened maxParrel).contexts, x.work.aio = .idle ∧ x.handled = [] :=
    fun x hx => by
      rw [List.eq_of_mem_replicate hx]
      exact ⟨rfl, rfl⟩
  refine Transition.System.always_iff_along (J := fun s => ∀ x ∈ s.contexts, x.Held) ?_ ?_
    (fun _ _ _ => held_step) (fun _ _ _ hheld hgood => good_step_iff hL hheld hgood) hrun
  · intro x hx haio
    rw [(hopened x hx).1] at haio
    cases haio
  · intro x hx h hh
    rw [(hopened x hx).2] at hh
    cases hh

/-! ## A server that knows one command -/

/-- `{"ret": 0}`. -/
def pong : List UInt8 := [0x81, 0xa3, 0x72, 0x65, 0x74, 0x00]

/-- `{"cmd": "ping"}`. -/
def ping : List UInt8 := [0x81, 0xa3, 0x63, 0x6d, 0x64, 0xa4, 0x70, 0x69, 0x6e, 0x67]

/-- The codec as far as these two messages go. -/
def pingLibrary : Library where
  fromMsgpack bytes :=
    if bytes = pong then .ok (.object [("ret", .integer 0)])
    else if bytes = ping then .ok (.object [("cmd", .string "ping")])
    else .error "[json.exception.parse_error]"
  toMsgpack _ := pong
  toInt _ := 0

/-- It keeps the field `ret`. -/
lemma pingLibrary_keeps : pingLibrary.Keeps "ret" := fun _ _ =>
  ⟨.object [("ret", .integer 0)], rfl, by simp [Json.contains, Json.get?]⟩

/-- A request comes back, and its handler ends with `r`. -/
def pinged (r : Except Exn Json) : Event :=
  .callback 0 ⟨0, some ⟨ping, none⟩, fun _ => some fun _ => r⟩

/-- The server is opened with one context, which receives. -/
def opened : Event := .callback 0 ⟨0, none, fun _ => none⟩

/-- Its handler returns nothing, and the server answers. -/
theorem answers_every_request_ping :
    ∃ s, (system pingLibrary 1).run [opened, pinged (.ok .null)] = some s ∧
      (system pingLibrary 1).Always (Server.Good pingLibrary) [opened, pinged (.ok .null)] := by
  have hanswered :
      Answered pingLibrary ⟨0, some ⟨ping, none⟩, fun _ => some fun _ => .ok .null⟩ := by
    intro handle req h
    obtain ⟨rfl, -⟩ : (fun _ => .ok .null) = handle ∧ _ := by simpa using Except.ok.inj h
    rfl
  refine ⟨_, rfl, (answers_every_request pingLibrary_keeps rfl).mpr ⟨?_, fun t ht => ⟨?_, ?_⟩⟩⟩
  · intro i c x he hx haio
    cases he
    cases hx
    cases haio
  · intro i c x he hx _
    cases ht
    cases he
    cases hx
    exact ⟨rfl, hanswered⟩
  · exact fun _ _ => trivial

/-- Two runs that go wrong: a receive that fails, and a handler that returns an array. -/
theorem failed_receive :
    (∃ s, (system pingLibrary 1).run [opened, .callback 0 ⟨7, none, fun _ => none⟩] = some s ∧
      ¬ s.Good pingLibrary) ∧
    ∃ s, (system pingLibrary 1).run [opened, pinged (.ok (.array []))] = some s ∧
      ¬ s.Good pingLibrary := by
  constructor
  · refine ⟨_, rfl, fun h => ?_⟩
    cases (h _ (List.mem_singleton.mpr rfl) _ (List.mem_singleton.mpr rfl)).contained
  · refine ⟨_, rfl, fun h => ?_⟩
    cases (h _ (List.mem_singleton.mpr rfl) _ (List.mem_singleton.mpr rfl)).contained

end HkuUtils.Node
