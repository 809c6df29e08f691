import HkuUtils.Node.ClientRuns
import HkuUtils.Node.Server

set_option relaxedAutoImplicit false
set_option autoImplicit false

/-!
# Calls of a server through a client

A client, whose functions any number of threads call, and a server with its contexts, with the
requests and replies that are on the way between them.

## Main definitions

* `HkuUtils.Node.Responds` — what a server sends back for a request.
* `HkuUtils.Node.Network` — the client, the server and the replies on the way.
* `HkuUtils.Node.network` — the runs of the whole.

## Main results

* `HkuUtils.Node.responds_of_mem` — what the callback sends.
* `HkuUtils.Node.remote_calls` — **what a call of `post` returns.**

## Design

A request stays on the way when it is received, since the library may send it again, and any context
may receive it. A reply is delivered if the socket still waits for it. The server may also serve the
requests of other clients, and its operations may fail; these events are steps of the server alone.
-/

namespace HkuUtils.Node

open Fallible Transition

variable {L : Library} {c : Completion}

/-! ## Responses -/

/-- The report of an error. -/
def report (errcode : ℤ) (what : String) : Json :=
  .object [("msg", .string what), ("ret", .integer errcode)]

/-- What of an exception is reported. -/
def Exn.reported : Exn → Option (ℤ × String)
  | .node errcode what => some (errcode, what)
  | .std what => some (unknownError, what)
  | .nng _ | .unknown => none

/-- **What a server sends back** for a request, in the three cases in which it sends something. -/
inductive Responds (L : Library) (c : Completion) : List UInt8 → Prop where
  /-- The handler has returned a value; it is marked with a field. -/
  | returned {handle : Handle} {req res j : Json} (hrequest : request L c = .ok (handle, req))
    (hres : handle req = .ok res) (hset : res.set "ret" (.integer success) = .ok j) :
    Responds L c (L.toMsgpack j)
  /-- No handler was found, or it has thrown something that is reported. -/
  | reported {e : Exn} {errcode : ℤ} {what : String}
    (hthrew : (request L c >>= fun call => call.1 call.2) = .error e)
    (he : e.reported = some (errcode, what)) : Responds L c (L.toMsgpack (report errcode what))
  /-- The handler has thrown anything else: the request is sent back. -/
  | echoed {m : Message} {handle : Handle} {req : Json} (hmsg : c.msg = some m)
    (hrequest : request L c = .ok (handle, req)) (hthrew : handle req = .error .unknown) :
    Responds L c m.body

/-- The reply is written and sent. -/
lemma sent_encode_reply {f : Frame} {m : Message} (hmsg : f.msg = some m) :
    ((encode L >>= fun _ => reply) f).2.sent =
      f.sent ++ [some { m with body := L.toMsgpack f.res }] := by
  rw [bind_ok (encode_ok hmsg), reply, modify_apply]

/-- An error is reported, if no handler has returned. -/
lemma sent_errorReply {f : Frame} {m : Message} (hmsg : f.msg = some m) (hres : f.res = .null)
    (errcode : ℤ) (what : String) :
    (errorReply L errcode what f).2.sent =
      f.sent ++ [some { m with body := L.toMsgpack (report errcode what) }] := by
  have hret : f.res.set "ret" (.integer errcode) = .ok (.object [("ret", .integer errcode)]) := by
    rw [hres]
    rfl
  have hwhat : Json.set (.object [("ret", .integer errcode)]) "msg" (.string what) =
      .ok (report errcode what) := by
    have hne : ¬ "msg" = "ret" := by decide
    have hlt : "msg" < "ret" := by decide
    rw [Json.set, Json.assign, if_neg hne, if_pos hlt, report]
  rw [errorReply, bind_ok (setRes_ok hret), bind_ok (setRes_ok hwhat)]
  exact sent_encode_reply hmsg

/-- An error is not reported if `res` is what no field can be set on. -/
lemma sent_errorReply_of_error {f : Frame} (hres : f.res.isNullOrObject = false) (errcode : ℤ)
    (what : String) : (errorReply L errcode what f).2 = f := by
  cases hset : f.res.set "ret" (.integer errcode) with
  | ok j =>
    have htrue := (Json.set_eq_ok_iff _ _ _).1 ⟨j, hset⟩
    exact absurd (hres.symm.trans htrue) (by decide)
  | error e => rw [errorReply, bind_error (setRes_error hset)]

/-- What the `catch` arms send if no handler has returned.

**Proof sketch.** One case for each kind of exception: it ends without a reply, is reported with
its code, or sends the message back. -/
lemma mem_sent_catchBlock {f : Frame} {m : Message} {m' : Option Message} (hmsg : f.msg = some m)
    (hres : f.res = .null) (hsent : f.sent = []) {e : Exn}
    (hmem : m' ∈ (catchBlock L e f).2.sent) :
    (∃ errcode what, e.reported = some (errcode, what) ∧
        m' = some { m with body := L.toMsgpack (report errcode what) }) ∨
      e = .unknown ∧ m' = some m := by
  cases e with
  | nng what =>
    change m' ∈ f.sent at hmem
    rw [hsent] at hmem
    exact absurd hmem (by simp)
  | node errcode what =>
    change m' ∈ (errorReply L errcode what f).2.sent at hmem
    rw [sent_errorReply hmsg hres, hsent] at hmem
    exact .inl ⟨errcode, what, rfl, List.mem_singleton.1 hmem⟩
  | std what =>
    change m' ∈ (errorReply L unknownError what f).2.sent at hmem
    rw [sent_errorReply hmsg hres, hsent] at hmem
    exact .inl ⟨unknownError, what, rfl, List.mem_singleton.1 hmem⟩
  | unknown =>
    obtain ⟨g, hg, -, hgsent⟩ := catchBlock_unknown (L := L) (f := f) (by rw [hres]; rfl)
    rw [hg, hgsent, hsent, hmsg] at hmem
    exact .inr ⟨rfl, List.mem_singleton.1 hmem⟩

/-- What `_processRequest` sends when a request has been received.

**Proof sketch.** By cases on whether the request is read, whether its handler returns, and whether
a field can be set on what it returns. An exception is reported or, if it is unknown, the request
goes back as it came. -/
lemma responds_of_mem_processRequest {m : Message} {m' : Option Message} {w : Work}
    (hrv : c.rv = 0) (hmsg : c.msg = some m) (hmem : m' ∈ (processRequest L c w).2.sent) :
    ∃ body, m' = some { m with body := body } ∧ Responds L c body := by
  rw [processRequest] at hmem
  split at hmem
  next =>
    cases hrequest : request L c with
    | error e =>
      rw [tryCatch_error (tryBlock_request hrv hrequest)] at hmem
      rcases mem_sent_catchBlock hmsg rfl rfl hmem with ⟨errcode, what, he, rfl⟩ | ⟨rfl, rfl⟩
      · exact ⟨_, rfl, .reported (by rw [hrequest]; rfl) he⟩
      · exact absurd (Reports.request L c _ hrequest) (by decide)
    | ok call =>
      obtain ⟨handle, req⟩ := call
      cases hhandle : handle req with
      | error e =>
        rw [tryCatch_error (tryBlock_threw hrv hrequest hhandle)] at hmem
        rcases mem_sent_catchBlock hmsg rfl rfl hmem with ⟨errcode, what, he, rfl⟩ | ⟨rfl, rfl⟩
        · exact ⟨_, rfl, .reported (by rw [hrequest]; exact hhandle) he⟩
        · exact ⟨_, rfl, .echoed hmsg hrequest hhandle⟩
      | ok res =>
        have htry := tryBlock_returned (f := Frame.start w) hrv hrequest hhandle
        cases hset : res.set "ret" (.integer success) with
        | ok j =>
          rw [bind_ok (setRes_ok hset)] at htry
          have hreply := encode_ok (L := L)
            (f := { Frame.start w with msg := c.msg, res := j }) hmsg
          rw [tryCatch_ok (htry.trans (bind_ok hreply _))] at hmem
          obtain rfl := List.mem_singleton.1 hmem
          exact ⟨_, rfl, .returned hrequest hhandle hset⟩
        | error e =>
          -- the `catch` arm throws in its turn
          rw [bind_error (setRes_error hset)] at htry
          rw [tryCatch_error htry] at hmem
          have hres : res.isNullOrObject = false := by
            rw [← Bool.not_eq_true, ← Json.set_eq_ok_iff "ret" (.integer success), hset]
            simp
          cases e with
          | nng what => exact absurd (Reports.set _ _ _ _ hset) (by simp [Exn.isReported])
          | unknown => exact absurd (Reports.set _ _ _ _ hset) (by decide)
          | node errcode what | std what =>
            rw [catchBlock, sent_errorReply_of_error hres] at hmem
            exact absurd hmem (by simp [Frame.start])
  next => exact absurd hmem (by simp [Frame.start])

/-- **What the callback sends** when a request has been received. -/
lemma responds_of_mem {m : Message} {m' : Option Message} {w : Work} (hrv : c.rv = 0)
    (hmsg : c.msg = some m) (hmem : m' ∈ (serverCallback L c w).2.sent) :
    ∃ body, m' = some { m with body := body } ∧ Responds L c body := by
  rw [serverCallback] at hmem
  split at hmem
  next => exact absurd hmem (by simp [Frame.start])
  next => exact responds_of_mem_processRequest hrv hmsg hmem
  next =>
    split at hmem
    · exact absurd hmem (by simp [Frame.start])
    · exact absurd hmem (by simp [Frame.start])
  next => exact absurd hmem (by simp [Frame.start])

/-! ## The network -/

/-- A client and a server, and the replies on the way, with the numbers of their requests. -/
structure Network where
  client : Threads.State Client.Shared Client.Stage
  server : Server
  replies : List (ℕ × List UInt8)

/-- The steps of the whole. -/
inductive Network.Event where
  /-- A step of the client. -/
  | client (e : Threads.Event Client.Action Client.Change)
  /-- A context receives the request with a number. -/
  | receive (i n : ℕ) (peer : Option (String × ℕ)) (handles : String → Option Handle)
  /-- A step of the server for other clients, or without a request. -/
  | server (e : Node.Event)
  /-- A reply is delivered to a socket. -/
  | deliver (q n : ℕ) (body : List UInt8)

/-- The replies of a context for a request, when a receive of it comes back. -/
def Context.replies (L : Library) (n : ℕ) (c : Completion) (x : Context) : List (ℕ × List UInt8) :=
  (serverCallback L c { x.work with aio := .idle }).2.sent.filterMap fun m =>
    m.map fun m => (n, m.body)

namespace Network

variable (L)

/-- The step of an event. What the two sides do by themselves are steps of their models; a request
and a reply go from one to the other on the way between them. -/
def step (s : Network) : Network.Event → Option Network
  | .client (.env (.reply _ _)) => none
  | .client e => ((Client.program L).step s.client e).map fun t => { s with client := t }
  | .receive i n peer handles => do
    let body ← s.client.shared.sent[n]?
    let x ← s.server.contexts[i]?
    let c : Completion := ⟨0, some ⟨body, peer⟩, handles⟩
    let t ← Node.step L s.server (.callback i c)
    some { s with server := t, replies := x.replies L n c ++ s.replies }
  | .server e => (Node.step L s.server e).map fun t => { s with server := t }
  | .deliver q n body => do
    let k ← s.client.shared.sockets[q]?
    if k.outstanding = some n ∧ (n, body) ∈ s.replies then
      let t ← (Client.program L).step s.client (.env (.reply q body))
      some { s with client := t }
    else none

end Network

/-- The runs of a client and a server that has some contexts. -/
def network (L : Library) (serverAddr : String) (maxParrel : ℕ) :
    System Network Network.Event where
  init := ⟨(Client.system L serverAddr).init, Server.opened maxParrel, []⟩
  step := Network.step L

/-- **What a step of the whole can do**: one constructor for each branch of `step`, with its
guards. -/
inductive Network.Steps (L : Library) (s : Network) : Network.Event → Network → Prop where
  | client {e : Threads.Event Client.Action Client.Change}
    {t : Threads.State Client.Shared Client.Stage}
    (hreply : ∀ q body, e ≠ .env (.reply q body))
    (hstep : (Client.program L).step s.client e = some t) :
    Steps L s (.client e) { s with client := t }
  | receive {i n : ℕ} {body : List UInt8} {x : Context} {t : Server}
    {peer : Option (String × ℕ)} {handles : String → Option Handle}
    (hbody : s.client.shared.sent[n]? = some body) (hx : s.server.contexts[i]? = some x)
    (hstep : Node.step L s.server (.callback i ⟨0, some ⟨body, peer⟩, handles⟩) = some t) :
    Steps L s (.receive i n peer handles)
      { s with server := t, replies := x.replies L n ⟨0, some ⟨body, peer⟩, handles⟩ ++ s.replies }
  | server {e : Node.Event} {t : Server} (hstep : Node.step L s.server e = some t) :
    Steps L s (.server e) { s with server := t }
  | deliver {q n : ℕ} {body : List UInt8} {k : Client.Socket}
    {t : Threads.State Client.Shared Client.Stage} (hk : s.client.shared.sockets[q]? = some k)
    (hn : k.outstanding = some n) (hbody : (n, body) ∈ s.replies)
    (hstep : (Client.program L).step s.client (.env (.reply q body)) = some t) :
    Steps L s (.deliver q n body) { s with client := t }

/-- Inversion of a step of the whole.

**Proof sketch.** One case for each event, with the guards of its step. -/
lemma Network.steps_of_step {s t : Network} {e : Network.Event} (h : Network.step L s e = some t) :
    Network.Steps L s e t := by
  unfold Network.step at h
  split at h
  · exact absurd h (by simp)
  next hreply =>
    obtain ⟨t', hstep, rfl⟩ := Option.map_eq_some_iff.1 h
    exact .client (fun q body he => hreply q body he) hstep
  · simp only [Option.bind_eq_bind, Option.bind_eq_some_iff, Option.some.injEq] at h
    obtain ⟨body, hbody, x, hx, t', hstep, rfl⟩ := h
    exact .receive hbody hx hstep
  · obtain ⟨t', hstep, rfl⟩ := Option.map_eq_some_iff.1 h
    exact .server hstep
  · simp only [Option.bind_eq_bind, Option.bind_eq_some_iff] at h
    obtain ⟨k, hk, h⟩ := h
    split at h
    next hcond =>
      obtain ⟨t', hstep, h⟩ := Option.bind_eq_some_iff.1 h
      exact Option.some.inj h ▸ .deliver hk hcond.1 hcond.2 hstep
    next => exact absurd h (by simp)

/-! ## What is on the way -/

/-- Requests are only added. -/
lemma Client.sent_prefix {s t : Threads.State Client.Shared Client.Stage}
    {e : Threads.Event Client.Action Client.Change}
    (h : (Client.program L).step s e = some t) : s.shared.sent <+: t.shared.sent := by
  cases Threads.Program.steps_of_step h with
  | spawn => exact List.prefix_refl _
  | act hl ha =>
    cases Client.acts_of_act ha with
    | postSend => exact List.prefix_append _ _
    | _ => exact List.prefix_refl _
  | env he => cases Client.changes_of_change he <;> exact List.prefix_refl _

/-- Replies come only from the server. -/
lemma Client.replies_of_step {s t : Threads.State Client.Shared Client.Stage}
    {e : Threads.Event Client.Action Client.Change} (hreply : ∀ q body, e ≠ .env (.reply q body))
    (h : (Client.program L).step s e = some t) : t.shared.replies = s.shared.replies := by
  cases Threads.Program.steps_of_step h with
  | spawn => rfl
  | act hl ha => cases Client.acts_of_act ha <;> rfl
  | env he =>
    cases Client.changes_of_change he with
    | reply => exact absurd rfl (hreply _ _)
    | setServerAddr => rfl

/-- What a context has when it has received a request: the bytes that were sent. -/
def received (sent : List UInt8) (peer : Option (String × ℕ)) (handles : String → Option Handle) :
    Completion :=
  ⟨0, some ⟨sent, peer⟩, handles⟩

/-- **The reply to a request of the client**: one of the events is that a context has received this
request, and it is what the server sends back for it. -/
def Network.Answers (L : Library) (past : List Network.Event) (s : Network) (n : ℕ)
    (body : List UInt8) : Prop :=
  ∃ (i : ℕ) (peer : Option (String × ℕ)) (handles : String → Option Handle) (sent : List UInt8),
    Network.Event.receive i n peer handles ∈ past ∧ s.client.shared.sent[n]? = some sent ∧
      Responds L (received sent peer handles) body

/-- The replies on the way answer requests of the client, and those that it was given were on the
way. -/
structure Network.Ok (L : Library) (past : List Network.Event) (s : Network) : Prop where
  answers : ∀ n body, (n, body) ∈ s.replies → s.Answers L past n body
  delivered : s.client.shared.replies ⊆ s.replies

/-- A reply answers its request for ever. -/
lemma Network.Answers.mono {past : List Network.Event} {s t : Network} {n : ℕ} {body : List UInt8}
    (h : s.Answers L past n body) (e : Network.Event)
    (hsent : s.client.shared.sent <+: t.client.shared.sent) : t.Answers L (e :: past) n body := by
  obtain ⟨i, peer, handles, sent, hevent, hbody, hresponds⟩ := h
  refine ⟨i, peer, handles, sent, List.mem_cons_of_mem e hevent, ?_, hresponds⟩
  obtain ⟨more, hmore⟩ := hsent
  rw [← hmore, List.getElem?_append_left (List.getElem?_eq_some_iff.1 hbody).1]
  exact hbody

/-- **A step of the whole.** A reply that comes onto the way is sent by a context that receives its
request in this step, and a reply is delivered only from the way.

**Proof sketch.** One case for each step of the whole. Only one that receives a request puts a
reply on the way, and it is for this request; only a delivery takes one from there. -/
theorem Network.Ok.step {past : List Network.Event} {s t : Network} {e : Network.Event}
    (h : s.Ok L past) (hstep : Network.step L s e = some t) : t.Ok L (e :: past) := by
  cases Network.steps_of_step hstep with
  | client hreply hown =>
    refine ⟨fun n body hmem => (h.answers n body hmem).mono _ (Client.sent_prefix hown), ?_⟩
    rw [Client.replies_of_step hreply hown]
    exact h.delivered
  | @receive i n body x t' peer handles hbody hx hown =>
    refine ⟨fun n' body' hmem => ?_, fun p hp => List.mem_append_right _ (h.delivered hp)⟩
    rcases List.mem_append.1 hmem with hmem | hmem
    · obtain ⟨m', hm', hpair⟩ := List.mem_filterMap.1 hmem
      obtain ⟨body₀, rfl, hresponds⟩ := responds_of_mem rfl rfl hm'
      obtain ⟨rfl, rfl⟩ := Prod.mk.inj (Option.some.inj hpair)
      exact ⟨i, peer, handles, body, List.mem_cons_self, hbody, hresponds⟩
    · exact (h.answers n' body' hmem).mono _ (List.prefix_refl _)
  | server hown =>
    exact ⟨fun n body hmem => (h.answers n body hmem).mono _ (List.prefix_refl _), h.delivered⟩
  | @deliver q n body k t' hk hn hbody hown =>
    refine ⟨fun n' body' hmem => (h.answers n' body' hmem).mono _ (Client.sent_prefix hown), ?_⟩
    cases Threads.Program.steps_of_step hown with
    | env he =>
      cases Client.changes_of_change (show Client.change _ (.reply q body) = some _ from he) with
      | reply hk' hopen hn' body =>
        obtain rfl := Option.some.inj (hk.symm.trans hk')
        obtain rfl := Option.some.inj (hn.symm.trans hn')
        exact List.cons_subset.2 ⟨hbody, h.delivered⟩

variable {serverAddr : String} {maxParrel : ℕ} {s : Network} {es : List Network.Event}

/-- The client of a network runs like any client. -/
lemma client_of_run (hrun : (network L serverAddr maxParrel).run es = some s) :
    ∃ ds, (Client.system L serverAddr).run ds = some s.client := by
  refine System.run_simulates (T := Client.system L serverAddr) (f := Network.client)
    (I := fun _ => True) trivial rfl (fun s e t _ hstep => ⟨trivial, ?_⟩) hrun
  have hone : ∀ {e t}, (Client.program L).step s.client e = some t →
      ∃ ds, (Client.system L serverAddr).runFrom s.client ds = some t := by
    intro e t hstep
    refine ⟨[e], ?_⟩
    rw [System.runFrom_cons]
    change ((Client.program L).step s.client e).bind _ = _
    rw [hstep]
    rfl
  cases Network.steps_of_step hstep with
  | client hreply hown => exact hone hown
  | receive | server => exact ⟨[], rfl⟩
  | deliver hk hn hbody hown => exact hone hown

/-- **What a call of `post` returns.** In every run of a client and a server, with any number of
threads and contexts, handlers that do anything, other clients, requests that are received several
times and replies that come too late, each call of `post` that returned true has a request of its
own, and a context of the server has received this request in the run. The result is decoded from a
reply that was on the way for it, and this is what the server sends back then: the value that the
handler for it has returned, with the field `ret`, the report of what was thrown, or the request
itself if the handler has thrown what is no `std::exception`.

**Proof sketch.** The client of the network runs like any client, so that by the results about
these a call that returned true has decoded a reply that the library has delivered for its own
request. A reply is delivered only if it is on the way, and it came there in a step in which a
context received the request with its number (`Network.Ok.step`). -/
theorem remote_calls (hrun : (network L serverAddr maxParrel).run es = some s) :
    (s.client.shared.results.map Client.Result.sent).Nodup ∧
      ∀ r ∈ s.client.shared.results, ∃ (i : ℕ) (peer : Option (String × ℕ))
        (handles : String → Option Handle) (body : List UInt8),
        Network.Event.receive i r.sent peer handles ∈ es ∧ (r.sent, body) ∈ s.replies ∧
          Responds L (received (L.toMsgpack r.req) peer handles) body ∧
          L.fromMsgpack body = .ok r.res := by
  have hok : s.Ok L es.reverse := System.run_invariant_past (I := Network.Ok L)
    ⟨fun n body hmem => absurd hmem (List.not_mem_nil), List.Subset.refl _⟩
    (fun past s e t h hstep => h.step hstep) hrun
  obtain ⟨ds, hclient⟩ := client_of_run hrun
  obtain ⟨-, hresults, -⟩ := Client.protected_of_run hclient
  refine ⟨hresults.nodup, fun r hr => ?_⟩
  obtain ⟨hsent, body, hmem, hres⟩ := hresults.results r hr
  obtain ⟨i, peer, handles, sent, hevent, hbody, hresponds⟩ :=
    hok.answers _ _ (hok.delivered hmem)
  obtain rfl := Option.some.inj (hbody.symm.trans hsent)
  exact ⟨i, peer, handles, body, List.mem_reverse.1 hevent, hok.delivered hmem, hresponds, hres⟩

/-- The report of a command that is missing, as MessagePack has it. -/
def missing : List UInt8 :=
  [0x82, 0xA3, 0x6D, 0x73, 0x67, 0xB0] ++ "Missing command!".toUTF8.toList ++
    [0xA3, 0x72, 0x65, 0x74, 0x03]

/-- Small numbers and this report, as MessagePack has them. It is used for runs that are
computed. -/
def numbersAndReport : Library where
  fromMsgpack
    | [b] => .ok (.integer b.toNat)
    | bytes =>
      if bytes = missing then .ok (report missingCmd "Missing command!")
      else .error "parse_error.112"
  toMsgpack
    | .integer n => [UInt8.ofNat n.toNat]
    | .object _ => missing
    | _ => []
  toInt _ := 0

/-- A number is posted, which has no field for a command. -/
def missingRun : List Network.Event :=
  .client .spawn :: (Client.dialRun 0 ++ Client.sendRun 0 3).map .client ++
    [.server (.callback 0 ⟨0, none, fun _ => none⟩),
      .receive 0 0 (some ("127.0.0.1", 4000)) fun _ => none, .deliver 0 0 missing,
      .client (.act 0 (.received 0)), .client (.act 0 .next), .client (.act 0 .next),
      .client (.act 0 .next)]

/-- The call returns the report. -/
theorem remote_calls_missing :
    ∃ s, (network numbersAndReport "tcp://127.0.0.1:4000" 1).run missingRun = some s ∧
      s.client.shared.results.map Client.Result.sent = [0] ∧
      ∀ r ∈ s.client.shared.results, ∃ (i : ℕ) (peer : Option (String × ℕ))
        (handles : String → Option Handle) (body : List UInt8),
        Network.Event.receive i r.sent peer handles ∈ missingRun ∧ (r.sent, body) ∈ s.replies ∧
          Responds numbersAndReport (received (numbersAndReport.toMsgpack r.req) peer handles)
            body ∧
          numbersAndReport.fromMsgpack body = .ok r.res :=
  ⟨((network numbersAndReport "tcp://127.0.0.1:4000" 1).run missingRun).get (by decide +kernel),
    (Option.some_get _).symm, by decide +kernel, (remote_calls (Option.some_get _).symm).2⟩

end HkuUtils.Node
