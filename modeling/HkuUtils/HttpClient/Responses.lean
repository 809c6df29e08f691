import HkuUtils.HttpClient.Discipline

set_option relaxedAutoImplicit false
set_option autoImplicit false

/-!
# Requests and their responses

The responses on a connection come in the order of the requests, and a call takes the next one for
its own. So it must find no response of an earlier call. A call that ends with an exception before
it has read its response leaves the connection open, and the pool lends it again.

## Main definitions

* `HkuUtils.HttpClient.Matched` — responses are returned to those who asked.
* `HkuUtils.HttpClient.ReadsOut` — the steps that do not end a call before its response is read.

## Main results

* `HkuUtils.HttpClient.responses_matched` — in a run in which calls end only with their response
  read, or on a connection that is deleted, responses are matched.
* `HkuUtils.HttpClient.response_not_matched` — after a read that times out they are not.
-/

namespace HkuUtils.HttpClient

open Transition

/-- A call returns the response to its own request, and a connection that is handed to a call has
no response of an earlier one still to be read. -/
structure Matched (s : State) : Prop where
  own : ∀ c tag, s.phase c = .returned tag → tag = c
  handed : ∀ hd ∈ s.pool.handles, ∀ stream, s.phase hd.closer = .connecting stream →
    (s.conns hd.res.ptr).unread = []

/-- If the step ends the call, no response is left: a write that fails has not reached the server,
a read that fails had nothing to read, and the callback throws at the last piece only. -/
def ReadsOut (conn : HttpConnection) : Outcome → Prop
  | .write (.timeout reached) | .write (.failed _ reached) => reached = false
  | .read .timeout | .read (.failed _) => conn.unread = []
  | .readHeader (.failed _) | .readChunk (.failed _) => conn.unread = []
  | .readChunk (.chunk last throws) => last = true ∨ throws = none
  | _ => True

instance (conn : HttpConnection) : DecidablePred (ReadsOut conn)
  | .write (.timeout reached) | .write (.failed _ reached) =>
    inferInstanceAs (Decidable (reached = false))
  | .read .timeout | .read (.failed _) => inferInstanceAs (Decidable (conn.unread = []))
  | .readHeader (.failed _) | .readChunk (.failed _) =>
    inferInstanceAs (Decidable (conn.unread = []))
  | .readChunk (.chunk last throws) =>
    inferInstanceAs (Decidable (last = true ∨ throws = none))
  | .setUp _ | .write (.unbuilt _) | .write (.ok _) | .read (.complete _)
  | .read (.undecodable ..) | .readHeader (.header ..) | .readHeader .endOfStream
  | .readChunk .endOfStream => isTrue trivial

/-- What is still to be read from the connection of the call `c`. -/
def OwnUnread (c : ℕ) (phase : Phase) (conn : HttpConnection) : Prop :=
  match phase with
  | .connecting _ | .writing _ => conn.unread = []
  | .reading | .readingHeader => conn.unread = [] ∨ conn.unread = [c]
  | .readingBody tag => conn.unread = tag.toList ∧ ∀ d ∈ tag, d = c
  | _ => True

/-- Idle connections have nothing to be read, lent ones at most the response to the call. -/
def readOut : Conditions where
  Idle conn := conn.unread = []
  Held := OwnUnread
  Returns c tag := tag = c
  Fit := ReadsOut

section Steps

variable {target : Target} {c : ℕ} {conn conn' : HttpConnection} {phase : Phase}

/-- A set-up makes nothing to read. -/
lemma SetsUp.unread_eq {env : SetUp} {e : Option HttpError} (h : SetsUp target conn env conn' e)
    (hunread : conn.unread = []) : conn'.unread = [] := by
  cases h with
  | reused _ hsock =>
    rw [HttpConnection.unread, hsock]
    exact hunread
  | unresolved => exact hunread
  | @unconnected _ eps _ _ _ _ hsock =>
    rw [HttpConnection.unread, hsock]
    cases connectEnd eps env.connects <;> rfl
  | unfinished _ _ _ _ _ hsock | established _ hsock =>
    rw [HttpConnection.unread, hsock]
    rfl

/-- After a write only the response to its own request is to be read. -/
lemma unread_request_own (h : conn.unread = []) (reached : Bool) :
    (conn.modify (Sock.request c reached)).unread = [] ∨
      (conn.modify (Sock.request c reached)).unread = [c] := by
  have := conn.unread_request c reached
  rwa [h] at this

/-- The response that is there is the own one, and the last. -/
lemma own_of_head? {tag : ℕ} (h : conn.unread = [] ∨ conn.unread = [c])
    (htag : conn.unread.head? = some tag) : tag = c ∧ conn.unread = [tag] := by
  rcases h with h | h
  · simp [h] at htag
  · rw [h] at htag
    obtain rfl : c = tag := by simpa using htag
    exact ⟨rfl, h⟩

/-- **A step of a call on its connection** leaves nothing to be read but its own response.

**Proof sketch.** One case for each action. A call writes one request and reads one response, which
is its own; where it gives up in between, the condition says that the server will not answer, or
that the socket is dropped. -/
theorem act_readOut {outcome : Outcome} {phase' : Phase} (h : OwnUnread c phase conn)
    (hact : act target c conn phase outcome = some (conn', phase')) :
    readOut.After c (ReadsOut conn outcome) conn' phase' := by
  cases acts_of_act hact with
  | setUp hset => exact hset.unread_eq h
  | setUpThrows hset => exact fun _ => hset.unread_eq h
  | unbuilt what => exact fun _ => h
  | @written stream reached =>
    cases stream with
    | true => exact unread_request_own h reached
    | false => exact unread_request_own h reached
  | writeTimeout reached | writeFailed what reached =>
    -- the request must not have reached the server
    rintro rfl
    exact (conn.unread_request_false c).trans h
  | complete htag | headerOnly htag =>
    obtain ⟨rfl, hunread⟩ := own_of_head? h htag
    refine ⟨rfl, fun _ => ?_⟩
    simp [readOut, hunread]
  | undecodable what htag =>
    obtain ⟨rfl, hunread⟩ := own_of_head? h htag
    intro _
    simp [readOut, hunread]
  | readTimeout | readFailed | headerFailed | bodyFailed => exact id
  | header htag =>
    obtain ⟨rfl, hunread⟩ := own_of_head? h htag
    exact ⟨by simp [hunread], by simp⟩
  | noHeader => exact ⟨by simp, by simp⟩
  | chunk tag => exact h
  | lastChunk tag =>
    obtain ⟨hunread, htag⟩ := h
    refine ⟨htag tag rfl, fun _ => ?_⟩
    simp [readOut, hunread]
  | callback tag last what =>
    intro hlast
    obtain rfl : last = true := hlast.resolve_right (by simp)
    simp [readOut, h.1]
  | noChunk tag => exact h

end Steps

/-- Read-out connections as a discipline. -/
def responses (target : Target) : Discipline target where
  toConditions := readOut
  held_new _ _ _ := rfl
  held_of_idle _ _ _ h := h
  act_after := act_readOut

instance (target : Target) (conn : HttpConnection) (outcome : Outcome) :
    Decidable ((responses target).Fit conn outcome) :=
  inferInstanceAs (Decidable (ReadsOut conn outcome))

/-- **Responses are matched** in every run in which each step that ends a call leaves no response
to be read, or ends on a connection that the pool deletes.

**Proof sketch.** Between two calls a connection is idle, and what is idle has nothing to be read:
a new connection has no socket, and the steps that put a connection back into the queue meet the
condition. While a call has a connection nobody else writes to it or reads from it, so the only
response that can come is its own. -/
theorem responses_matched {target : Target} {timeout : ℤ} {maxConcurrency : ℕ} {es : List Event}
    {s : State}
    (hends : (system target timeout maxConcurrency).Along (responses target).EndsWell es)
    (hrun : (system target timeout maxConcurrency).run es = some s) : Matched s := by
  have h := Discipline.run_kept hends hrun
  refine ⟨h.returned, fun hd hmem stream hphase => ?_⟩
  have hheld := h.held hd hmem
  rwa [hphase] at hheld

/-- The set-up of a connection to a server with one address. -/
def plainSetUp : SetUp := ⟨0, .endpoints [1], [.success], none, .success⟩

/-- A stream that is read to its end, a write that fails before the server has seen anything, and
a request on the same connection. -/
theorem responses_matched_after_stream : ∃ s,
    (system ⟨false, "localhost", "80"⟩ 1000 1).run
      [.call true .ok 0, .act 0 (.setUp plainSetUp) true, .act 0 (.write (.ok true)) true,
        .act 0 (.readHeader (.header false false)) true,
        .act 0 (.readChunk (.chunk false none)) true, .act 0 (.readChunk (.chunk true none)) true,
        .call false .ok 1, .act 1 (.setUp plainSetUp) true,
        .act 1 (.write (.failed "reset" false)) true, .call false .ok 2,
        .act 2 (.setUp plainSetUp) true, .act 2 (.write (.ok true)) true,
        .act 2 (.read (.complete false)) true] = some s ∧ Matched s := by
  have hrun : (system ⟨false, "localhost", "80"⟩ 1000 1).run
      [.call true .ok 0, .act 0 (.setUp plainSetUp) true, .act 0 (.write (.ok true)) true,
        .act 0 (.readHeader (.header false false)) true,
        .act 0 (.readChunk (.chunk false none)) true, .act 0 (.readChunk (.chunk true none)) true,
        .call false .ok 1, .act 1 (.setUp plainSetUp) true,
        .act 1 (.write (.failed "reset" false)) true, .call false .ok 2,
        .act 2 (.setUp plainSetUp) true, .act 2 (.write (.ok true)) true,
        .act 2 (.read (.complete false)) true] = some _ := rfl
  exact ⟨_, hrun, responses_matched (by decide) hrun⟩

/-- A read times out; the next request is sent on the same connection and its call returns the
response to the first one. -/
theorem response_not_matched : ∃ s,
    (system ⟨false, "localhost", "80"⟩ 1000 1).run
      [.call false .ok 0, .act 0 (.setUp plainSetUp) true, .act 0 (.write (.ok true)) true,
        .act 0 (.read .timeout) true, .call false .ok 1, .act 1 (.setUp plainSetUp) true,
        .act 1 (.write (.ok true)) true, .act 1 (.read (.complete false)) true] = some s ∧
      s.phase 1 = .returned 0 ∧ ¬ Matched s := by
  refine ⟨_, rfl, rfl, fun h => ?_⟩
  have hown : 0 = 1 := h.own 1 0 rfl
  omega

end HkuUtils.HttpClient
