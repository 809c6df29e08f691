import HkuUtils.Locks
import HkuUtils.Node.Client

set_option relaxedAutoImplicit false
set_option autoImplicit false

/-!
# The requests of a node client and their replies

The lock of `post` and `dial` keeps a request and its reply together, whatever the calls of `close`
do without it.

## Main definitions

* `HkuUtils.Node.Client.Matches` — a result that is the reply to its own request.
* `HkuUtils.Node.Client.Knows` — what the thread knows that has the lock.

## Main results

* `HkuUtils.Node.Client.discipline` — what is done with the lock and without it.
* `HkuUtils.Node.Client.results_match` — **each result is the reply to its own request.**
* `HkuUtils.Node.Client.messages_accounted` — **where the messages are.**
-/

namespace HkuUtils.Node.Client

open Transition Threads

variable {L : Library} {serverAddr : String} {s t : Threads.State Shared Stage}
  {es : List (Threads.Event Action Change)} {m m' : Shared}

/-! ## The lock -/

/-- The thread has `m_mutex`. -/
def Stage.holds : Stage → Bool
  | .idle | .dialLock | .close | .clear _ | .postLock _ => false
  | _ => true

variable (L) in
/-- A result that is the reply to its own request. -/
def Matches (sent : List (List UInt8)) (replies : List (ℕ × List UInt8)) (r : Result) : Prop :=
  sent[r.sent]? = some (L.toMsgpack r.req) ∧
    ∃ body, (r.sent, body) ∈ replies ∧ L.fromMsgpack body = .ok r.res

variable (L) in
/-- The replies on the sockets and the results are in order. -/
structure Shared.Ok (m : Shared) : Prop where
  reply : ∀ (q : ℕ) (k : Socket) (n : ℕ) (body : List UInt8), m.sockets[q]? = some k →
    k.outstanding = some n → k.reply = some body → (n, body) ∈ m.replies
  results : ∀ r ∈ m.results, Matches L m.sent m.replies r
  nodup : (m.results.map Result.sent).Nodup

/-- The request `n`, whose reply no call has returned. -/
def Pending (m : Shared) (n : ℕ) (body : List UInt8) : Prop :=
  m.sent[n]? = some body ∧ ∀ r ∈ m.results, r.sent ≠ n

variable (L) in
/-- What the thread knows that has the lock. Nobody else sends with the client meanwhile, so the
request that it sent last is its own. -/
def Knows (m : Shared) : Stage → Prop
  | .dialClear => m.openSocket = none
  | .dialOpen => m.connected = false
  | .postSend req msg => msg.body = L.toMsgpack req
  | .postRecv req n =>
    Pending m n (L.toMsgpack req) ∧ ∀ k ∈ m.openSocket, k.outstanding = some n
  | .postDecode req n body => Pending m n (L.toMsgpack req) ∧ (n, body) ∈ m.replies
  | .postDrop result | .postUnlock result =>
    ∀ r ∈ result, Matches L m.sent m.replies r ∧ ∀ r' ∈ m.results, r'.sent ≠ r.sent
  | _ => True

/-! ## Sockets -/

/-- The current socket. -/
lemma openSocket_eq_some {k : Socket} :
    m.openSocket = some k ↔ m.sockets[m.socket]? = some k ∧ k.isOpen = true := by
  rw [Shared.openSocket, Option.filter_eq_some_iff]

/-- A socket after a change to one of them. -/
lemma exists_of_modify {ks : List Socket} {p q : ℕ} {f : Socket → Socket} {k : Socket}
    (h : (ks.modify p f)[q]? = some k) :
    ∃ k₀, ks[q]? = some k₀ ∧ k = if p = q then f k₀ else k₀ := by
  rw [List.getElem?_modify] at h
  obtain ⟨k₀, hk₀, rfl⟩ := Option.map_eq_some_iff.1 h
  exact ⟨k₀, hk₀, rfl⟩

/-- The current socket, after it was closed. -/
lemma openSocket_nngClose : (m.nngClose m.socket).openSocket = none := by
  apply Option.eq_none_iff_forall_not_mem.2
  intro k hk
  obtain ⟨hsome, hopen⟩ := openSocket_eq_some.1 hk
  obtain ⟨k₀, -, rfl⟩ := exists_of_modify hsome
  rw [if_pos (show m.socket = (m.nngClose m.socket).socket from rfl)] at hopen
  exact absurd hopen (by simp)

/-- Closing a socket changes no other member of it. -/
lemma exists_of_nngClose {p q : ℕ} {k : Socket} (h : (m.nngClose p).sockets[q]? = some k) :
    ∃ k₀, m.sockets[q]? = some k₀ ∧ k.outstanding = k₀.outstanding ∧ k.reply = k₀.reply ∧
      (k.isOpen = true → k₀.isOpen = true) := by
  obtain ⟨k₀, hk₀, rfl⟩ := exists_of_modify h
  refine ⟨k₀, hk₀, ?_⟩
  split <;> simp

/-- Connecting a socket changes no other member of it. -/
lemma exists_of_nngDial {q : ℕ} {k : Socket} (h : m.nngDial.sockets[q]? = some k) :
    ∃ k₀, m.sockets[q]? = some k₀ ∧ k.outstanding = k₀.outstanding ∧ k.reply = k₀.reply ∧
      k.isOpen = k₀.isOpen := by
  obtain ⟨k₀, hk₀, rfl⟩ := exists_of_modify h
  refine ⟨k₀, hk₀, ?_⟩
  split <;> simp

/-! ## Requests and replies -/

/-- A match stays when more is sent and more replies come. -/
lemma Matches.mono {sent sent' : List (List UInt8)} {replies replies' : List (ℕ × List UInt8)}
    {r : Result} (h : Matches L sent replies r) (hsent : sent <+: sent')
    (hreplies : replies ⊆ replies') : Matches L sent' replies' r := by
  obtain ⟨hreq, body, hmem, hres⟩ := h
  refine ⟨?_, body, hreplies hmem, hres⟩
  obtain ⟨more, rfl⟩ := hsent
  rw [List.getElem?_append_left (List.getElem?_eq_some_iff.1 hreq).1]
  exact hreq

/-- The order stays when sockets are closed, connected or opened. -/
lemma Shared.Ok.of_sockets (h : m.Ok L) (hsent : m'.sent = m.sent)
    (hreplies : m'.replies = m.replies) (hresults : m'.results = m.results)
    (hsockets : ∀ (q : ℕ) (k : Socket), m'.sockets[q]? = some k → k.reply = none ∨
      ∃ k₀, m.sockets[q]? = some k₀ ∧ k.outstanding = k₀.outstanding ∧ k.reply = k₀.reply) :
    m'.Ok L where
  reply q k n body hk hn hbody := by
    rw [hreplies]
    rcases hsockets q k hk with hnone | ⟨k₀, hk₀, hout, hrep⟩
    · rw [hnone] at hbody
      exact absurd hbody (by simp)
    · exact h.reply q k₀ n body hk₀ (hout ▸ hn) (hrep ▸ hbody)
  results r hr := by
    rw [hsent, hreplies]
    exact h.results r (hresults ▸ hr)
  nodup := hresults ▸ h.nodup

/-- The order does not depend on the other members. -/
lemma Shared.Ok.congr (h : m.Ok L) (hsent : m'.sent = m.sent) (hreplies : m'.replies = m.replies)
    (hresults : m'.results = m.results) (hsockets : m'.sockets = m.sockets) : m'.Ok L := by
  apply h.of_sockets hsent hreplies hresults
  intro q k hk
  exact .inr ⟨k, hsockets ▸ hk, rfl, rfl⟩

/-- Closing a socket keeps what holds of the replies. -/
lemma Shared.Ok.nngClose (h : m.Ok L) (q : ℕ) : (m.nngClose q).Ok L := by
  refine h.of_sockets rfl rfl rfl fun p k hk => ?_
  obtain ⟨k₀, hk₀, hout, hrep, -⟩ := exists_of_nngClose hk
  exact .inr ⟨k₀, hk₀, hout, hrep⟩

/-- Connecting a socket keeps what holds of the replies. -/
lemma Shared.Ok.nngDial (h : m.Ok L) : m.nngDial.Ok L := by
  refine h.of_sockets rfl rfl rfl fun p k hk => ?_
  obtain ⟨k₀, hk₀, hout, hrep, -⟩ := exists_of_nngDial hk
  exact .inr ⟨k₀, hk₀, hout, hrep⟩

/-- Opening a socket keeps what holds of the replies. -/
lemma Shared.Ok.nngOpen (h : m.Ok L) : m.nngOpen.Ok L := by
  refine h.of_sockets rfl rfl rfl fun p k hk => ?_
  change (m.sockets ++ [_])[p]? = some k at hk
  rw [List.getElem?_append] at hk
  split at hk
  next => exact .inr ⟨k, hk, rfl, rfl⟩
  next =>
    obtain rfl := List.mem_singleton.1 (List.mem_of_getElem? hk)
    exact .inl rfl

/-- A request has no reply when it is sent. -/
lemma Shared.Ok.nngSend (h : m.Ok L) (body : List UInt8) : (m.nngSend body).Ok L where
  reply q k n b hk hn hb := by
    obtain ⟨k₀, hk₀, rfl⟩ := exists_of_modify hk
    split at hn <;> simp_all
    exact h.reply q k₀ n b hk₀ hn hb
  results r hr := (h.results r hr).mono (List.prefix_append _ _) (List.Subset.refl _)
  nodup := h.nodup

/-- Receiving a message keeps what holds of the replies. -/
lemma Shared.Ok.nngRecv (h : m.Ok L) : m.nngRecv.Ok L := by
  refine h.of_sockets rfl rfl rfl fun p k hk => ?_
  obtain ⟨k₀, hk₀, rfl⟩ := exists_of_modify hk
  split
  next => exact .inl rfl
  next => exact .inr ⟨k₀, hk₀, rfl, rfl⟩

/-! ## Without the lock -/

/-- What is done without the lock. -/
structure Rely (m m' : Shared) : Prop where
  sent : m'.sent = m.sent
  results : m'.results = m.results
  replies : m.replies ⊆ m'.replies
  connected : m.connected = false → m'.connected = false
  socket : ∀ k ∈ m'.openSocket, ∃ k₀ ∈ m.openSocket, k.outstanding = k₀.outstanding

/-- What the thread knows that has the lock does not depend on what is done without it.

**Proof sketch.** One case for each stage. What was sent and answered stays so, and a socket is
opened by nobody else. -/
lemma Rely.knows (hrely : Rely m m') {l : Stage} (h : Knows L m l) : Knows L m' l := by
  obtain ⟨hsent, hresults, hreplies, hconnected, hsocket⟩ := hrely
  have hpending : ∀ {n body}, Pending m n body → Pending m' n body := by
    intro n body hp
    rwa [Pending, hsent, hresults]
  cases l with
  | dialClear =>
    apply Option.eq_none_iff_forall_not_mem.2
    intro k hk
    obtain ⟨k₀, hk₀, -⟩ := hsocket k hk
    rw [show m.openSocket = none from h] at hk₀
    exact absurd hk₀ (by simp)
  | dialOpen => exact hconnected h
  | postRecv req n =>
    refine ⟨hpending h.1, fun k hk => ?_⟩
    obtain ⟨k₀, hk₀, hout⟩ := hsocket k hk
    exact hout.trans (h.2 k₀ hk₀)
  | postDecode req n body => exact ⟨hpending h.1, hreplies h.2⟩
  | postDrop result | postUnlock result =>
    intro r hr
    obtain ⟨hmatches, hfresh⟩ := h r hr
    exact ⟨hmatches.mono (hsent ▸ List.prefix_refl _) hreplies, hresults ▸ hfresh⟩
  | _ => exact h

/-- `close` of a socket. -/
lemma rely_nngClose : Rely m (m.nngClose m.socket) where
  sent := rfl
  results := rfl
  replies := List.Subset.refl _
  connected h := h
  socket k hk := by
    rw [openSocket_nngClose] at hk
    exact absurd hk (by simp)

/-- `close` resets `m_connected`. -/
lemma rely_clear : Rely m { m with connected := false } where
  sent := rfl
  results := rfl
  replies := List.Subset.refl _
  connected _ := rfl
  socket k hk := ⟨k, hk, rfl⟩

/-! ## Changes -/

/-- The ways in which something happens outside of the calls. -/
inductive Changes (m : Shared) : Change → Shared → Prop where
  | reply {q n : ℕ} {k : Socket} (hk : m.sockets[q]? = some k) (hopen : k.isOpen = true)
    (hn : k.outstanding = some n) (body : List UInt8) :
    Changes m (.reply q body)
      { m with
        replies := (n, body) :: m.replies
        sockets := m.sockets.modify q fun s => { s with reply := some body } }
  | setServerAddr (serverAddr : String) :
    Changes m (.setServerAddr serverAddr) { m with serverAddr := serverAddr }

/-- **Inversion of a change.** -/
theorem changes_of_change {c : Change} (h : change m c = some m') : Changes m c m' := by
  cases c with
  | reply q body =>
    obtain ⟨k, hk, h⟩ := Option.bind_eq_some_iff.1 h
    split at h
    next hopen hn hreply => exact Option.some.inj h ▸ .reply hk hopen hn body
    next => exact absurd h (by simp)
  | setServerAddr serverAddr => exact Option.some.inj h ▸ .setServerAddr serverAddr

/-- A reply that comes is recorded.

**Proof sketch.** On this socket the reply is the one that is recorded; on the others, and in the
results, nothing changes. -/
lemma Shared.Ok.reply_comes (h : m.Ok L) {q n : ℕ} {k : Socket} (hk : m.sockets[q]? = some k)
    (hn : k.outstanding = some n) (body : List UInt8) :
    Shared.Ok L { m with
      replies := (n, body) :: m.replies
      sockets := m.sockets.modify q fun s => { s with reply := some body } } where
  reply p k' n' b hk' hn' hb := by
    obtain ⟨k₀, hk₀, rfl⟩ := exists_of_modify hk'
    split at hn'
    next hqp =>
      subst hqp
      obtain rfl := Option.some.inj (hk.symm.trans hk₀)
      rw [if_pos rfl] at hb
      obtain rfl := Option.some.inj (hn.symm.trans hn')
      obtain rfl := Option.some.inj hb
      exact List.mem_cons_self
    next hqp =>
      rw [if_neg hqp] at hb
      exact List.mem_cons_of_mem _ (h.reply p k₀ n' b hk₀ hn' hb)
  results r hr := (h.results r hr).mono (List.prefix_refl _) (List.subset_cons_self _ _)
  nodup := h.nodup

/-- A reply does not change which request a socket waits for. -/
lemma rely_reply (q n : ℕ) (body : List UInt8) :
    Rely m { m with
      replies := (n, body) :: m.replies
      sockets := m.sockets.modify q fun s => { s with reply := some body } } where
  sent := rfl
  results := rfl
  replies := List.subset_cons_self _ _
  connected h := h
  socket k hk := by
    obtain ⟨hsome, hopen⟩ := openSocket_eq_some.1 hk
    obtain ⟨k₀, hk₀, rfl⟩ := exists_of_modify hsome
    refine ⟨k₀, openSocket_eq_some.2 ⟨hk₀, ?_⟩, ?_⟩
    · split at hopen <;> exact hopen
    · split <;> rfl

/-! ## The discipline -/

/-- A thread that takes a step of its own knows what it has to.

**Proof sketch.** One case for each action. What a thread knows while it has the mutex is about its
own request and the sockets that are open: after a send, the request is the last one sent and no
reply to a later one is on the way; a received reply is to this request. -/
lemma own_step {l l' : Stage} {a : Action} (hact : act L m l a = some (m', l')) (h : m.Ok L)
    (hknows : l.holds = true → Knows L m l) : m'.Ok L ∧ (l'.holds = true → Knows L m' l') := by
  cases acts_of_act hact with
  | dialNotConnected hconnected => exact ⟨h, fun _ => hconnected⟩
  | dialClose => exact ⟨h.nngClose _, fun _ => openSocket_nngClose⟩
  | dialClear => exact ⟨h.congr rfl rfl rfl rfl, fun _ => rfl⟩
  | dialOpen => exact ⟨h.nngOpen, fun _ => trivial⟩
  | dialConnect hs => exact ⟨h.nngDial, fun _ => trivial⟩
  | dialDrop | close => exact ⟨h.nngClose _, fun _ => trivial⟩
  | postNotConnected | postNotAllocated | postNotReceived => exact ⟨h, fun _ _ hr => nomatch hr⟩
  | postEncode req => exact ⟨h, fun _ => rfl⟩
  | postSend hs req msg =>
    have hmsg : msg.body = L.toMsgpack req := hknows rfl
    refine ⟨h.nngSend _, fun _ => ⟨⟨?_, fun r hr => ?_⟩, fun k hk => ?_⟩⟩
    · change (m.sent ++ [msg.body])[m.sent.length]? = _
      rw [hmsg, List.getElem?_concat_length]
    · have hlt := (List.getElem?_eq_some_iff.1 (h.results r hr).1).1
      omega
    · obtain ⟨hsome, -⟩ := openSocket_eq_some.1 hk
      obtain ⟨k₀, -, rfl⟩ := exists_of_modify hsome
      rw [if_pos (show m.socket = (m.nngSend msg.body).socket from rfl)]
  | postFree => exact ⟨h.congr rfl rfl rfl rfl, fun _ _ hr => nomatch hr⟩
  | postRecv hbody now req n =>
    obtain ⟨k, hk, hbody⟩ := Option.bind_eq_some_iff.1 hbody
    obtain ⟨hpending, hout⟩ := hknows rfl
    refine ⟨h.nngRecv.congr rfl rfl rfl rfl, fun _ => ⟨hpending, ?_⟩⟩
    exact h.reply _ k _ _ (openSocket_eq_some.1 hk).1 (hout k hk) hbody
  | postDecode hres req n =>
    obtain ⟨hpending, hreply⟩ := hknows rfl
    refine ⟨h, fun _ r hr => ?_⟩
    obtain rfl := Option.some.inj hr
    exact ⟨⟨hpending.1, _, hreply, hres⟩, hpending.2⟩
  | postNotDecoded => exact ⟨h, fun _ _ hr => nomatch hr⟩
  | postDrop result => exact ⟨h.congr rfl rfl rfl rfl, fun _ => hknows rfl⟩
  | postUnlock result =>
    refine ⟨⟨h.reply, fun r hr => ?_, ?_⟩, fun hholds => nomatch hholds⟩
    · rcases List.mem_append.1 hr with hr | hr
      · exact (hknows rfl r (Option.mem_toList.1 hr)).1
      · exact h.results r hr
    · cases result with
      | none => exact h.nodup
      | some r =>
        change (r.sent :: m.results.map Result.sent).Nodup
        refine List.nodup_cons.2 ⟨fun hmem => ?_, h.nodup⟩
        obtain ⟨r', hr', hsent⟩ := List.mem_map.1 hmem
        exact (hknows rfl r rfl).2 r' hr' hsent
  | _ => exact ⟨h.congr rfl rfl rfl rfl, fun _ => trivial⟩

/-- **The lock of the client.**

**Proof sketch.** The fields are proved one by one, by cases on the action. Without the lock a
thread only closes the socket or forgets it, and replies come by themselves. -/
theorem discipline (L : Library) :
    Locks.Discipline (program L) Shared.mutex Stage.holds (Shared.Ok L) (Knows L) where
  start := rfl
  lock hact hlocked := by
    cases acts_of_act hact with
    | dialLock hm | postLock hm => simp [Stage.holds, hm]
    | dialUnlock | postUnlock => simp [Stage.holds, hlocked rfl]
    | _ => rfl
  own hact h hknows := own_step hact h hknows
  other hact h hl hl' hk hknows := by
    cases acts_of_act hact with
    | close => exact rely_nngClose.knows hknows
    | clear => exact rely_clear.knows hknows
    | dial | post | closeConnected | closeNotConnected => exact hknows
    | _ => simp [Stage.holds] at hl hl'
  env he h := by
    cases changes_of_change he with
    | reply hk hopen hn body =>
      exact ⟨rfl, h.reply_comes hk hn body, fun l _ hl => (rely_reply _ _ body).knows hl⟩
    | setServerAddr =>
      refine ⟨rfl, h.congr rfl rfl rfl rfl, fun l _ hl => Rely.knows ?_ hl⟩
      exact ⟨rfl, rfl, List.Subset.refl _, id, fun k hk => ⟨k, hk, rfl⟩⟩

/-- In every interleaving the lock has at most one holder, which knows what it has to. -/
lemma protected_of_run (hrun : (system L serverAddr).run es = some s) :
    Locks.Protected Shared.mutex Stage.holds (Shared.Ok L) (Knows L) s :=
  Locks.run_locked (discipline L) ⟨by simp [Shared.init], by simp [Shared.init],
    by simp [Shared.init]⟩ rfl hrun

/-! ## Results -/

/-- **Each result is the reply to its own request.** In every interleaving of any number of calls
of `post`, `dial` and `close`, with replies that come whenever they do, the calls of `post` that
returned true have each sent a request of their own, and what they returned is decoded from a reply
to that request.

**Proof sketch.** Both are invariants of what the lock protects, so this is the rule for locks,
with `discipline`. -/
theorem results_match (hrun : (system L serverAddr).run es = some s) :
    (s.shared.results.map Result.sent).Nodup ∧
      ∀ r ∈ s.shared.results, Matches L s.shared.sent s.shared.replies r := by
  obtain ⟨-, hok, -⟩ := protected_of_run hrun
  exact ⟨hok.nodup, hok.results⟩

/-- Small numbers, as MessagePack has them. -/
def smallNumbers : Library where
  fromMsgpack
    | [b] => .ok (.integer b.toNat)
    | _ => .error "parse_error.112"
  toMsgpack
    | .integer n => [UInt8.ofNat n.toNat]
    | _ => []
  toInt _ := 0

/-- A thread connects the client. -/
def dialRun (i : ℕ) : List (Threads.Event Action Change) :=
  [.act i .dial, .act i .next, .act i .next, .act i (.ends true), .act i .next, .act i (.ends true),
    .act i .next]

/-- A thread posts a number, up to the point where it waits for the reply. -/
def sendRun (i : ℕ) (n : ℤ) : List (Threads.Event Action Change) :=
  [.act i (.post (.integer n)), .act i .next, .act i .next, .act i (.ends true),
    .act i (.ends true), .act i (.ends true)]

/-- A thread receives a reply. -/
def receiveRun (i q : ℕ) (body : List UInt8) : List (Threads.Event Action Change) :=
  [.env (.reply q body), .act i (.received 0), .act i .next, .act i .next, .act i .next]

/-- The first request gets no reply, the second one does. -/
def twoPosts : List (Threads.Event Action Change) :=
  [.spawn, .spawn] ++ dialRun 0 ++ sendRun 0 3 ++ [.act 0 (.ends false), .act 0 .next] ++
    sendRun 1 4 ++ receiveRun 1 0 [5]

/-- The result is that of the second request. -/
theorem results_match_two :
    ∃ s, (system smallNumbers "tcp://a").run twoPosts = some s ∧
      s.shared.results.map Result.sent = [1] ∧
      (s.shared.results.map Result.sent).Nodup ∧
      ∀ r ∈ s.shared.results, Matches smallNumbers s.shared.sent s.shared.replies r :=
  ⟨((system smallNumbers "tcp://a").run twoPosts).get (by decide), (Option.some_get _).symm,
    by decide, results_match (Option.some_get _).symm⟩

/-! ## Messages -/

/-- The thread has a message to free. -/
def Stage.hasMessage : Stage → Bool
  | .postEncode _ | .postSend .. | .postFree | .postDecode .. | .postDrop _ => true
  | _ => false

/-- How many there are of a kind. -/
lemma sum_toNat (p : Stage → Bool) (ls : List Stage) :
    (ls.map fun l => ((p l).toNat : ℤ)).sum = (ls.countP p : ℤ) := by
  induction ls with
  | nil => rfl
  | cons l ls ih =>
    rw [List.map_cons, List.sum_cons, ih, List.countP_cons]
    cases p l <;> simp
    omega

/-- **Where the messages are.** In every interleaving the client was given as many messages as it
freed, as it sent and as the calls have which are not over, taken together and however the calls
end.

These are counts, and a call has one message at most: a message that leaks, is freed twice or is
freed after it was sent breaks the balance at the step where that happens.

**Proof sketch.** Each action of a call moves its own message between the three places, or takes one
from the library; what others do in between touches none. -/
theorem messages_accounted (hrun : (system L serverAddr).run es = some s) :
    s.shared.taken =
      s.shared.freed + s.shared.sent.length + s.threads.countP Stage.hasMessage := by
  have hsum := Program.run_sum
    (fun m => (m.taken : ℤ) - m.freed - m.sent.length) (fun l => (l.hasMessage.toNat : ℤ))
    (by rfl) (by rfl) ?_ ?_ hrun
  · rw [sum_toNat] at hsum
    omega
  · intro m l a m' l' hact
    cases acts_of_act hact <;>
      simp [Stage.hasMessage, Shared.nngClose, Shared.nngOpen, Shared.nngDial, Shared.nngSend,
        Shared.nngRecv] <;> omega
  · intro m c m' hchange
    cases changes_of_change hchange <;> rfl

/-- One message was given up, two were sent and one was received. -/
theorem messages_accounted_two :
    ∃ s, (system smallNumbers "tcp://a").run (twoPosts ++ [.act 1 (.post .null), .act 1 .next,
        .act 1 .next, .act 1 (.ends true), .act 1 (.ends false)]) = some s ∧
      s.shared.taken = 4 ∧ s.shared.sent.length = 2 ∧
      s.shared.taken =
        s.shared.freed + s.shared.sent.length + s.threads.countP Stage.hasMessage :=
  ⟨((system smallNumbers "tcp://a").run (twoPosts ++ [.act 1 (.post .null), .act 1 .next,
      .act 1 .next, .act 1 (.ends true), .act 1 (.ends false)])).get (by decide),
    (Option.some_get _).symm, by decide, by decide, messages_accounted (Option.some_get _).symm⟩

end HkuUtils.Node.Client
