import HkuUtils.Node.ClientRuns

set_option relaxedAutoImplicit false
set_option autoImplicit false

/-!
# The sockets of a node client

`close` closes the socket and resets `m_connected` without the lock under which `dial` opens the
next socket and sets `m_connected`. So after a call of `close` that is slower than a call of `dial`
the new socket is open though the client counts as closed, and the next call of `dial` opens another
one in its place.

## Main definitions

* `HkuUtils.Node.Client.Kept` — no open socket is lost.
* `HkuUtils.Node.Client.Keeps` — what a step must not do.

## Main results

* `HkuUtils.Node.Client.kept_iff` — **when no socket is lost.**
-/

namespace HkuUtils.Node.Client

open Transition Threads

variable {L : Library} {serverAddr : String} {s t : Threads.State Shared Stage}
  {es : List (Threads.Event Action Change)} {m m' : Shared}

/-- A call of `dial` that has opened a socket and will close it if it cannot connect it. -/
def Stage.inCharge : Stage → Bool
  | .dialMark | .dialConnect | .dialUnmark | .dialDrop => true
  | _ => false

/-- No open socket is lost: it is the current one, and the client is connected or `dial` is in
charge of it. -/
def Kept (s : Threads.State Shared Stage) : Prop :=
  ∀ (q : ℕ) (k : Socket), s.shared.sockets[q]? = some k → k.isOpen = true →
    q = s.shared.socket ∧
      (s.shared.connected = true ∨ ∃ l ∈ s.threads, l.inCharge = true)

/-- What a step must not do: `close` resets `m_connected` only if the current socket is closed or
`dial` is in charge of it, and `dial` returns true only if `m_connected` still is. -/
def Keeps (s : Threads.State Shared Stage) : Threads.Event Action Change → Prop
  | .act i .next =>
    match s.threads[i]? with
    | some (.clear _) => s.shared.openSocket = none ∨ ∃ l ∈ s.threads, l.inCharge = true
    | _ => True
  | .act i (.ends true) =>
    match s.threads[i]? with
    | some .dialConnect => s.shared.connected = true
    | _ => True
  | _ => True

/-- A thread in charge has the lock. -/
lemma Stage.holds_of_inCharge {l : Stage} (h : l.inCharge = true) : l.holds = true := by
  cases l with
  | idle | dialLock | close | clear | postLock => exact h
  | _ => rfl

/-- Without a current socket no socket is open. -/
lemma Kept.not_isOpen (h : Kept s) (hnone : s.shared.openSocket = none) {q : ℕ} {k : Socket}
    (hk : s.shared.sockets[q]? = some k) : k.isOpen = false := by
  apply Bool.eq_false_of_not_eq_true
  intro hopen
  obtain ⟨rfl, -⟩ := h q k hk hopen
  have := openSocket_eq_some.2 ⟨hk, hopen⟩
  rw [hnone] at this
  exact absurd this (by simp)

/-- A step of a thread that is in charge only if it stays so keeps the open sockets, if no other
socket is open and the client stays connected.

**Proof sketch.** A socket that is open was open before, so it is the one of the client, and the
client is connected, or a thread was in charge of it and is so still. -/
lemma Kept.act (h : Kept s) {i : ℕ} {l l' : Stage} (hl : s.threads[i]? = some l)
    (hsocket : m'.socket = s.shared.socket)
    (hopen : ∀ (q : ℕ) (k : Socket), m'.sockets[q]? = some k → k.isOpen = true →
      ∃ k₀ : Socket, s.shared.sockets[q]? = some k₀ ∧ k₀.isOpen = true)
    (hconnected : s.shared.connected = true → m'.connected = true ∨ l'.inCharge = true)
    (hcharge : l.inCharge = true → m'.connected = true ∨ l'.inCharge = true) :
    Kept ⟨m', s.threads.set i l'⟩ := by
  intro q k hk hkopen
  obtain ⟨k₀, hk₀, hopen₀⟩ := hopen q k hk hkopen
  obtain ⟨rfl, hor⟩ := h q k₀ hk₀ hopen₀
  have hself : m'.connected = true ∨ l'.inCharge = true →
      m'.connected = true ∨ ∃ x ∈ s.threads.set i l', x.inCharge = true :=
    fun hor => hor.imp id fun hin => ⟨l', mem_set_self hl l', hin⟩
  refine ⟨hsocket.symm, ?_⟩
  rcases hor with hconn | ⟨x, hx, hin⟩
  · exact hself (hconnected hconn)
  · by_cases hxl : x = l
    · subst hxl
      exact hself (hcharge hin)
    · exact .inr ⟨x, mem_set_of_ne hl hx hxl l', hin⟩

/-- If no socket is open, none is lost. -/
lemma kept_of_not_isOpen {threads : List Stage}
    (h : ∀ (q : ℕ) (k : Socket), m.sockets[q]? = some k → k.isOpen = false) : Kept ⟨m, threads⟩ :=
  fun q k hk hopen => absurd ((h q k hk).symm.trans hopen) (by decide)

/-- After the current socket was closed no socket is open. -/
lemma Kept.nngClose (h : Kept s) {q : ℕ} {k : Socket}
    (hk : (s.shared.nngClose s.shared.socket).sockets[q]? = some k) : k.isOpen = false := by
  apply Bool.eq_false_of_not_eq_true
  intro hopen
  obtain ⟨k₀, hk₀, -, -, hopen₀⟩ := exists_of_nngClose hk
  obtain ⟨rfl, -⟩ := h q k₀ hk₀ (hopen₀ hopen)
  have hsome : (s.shared.nngClose s.shared.socket).openSocket = some k :=
    openSocket_eq_some.2 ⟨hk, hopen⟩
  rw [openSocket_nngClose] at hsome
  exact absurd hsome (by simp)

/-- A step that a run without a lost socket may take.

**Proof sketch.** One case for each step. The call that holds the lock is the only one in charge of
a socket, so a socket is opened only when none is open, and the step that forgets the socket is the
one the condition is about. -/
lemma kept_step (hlocked : Locks.Protected Shared.mutex Stage.holds (Shared.Ok L) (Knows L) s)
    (h : Kept s) {e : Threads.Event Action Change} (hkeeps : Keeps s e)
    (hstep : (program L).step s e = some t) : Kept t := by
  cases Program.steps_of_step hstep with
  | spawn =>
    intro q k hk hopen
    obtain ⟨rfl, hor⟩ := h q k hk hopen
    exact ⟨rfl, hor.imp id fun ⟨l, hl, hin⟩ => ⟨l, List.mem_append_left _ hl, hin⟩⟩
  | @act i a l l' m' hl ha =>
    have hknows : l.holds = true → Knows L s.shared l := hlocked.holder l (List.mem_of_getElem? hl)
    cases acts_of_act ha with
    | dialClose | dialDrop | close => exact kept_of_not_isOpen fun q k hk => h.nngClose hk
    | dialClear => exact kept_of_not_isOpen fun q k hk => h.not_isOpen (hknows rfl) hk
    | dialOpen =>
      -- a socket that is open would be in the charge of another holder of the lock
      have hclosed : ∀ (q : ℕ) (k : Socket), s.shared.sockets[q]? = some k → k.isOpen = false := by
        intro q k hk
        apply Bool.eq_false_of_not_eq_true
        intro hopen
        obtain ⟨-, hconn | ⟨x, hx, hin⟩⟩ := h q k hk hopen
        · exact absurd ((show s.shared.connected = false from hknows rfl).symm.trans hconn)
            (by decide)
        · obtain ⟨j, hj⟩ := List.mem_iff_getElem?.1 hx
          obtain rfl := hlocked.counted.unique hl hj rfl (Stage.holds_of_inCharge hin)
          obtain rfl := Option.some.inj (hl.symm.trans hj)
          exact absurd hin (by decide)
      intro q k hk hopen
      refine ⟨?_, .inr ⟨.dialMark, mem_set_self hl _, rfl⟩⟩
      change (s.shared.sockets ++ [_])[q]? = some k at hk
      rw [List.getElem?_append] at hk
      split at hk
      next => exact absurd ((hclosed q k hk).symm.trans hopen) (by decide)
      next hge =>
        change q = s.shared.sockets.length
        have hlt := (List.getElem?_eq_some_iff.1 hk).1
        simp only [List.length_singleton] at hlt
        omega
    | dialMark =>
      exact h.act hl rfl (fun q k hk hopen => ⟨k, hk, hopen⟩) (fun _ => .inl rfl) fun _ => .inl rfl
    | @dialConnect k hs =>
      have hconnected : s.shared.connected = true := by simpa [Keeps, hl] using hkeeps
      refine h.act hl rfl (fun q k hk hopen => ?_) (fun _ => .inl hconnected)
        fun _ => .inl hconnected
      obtain ⟨k₀, hk₀, -, -, hopen₀⟩ := exists_of_nngDial hk
      exact ⟨k₀, hk₀, hopen₀ ▸ hopen⟩
    | dialFail | dialUnmark =>
      exact h.act hl rfl (fun q k hk hopen => ⟨k, hk, hopen⟩) (fun _ => .inr rfl) fun _ => .inr rfl
    | clear q =>
      have hor : s.shared.openSocket = none ∨ ∃ l ∈ s.threads, l.inCharge = true := by
        simpa [Keeps, hl] using hkeeps
      rcases hor with hnone | ⟨x, hx, hin⟩
      · exact kept_of_not_isOpen fun q k hk => h.not_isOpen hnone hk
      · intro p k hk hopen
        obtain ⟨rfl, -⟩ := h p k hk hopen
        refine ⟨rfl, .inr ⟨x, mem_set_of_ne hl hx ?_ _, hin⟩⟩
        rintro rfl
        exact nomatch hin
    | postSend | postRecv =>
      refine h.act hl rfl (fun q k hk hopen => ?_) .inl fun hin => nomatch hin
      obtain ⟨k₀, hk₀, rfl⟩ := exists_of_modify hk
      refine ⟨k₀, hk₀, ?_⟩
      split at hopen <;> exact hopen
    | _ =>
      exact h.act hl rfl (fun q k hk hopen => ⟨k, hk, hopen⟩) .inl fun hin => nomatch hin
  | env he =>
    cases changes_of_change he with
    | reply =>
      intro q k hk hopen
      obtain ⟨k₀, hk₀, rfl⟩ := exists_of_modify hk
      apply h q k₀ hk₀
      split at hopen <;> exact hopen
    | setServerAddr => exact h

/-- A step that loses no socket.

**Proof sketch.** The only step that can lose a socket is the one that clears the pointer to it.
After it a socket that is open is in the charge of a call, and this call was in charge before. -/
lemma keeps_of_kept (hlocked : Locks.Protected Shared.mutex Stage.holds (Shared.Ok L) (Knows L) s)
    {e : Threads.Event Action Change} (hstep : (program L).step s e = some t) (ht : Kept t) :
    Keeps s e := by
  cases Program.steps_of_step hstep with
  | spawn => trivial
  | env => trivial
  | @act i a l l' m' hl ha =>
    cases acts_of_act ha with
    | clear q =>
      suffices hor : s.shared.openSocket = none ∨ ∃ l ∈ s.threads, l.inCharge = true by
        simpa [Keeps, hl] using hor
      cases hk : s.shared.openSocket with
      | none => exact .inl rfl
      | some k =>
        obtain ⟨hsome, hopen⟩ := openSocket_eq_some.1 hk
        obtain ⟨-, hconn | ⟨x, hx, hin⟩⟩ := ht _ k hsome hopen
        · exact nomatch hconn
        · rcases List.mem_or_eq_of_mem_set hx with hx | rfl
          · exact .inr ⟨x, hx, hin⟩
          · exact absurd hin (by decide)
    | @dialConnect k hs =>
      suffices hconn : s.shared.connected = true by simpa [Keeps, hl] using hconn
      obtain ⟨hsome, hopen⟩ := openSocket_eq_some.1 hs
      have hdialed : s.shared.nngDial.sockets[s.shared.socket]? =
          some { k with peer := some s.shared.serverAddr } := by
        simp [Shared.nngDial, hsome]
      obtain ⟨-, hconn | ⟨x, hx, hin⟩⟩ := ht _ _ hdialed hopen
      · exact hconn
      · -- the thread that has the lock is no longer in charge, and no other one is
        obtain ⟨j, hj⟩ := List.mem_iff_getElem?.1 hx
        by_cases hij : i = j
        · subst hij
          rw [List.getElem?_set_self (List.getElem?_eq_some_iff.1 hl).1] at hj
          obtain rfl := Option.some.inj hj
          exact absurd hin (by decide)
        · rw [List.getElem?_set_ne hij] at hj
          exact absurd (hlocked.counted.unique hl hj rfl (Stage.holds_of_inCharge hin)) hij
    | _ => simp [Keeps, hl]

/-- **When no socket is lost.** In an interleaving of calls of `post`, `dial` and `close` every
open socket is at all times the current one of a client that is connected, or one that a call of
`dial` is in charge of, if and only if no call of `close` resets `m_connected` after a call of
`dial` has opened the next socket and connected it, and no call of `dial` returns true after a call
of `close` has reset `m_connected` in its course.

**Proof sketch.** Given what the lock protects, a step keeps the sockets exactly if it meets the
condition, by `kept_step` and `keeps_of_kept`; this is the rule for exact conditions. -/
theorem kept_iff (hrun : (system L serverAddr).run es = some s) :
    (system L serverAddr).Always Kept es ↔ (system L serverAddr).Along Keeps es := by
  refine System.always_iff_along
    (J := Locks.Protected Shared.mutex Stage.holds (Shared.Ok L) (Knows L))
    (protected_of_run (show (system L serverAddr).run [] = some _ from rfl))
    (kept_of_not_isOpen fun q k hk => ?_)
    (fun s e t hlocked hstep => Locks.step_locked (discipline L) hlocked hstep)
    (fun s e t hlocked h hstep => ⟨keeps_of_kept hlocked hstep, fun hkeeps => ?_⟩) hrun
  · simp [Shared.init] at hk
  · exact kept_step hlocked h hkeeps hstep

instance : ∀ s e, Decidable (Keeps s e) := by
  intro s e
  unfold Keeps
  split
  · split <;> infer_instance
  · split <;> infer_instance
  · infer_instance

/-- A call of `close` that was slower than a call of `dial`. -/
def slowClose : List (Threads.Event Action Change) :=
  [.spawn, .spawn] ++ dialRun 0 ++ [.act 1 .close, .act 1 .next, .act 0 .dial, .act 0 .next,
    .act 0 .next, .act 0 .next, .act 0 .next, .act 0 (.ends true), .act 0 .next,
    .act 0 (.ends true), .act 0 .next, .act 1 .next]

/-- The slow call loses the socket of the call of `dial`. -/
theorem kept_iff_slow : ¬ (system smallNumbers "tcp://a").Always Kept slowClose := by
  obtain ⟨s, hrun⟩ : ∃ s, (system smallNumbers "tcp://a").run slowClose = some s :=
    ⟨((system smallNumbers "tcp://a").run slowClose).get (by decide), (Option.some_get _).symm⟩
  rw [kept_iff hrun]
  decide

end HkuUtils.Node.Client
