import HkuUtils.Fallible

set_option relaxedAutoImplicit false
set_option autoImplicit false

/-!
# Sessions with transactions

A session with a database engine: the current data, the data at the start of the open
transaction, and a fault plan that says which attempts of the session fail. A program that does
its work between the start of a transaction and its commit, and rolls back in the handler, is
atomic whatever fails.

## Main definitions

* `Transaction.Engine` — the fault plan and the errors of misplaced commands.
* `Transaction.Session` — a session, and its data with the open transaction, `Session.conn`.
* `Transaction.attempt`, `perform`, `start`, `commit`, `rollback` — the commands.
* `Transaction.inTransaction` — a body between the start and the commit of a transaction.
* `Transaction.Atomic` — a program that throws leaves the data and the transaction as they were.
* `Transaction.Clear`, `Steps` — attempts that do not fail, and how many a program makes.

## Main results

* `Transaction.inTransaction_atomic` — a body that leaves the transaction alone is atomic.
* `Transaction.Steps.bind`, `forEach`, `inTransaction_returns_iff` — when programs return.
-/

namespace Transaction

open Fallible

variable {D ε σ τ ω α β : Type}

/-- What the engine does on its own account. -/
structure Engine (ε : Type) where
  /-- The error of the attempt with this number, if it fails. -/
  fault : ℕ → Option ε
  /-- The error of a start inside a transaction. -/
  nested : ε
  /-- The error of a commit outside of one. -/
  idle : ε

/-- The commands that concern a transaction. -/
inductive Command where
  | start
  | commit
  | rollback
  deriving DecidableEq, Repr

/-- A session with an engine. -/
structure Session (D : Type) where
  /-- The data as the session sees it. -/
  data : D
  /-- The data at the start of the open transaction, if one is open. -/
  saved : Option D
  /-- The number of the next attempt. -/
  clock : ℕ
  /-- The commands that were issued, the last one at the end. -/
  log : List Command

namespace Session

/-- The data and the open transaction. -/
def conn (s : Session D) : D × Option D := (s.data, s.saved)

/-- An attempt was made. -/
def tick (s : Session D) : Session D := { s with clock := s.clock + 1 }

/-- A command was issued. -/
def note (s : Session D) (c : Command) : Session D := { s with log := s.log ++ [c] }

/-- A transaction is open. -/
def started (s : Session D) : Session D := { (s.note .start).tick with saved := some s.data }

/-- The transaction is committed. -/
def committed (s : Session D) : Session D := { (s.note .commit).tick with saved := none }

/-- The transaction is rolled back. -/
def rolledBack (s : Session D) : Session D :=
  { s.note .rollback with data := s.saved.getD s.data, saved := none }

end Session

/-! ## The commands -/

variable (E : Engine ε)

/-- One attempt, which the engine may let fail. -/
def attempt : Fallible (Session D) ε Unit := fun s =>
  match E.fault s.clock with
  | none => (.ok (), s.tick)
  | some e => (.error e, s.tick)

/-- A statement that changes the data. -/
def perform (f : D → D) : Fallible (Session D) ε Unit := do
  attempt E
  modify fun s => { s with data := f s.data }

/-- A transaction is started. -/
def start : Fallible (Session D) ε Unit := do
  modify (·.note .start)
  attempt E
  if (← get).saved.isSome then throw E.nested
  else modify fun s => { s with saved := some s.data }

/-- The open transaction is committed. -/
def commit : Fallible (Session D) ε Unit := do
  modify (·.note .commit)
  attempt E
  if (← get).saved.isNone then throw E.idle
  else modify fun s => { s with saved := none }

/-- The open transaction, if there is one, is rolled back; this does not throw. -/
def rollback : Fallible (Session D) ε Unit := modify Session.rolledBack

/-- The body in a transaction of its own if `autotrans` is set; `after` follows the commit. The
exceptions of both are caught, the transaction is rolled back, and another one is thrown. -/
def inTransaction (autotrans : Bool) (failed : ε → ε)
    (body after : Fallible (Session D × τ) ε Unit) : Fallible (Session D × τ) ε Unit := do
  when autotrans (lift (start E))
  tryCatch (do body; when autotrans (lift (commit E)); after) fun e => do
    when autotrans (lift rollback)
    throw (failed e)

variable {E}

/-- An attempt that does not fail. -/
lemma attempt_ok {s : Session D} (h : E.fault s.clock = none) : attempt E s = (.ok (), s.tick) := by
  rw [attempt, h]

/-- An attempt that fails. -/
lemma attempt_error {s : Session D} {e : ε} (h : E.fault s.clock = some e) :
    attempt E s = (.error e, s.tick) := by
  rw [attempt, h]

/-- A start outside of a transaction that does not fail. -/
lemma start_ok {s : Session D} (h : E.fault s.clock = none) (hs : s.saved = none) :
    start E s = (.ok (), s.started) := by
  rw [start, bind_ok (modify_apply _ s), bind_ok (attempt_ok (s := s.note .start) h),
    bind_ok (get_apply _)]
  simp [Session.note, Session.tick, Session.started, hs]

/-- Any other start. -/
lemma start_error {s : Session D} (h : ¬ (E.fault s.clock = none ∧ s.saved = none)) :
    ∃ e, start E s = (.error e, (s.note .start).tick) := by
  rw [start, bind_ok (modify_apply _ s)]
  cases hf : E.fault s.clock with
  | some e => exact ⟨e, bind_error (attempt_error (s := s.note .start) hf) _⟩
  | none =>
    have hs : s.saved.isSome = true := by
      cases hsaved : s.saved with
      | none => exact absurd ⟨hf, hsaved⟩ h
      | some d => rfl
    refine ⟨E.nested, ?_⟩
    rw [bind_ok (attempt_ok (s := s.note .start) hf), bind_ok (get_apply _)]
    simp [Session.note, Session.tick, hs]

/-- A commit of an open transaction that does not fail. -/
lemma commit_ok {s : Session D} (h : E.fault s.clock = none) (hs : s.saved.isSome = true) :
    commit E s = (.ok (), s.committed) := by
  have hs' : s.saved.isNone = false := by simpa using hs
  rw [commit, bind_ok (modify_apply _ s), bind_ok (attempt_ok (s := s.note .commit) h),
    bind_ok (get_apply _)]
  simp [Session.note, Session.tick, Session.committed, hs']

/-- A commit that fails leaves the transaction open. -/
lemma commit_error {s : Session D} {e : ε} (h : E.fault s.clock = some e) :
    commit E s = (.error e, (s.note .commit).tick) := by
  rw [commit, bind_ok (modify_apply _ s), bind_error (attempt_error (s := s.note .commit) h)]

/-! ## A body in a transaction -/

section InTransaction

variable {failed : ε → ε} {body after : Fallible (Session D × τ) ε Unit} {s : Session D} {x : τ}

/-- The transaction cannot be started. -/
lemma inTransaction_start_error (h : ¬ (E.fault s.clock = none ∧ s.saved = none)) :
    ∃ e, inTransaction E true failed body after (s, x) =
      (.error e, ((s.note .start).tick, x)) := by
  obtain ⟨e, he⟩ := start_error h
  have hstart : lift (start E) (s, x) = (.error e, ((s.note .start).tick, x)) := by
    rw [lift_apply, he]
  exact ⟨e, bind_error hstart _⟩

/-- The transaction is started. -/
lemma inTransaction_started (h : E.fault s.clock = none) (hs : s.saved = none) :
    inTransaction E true failed body after (s, x) =
      (tryCatch (do body; lift (commit E); after) fun e => do lift rollback; throw (failed e) :
        Fallible (Session D × τ) ε Unit) (s.started, x) := by
  have hstart : lift (start E) (s, x) = (.ok (), (s.started, x)) := by
    rw [lift_apply, start_ok h hs]
  exact bind_ok hstart _

/-- A body in the transaction of the caller. -/
lemma inTransaction_false : inTransaction E false failed body after (s, x) =
    (tryCatch (do body; after) fun e => throw (failed e) :
      Fallible (Session D × τ) ε Unit) (s, x) := rfl

/-- The body throws. -/
lemma inTransaction_body_error (h : E.fault s.clock = none) (hs : s.saved = none)
    {t : Session D} {y : τ} {e : ε} (hbody : body (s.started, x) = (.error e, (t, y))) :
    inTransaction E true failed body after (s, x) = (.error (failed e), (t.rolledBack, y)) := by
  rw [inTransaction_started h hs, tryCatch_error (bind_error hbody _)]
  rfl

/-- The body returns and the commit fails. -/
lemma inTransaction_commit_error (h : E.fault s.clock = none) (hs : s.saved = none)
    {t : Session D} {y : τ} {u : Unit} {e : ε} (hbody : body (s.started, x) = (.ok u, (t, y)))
    (hcommit : E.fault t.clock = some e) :
    inTransaction E true failed body after (s, x) =
      (.error (failed e), ((t.note .commit).tick.rolledBack, y)) := by
  have hthrow : lift (commit E) (t, y) = (.error e, ((t.note .commit).tick, y)) := by
    rw [lift_apply, commit_error hcommit]
  rw [inTransaction_started h hs, tryCatch_error ((bind_ok hbody _).trans (bind_error hthrow _))]
  rfl

/-- The body returns and is committed, and nothing fails after that. -/
lemma inTransaction_ok (h : E.fault s.clock = none) (hs : s.saved = none) {t : Session D} {y : τ}
    {u u' : Unit} {r : Session D × τ} (hbody : body (s.started, x) = (.ok u, (t, y)))
    (hcommit : E.fault t.clock = none) (hopen : t.saved.isSome = true)
    (hafter : after (t.committed, y) = (.ok u', r)) :
    inTransaction E true failed body after (s, x) = (.ok u', r) := by
  have hreturn : lift (commit E) (t, y) = (.ok (), (t.committed, y)) := by
    rw [lift_apply, commit_ok hcommit hopen]
  rw [inTransaction_started h hs,
    tryCatch_ok ((bind_ok hbody _).trans ((bind_ok hreturn _).trans hafter))]

/-- **Inversion**: a body in a transaction that returns has returned, and so has what follows the
commit.

**Proof sketch.** By cases on whether the start, the body and the commit succeed; an error in any
of them is what the transaction returns. -/
lemma inTransaction_inv {autotrans : Bool}
    (hbody : Keeps (fun s : Session D × τ => s.1.saved) body) {u : Unit} {r : Session D × τ}
    (h : inTransaction E autotrans failed body after (s, x) = (.ok u, r)) :
    (autotrans = true → s.saved = none) ∧ ∃ t y v,
      body (if autotrans then s.started else s, x) = (.ok v, (t, y)) ∧
      after (if autotrans then t.committed else t, y) = (.ok u, r) := by
  cases autotrans with
  | true =>
    by_cases hstart : E.fault s.clock = none ∧ s.saved = none
    · obtain ⟨hf, hs⟩ := hstart
      have hsaved : (body (s.started, x)).2.1.saved = some s.data := hbody (s.started, x)
      rcases hb : body (s.started, x) with ⟨v, t, y⟩
      rw [hb] at hsaved
      cases v with
      | error e =>
        rw [inTransaction_body_error hf hs hb] at h
        cases h
      | ok v =>
        refine ⟨fun _ => hs, t, y, v, hb, ?_⟩
        cases hc : E.fault t.clock with
        | some e =>
          rw [inTransaction_commit_error hf hs hb hc] at h
          cases h
        | none =>
          have hopen : t.saved.isSome = true := by
            rw [show t.saved = some s.data from hsaved]
            rfl
          rcases ha : after (t.committed, y) with ⟨w, q⟩
          cases w with
          | ok w =>
            rw [inTransaction_ok hf hs hb hc hopen ha] at h
            exact ha.trans h
          | error e =>
            have hthrow : lift (commit E) (t, y) = (.ok (), (t.committed, y)) := by
              rw [lift_apply, commit_ok hc hopen]
            rw [inTransaction_started hf hs,
              tryCatch_error ((bind_ok hb _).trans ((bind_ok hthrow _).trans ha))] at h
            cases h
    · obtain ⟨e, he⟩ : ∃ e, inTransaction E true failed body after (s, x) = (.error e, _) :=
        inTransaction_start_error hstart
      rw [he] at h
      cases h
  | false =>
    refine ⟨fun hauto => absurd hauto (by decide), ?_⟩
    rw [inTransaction_false] at h
    rcases hb : body (s, x) with ⟨v, t, y⟩
    cases v with
    | error e =>
      rw [tryCatch_error (bind_error hb _)] at h
      cases h
    | ok v =>
      refine ⟨t, y, v, hb, ?_⟩
      rcases ha : after (t, y) with ⟨w, q⟩
      cases w with
      | ok w =>
        rw [tryCatch_ok ((bind_ok hb _).trans ha)] at h
        exact ha.trans h
      | error e =>
        rw [tryCatch_error ((bind_ok hb _).trans ha)] at h
        cases h

/-- What a body in a transaction leaves beside the session, if nothing follows the commit. -/
lemma inTransaction_snd (h : E.fault s.clock = none) (hs : s.saved = none)
    (hbody : Keeps (fun s : Session D × τ => s.1.saved) body) :
    (inTransaction E true failed body (pure ()) (s, x)).2.2 = (body (s.started, x)).2.2 := by
  have hsaved : (body (s.started, x)).2.1.saved = some s.data := hbody (s.started, x)
  rcases hb : body (s.started, x) with ⟨v, t, y⟩
  rw [hb] at hsaved
  cases v with
  | error e => rw [inTransaction_body_error h hs hb]
  | ok v =>
    cases hc : E.fault t.clock with
    | some e => rw [inTransaction_commit_error h hs hb hc]
    | none =>
      have hopen : t.saved.isSome = true := by
        rw [show t.saved = some s.data from hsaved]
        rfl
      rw [inTransaction_ok h hs hb hc hopen (pure_apply () _)]

/-- A program that throws leaves the data and the transaction as they were. -/
def Atomic (p : Fallible (Session D × τ) ε α) : Prop :=
  ∀ s, Throws p s → (p s).2.1.conn = s.1.conn

/-- **A body that leaves the transaction alone is atomic** in a transaction of its own, whichever
attempt fails: the start, one of the body, or the commit.

**Proof sketch.** The session keeps the data of the start aside. If the start fails, nothing was
changed; if the body or the commit fails, the rollback puts them back. -/
theorem inTransaction_atomic (hbody : Keeps (fun s : Session D × τ => s.1.saved) body)
    (hafter : ∀ s, Returns after s) : Atomic (inTransaction E true failed body after) := by
  rintro ⟨s, x⟩ hthrows
  by_cases hstart : E.fault s.clock = none ∧ s.saved = none
  · obtain ⟨h, hs⟩ := hstart
    have hsaved : (body (s.started, x)).2.1.saved = some s.data := hbody (s.started, x)
    rcases hb : body (s.started, x) with ⟨r, t, y⟩
    rw [hb] at hsaved
    have hback : t.saved.getD t.data = s.data := by
      rw [show t.saved = some s.data from hsaved, Option.getD_some]
    cases r with
    | error e =>
      rw [inTransaction_body_error h hs hb]
      simp only [Session.conn, Session.rolledBack, Session.note, hback, hs]
    | ok u =>
      cases hc : E.fault t.clock with
      | some e =>
        rw [inTransaction_commit_error h hs hb hc]
        simp only [Session.conn, Session.rolledBack, Session.note, Session.tick, hback, hs]
      | none =>
        have hopen : t.saved.isSome = true := by
          rw [show t.saved = some s.data from hsaved]
          rfl
        obtain ⟨u', hu'⟩ := hafter (t.committed, y)
        have hok : inTransaction E true failed body after (s, x) = (.ok u', _) :=
          inTransaction_ok h hs hb hc hopen (Prod.ext hu' rfl)
        obtain ⟨e, he⟩ := hthrows
        rw [hok] at he
        cases he
  · obtain ⟨e, he⟩ : ∃ e, inTransaction E true failed body after (s, x) = (.error e, _) :=
      inTransaction_start_error hstart
    rw [he]
    rfl

end InTransaction

/-- A program that leaves the data and the transaction alone may come first: if it throws nothing
has changed, and otherwise the second one starts from the same state. -/
lemma Atomic.bind_keeps {p : Fallible (Session D × τ) ε α} {q : α → Fallible (Session D × τ) ε β}
    (hp : Keeps (fun s : Session D × τ => s.1.conn) p) (hq : ∀ a, Atomic (q a)) :
    Atomic (p >>= q) := by
  intro s hthrows
  have hps := hp s
  rcases h : p s with ⟨r, t⟩
  rw [h] at hps
  cases r with
  | ok a =>
    have hqa : Throws (q a) t := by
      rw [Throws, bind_ok h] at hthrows
      exact hthrows
    rw [bind_ok h, hq a t hqa]
    exact hps
  | error e =>
    rw [bind_error h]
    exact hps

/-- A program that always returns is atomic. -/
lemma Atomic.of_returns {p : Fallible (Session D × τ) ε α} (h : ∀ s, Returns p s) : Atomic p :=
  fun s hthrows => absurd (h s) (throws_iff.mp hthrows)

/-- An attempt leaves the data and the transaction alone. -/
lemma keeps_conn_attempt : Keeps Session.conn (attempt E : Fallible (Session D) ε Unit) := by
  intro s
  cases h : E.fault s.clock with
  | none => rw [attempt_ok h]; rfl
  | some e => rw [attempt_error h]; rfl

/-- So it leaves the transaction alone. -/
lemma keeps_saved_attempt : Keeps Session.saved (attempt E : Fallible (Session D) ε Unit) :=
  fun s => congrArg Prod.snd (keeps_conn_attempt s)

/-- So does a statement. -/
lemma keeps_saved_perform (f : D → D) :
    Keeps Session.saved (perform E f : Fallible (Session D) ε Unit) :=
  keeps_saved_attempt.bind fun _ => .modify fun _ => rfl

/-! ## Counting attempts -/

/-- The `k` attempts from the one with the number `c` on do not fail. -/
def Clear (E : Engine ε) (c k : ℕ) : Prop := ∀ i < k, E.fault (c + i) = none

instance (E : Engine ε) (c k : ℕ) : Decidable (Clear E c k) :=
  have : DecidablePred fun i => E.fault (c + i) = none := fun i =>
    decidable_of_iff ((E.fault (c + i)).isNone = true) Option.isNone_iff_eq_none
  inferInstanceAs (Decidable (∀ i < k, E.fault (c + i) = none))

/-- No attempt at all. -/
@[simp]
lemma clear_zero (c : ℕ) : Clear E c 0 := fun _ hi => absurd hi (Nat.not_lt_zero _)

/-- One attempt. -/
@[simp]
lemma clear_one (c : ℕ) : Clear E c 1 ↔ E.fault c = none := by
  simp only [Clear, Nat.lt_one_iff, forall_eq, Nat.add_zero]

/-- Some attempts and then some more. -/
lemma clear_add (c k m : ℕ) : Clear E c (k + m) ↔ Clear E c k ∧ Clear E (c + k) m := by
  constructor
  · refine fun h => ⟨fun i hi => h i (by omega), fun i hi => ?_⟩
    rw [Nat.add_assoc]
    exact h (k + i) (by omega)
  · rintro ⟨hk, hm⟩ i hi
    by_cases hik : i < k
    · exact hk i hik
    · have := hm (i - k) (by omega)
      rwa [show c + k + (i - k) = c + i by omega] at this

/-- Fewer attempts. -/
lemma Clear.mono {c k m : ℕ} (h : Clear E c m) (hkm : k ≤ m) : Clear E c k :=
  fun i hi => h i (by omega)

/-- The program makes `n` attempts, and it returns if these do not fail. -/
structure Steps (E : Engine ε) (clk : σ → ℕ) (n : σ → ℕ) (p : Fallible σ ε α) : Prop where
  returns_iff : ∀ s, Returns p s ↔ Clear E (clk s) (n s)
  clock_eq : ∀ s, Returns p s → clk (p s).2 = clk s + n s

namespace Steps

variable {clk : σ → ℕ}

/-- One attempt. -/
lemma attempt : Steps E Session.clock (fun _ => 1) (attempt E : Fallible (Session D) ε Unit) := by
  refine ⟨fun s => ?_, fun s _ => ?_⟩
  · rw [clear_one]
    cases h : E.fault s.clock with
    | none => simp [Returns, attempt_ok h]
    | some e => simp [Returns, attempt_error h]
  · cases h : E.fault s.clock with
    | none => rw [attempt_ok h, Session.tick]
    | some e => rw [attempt_error h, Session.tick]

/-- A program without attempts that always returns. -/
lemma none {p : Fallible σ ε α} (hret : ∀ s, Returns p s) (hclk : Keeps clk p) :
    Steps E clk (fun _ => 0) p :=
  ⟨fun s => iff_of_true (hret s) (clear_zero _), fun s _ => hclk s⟩

/-- One program after another.

**Proof sketch.** By cases on whether the first program returns. If it does, the clock has gone on
by its attempts, and those of the second one follow. -/
lemma bind {p : Fallible σ ε α} {q : α → Fallible σ ε β} {k m : ℕ}
    (hp : Steps E clk (fun _ => k) p) (hq : ∀ a, Steps E clk (fun _ => m) (q a)) :
    Steps E clk (fun _ => k + m) (p >>= q) := by
  have hsplit (s : σ) : Returns p s ∧ (∃ a t, p s = (.ok a, t) ∧ (p >>= q) s = q a t ∧
      clk t = clk s + k) ∨ ¬ Returns p s ∧ ¬ Returns (p >>= q) s := by
    rcases h : p s with ⟨r, t⟩
    cases r with
    | ok a =>
      have hret : Returns p s := ⟨a, by rw [h]⟩
      have hclk := hp.clock_eq s hret
      rw [h] at hclk
      exact Or.inl ⟨hret, a, t, rfl, bind_ok h q, hclk⟩
    | error e => exact Or.inr ⟨by simp [Returns, h], by simp [Returns, bind_error h q]⟩
  refine ⟨fun s => ?_, fun s hret => ?_⟩
  · rw [clear_add, ← hp.returns_iff s]
    rcases hsplit s with ⟨hret, a, t, _, heq, hclk⟩ | ⟨hnot, hnot'⟩
    · rw [and_iff_right hret, ← hclk, ← (hq a).returns_iff t, Returns, heq, Returns]
    · exact iff_of_false hnot' fun hand => hnot hand.1
  · rcases hsplit s with ⟨_, a, t, _, heq, hclk⟩ | ⟨_, hnot'⟩
    · have hqa : Returns (q a) t := by
        rw [Returns, heq] at hret
        exact hret
      rw [heq, (hq a).clock_eq t hqa, hclk, Nat.add_assoc]
    · exact absurd hret hnot'

/-- Beside another part of the state. -/
lemma lift {clk : ω → ℕ} {n : ω → ℕ} {p : Fallible ω ε α} (hp : Steps E clk n p) :
    Steps E (fun s : ω × τ => clk s.1) (fun s => n s.1) (Fallible.lift p) :=
  ⟨fun s => hp.returns_iff s.1, fun s hret => hp.clock_eq s.1 hret⟩

/-- A loop.

**Proof sketch.** By induction on the list. Each element takes `k` attempts, so the loop has as
many for each that is left. -/
lemma forEach {clk : ω → ℕ} {p : Fallible (ω × τ) ε Unit} {k : ℕ}
    (hp : Steps E (fun s => clk s.1) (fun _ => k) p) :
    Steps E (fun s => clk s.1) (fun s => k * s.2.length) (Fallible.forEach p) := by
  suffices h : ∀ (as : List τ) (w : ω),
      (Returns (Fallible.forEach p) (w, as) ↔ Clear E (clk w) (k * as.length)) ∧
      (Returns (Fallible.forEach p) (w, as) →
        clk (Fallible.forEach p (w, as)).2.1 = clk w + k * as.length) from
    ⟨fun s => (h s.2 s.1).1, fun s => (h s.2 s.1).2⟩
  intro as
  induction as with
  | nil => exact fun w => ⟨by simp [Returns], fun _ => by simp⟩
  | cons a as ih =>
    intro w
    have hlen : k * (a :: as).length = k + k * as.length := by
      rw [List.length_cons, Nat.mul_succ, Nat.add_comm]
    rw [hlen, clear_add]
    rcases h : p (w, a) with ⟨r, w', a'⟩
    cases r with
    | ok u =>
      have hret : Returns p (w, a) := ⟨u, by rw [h]⟩
      have hclear : Clear E (clk w) k := (hp.returns_iff (w, a)).mp hret
      have hclk : clk w' = clk w + k := by
        have := hp.clock_eq (w, a) hret
        rwa [h] at this
      obtain ⟨hiff, hclock⟩ := ih w'
      rw [hclk] at hiff hclock
      simp only [Returns, forEach_cons_ok h] at hiff hclock ⊢
      refine ⟨hiff.trans (and_iff_right hclear).symm, fun hr => ?_⟩
      rw [hclock hr, Nat.add_assoc]
    | error e =>
      have hnot : ¬ Clear E (clk w) k := by
        rw [← hp.returns_iff (w, a)]
        simp [Returns, h]
      simp only [Returns, forEach_cons_error h]
      exact ⟨iff_of_false (by simp) fun hand => hnot hand.1, by simp⟩

end Steps

/-- The clock of a session beside another part of the state. -/
abbrev clockOf (s : Session D × τ) : ℕ := s.1.clock

/-- **When a transaction returns**: if its start, the attempts of its body and its commit do not
fail.

**Proof sketch.** The attempts of the transaction are one for the start, those of the body, and one
for the commit; they are taken off the clock one after another. -/
theorem inTransaction_returns_iff {failed : ε → ε} {body after : Fallible (Session D × τ) ε Unit}
    {n : τ → ℕ} (hsteps : Steps E clockOf (fun s => n s.2) body)
    (hbody : Keeps (fun s : Session D × τ => s.1.saved) body) (hafter : ∀ s, Returns after s)
    {s : Session D} (hs : s.saved = none) (x : τ) :
    Returns (inTransaction E true failed body after) (s, x) ↔ Clear E s.clock (n x + 2) := by
  rw [show n x + 2 = 1 + (n x + 1) by omega, clear_add, clear_one, clear_add, clear_one]
  cases h : E.fault s.clock with
  | some e₀ =>
    obtain ⟨e, he⟩ : ∃ e, inTransaction E true failed body after (s, x) = (.error e, _) :=
      inTransaction_start_error (by simp [h])
    simp [Returns, he]
  | none =>
    have hiff := hsteps.returns_iff (s.started, x)
    have hclock := hsteps.clock_eq (s.started, x)
    have hsaved : (body (s.started, x)).2.1.saved = some s.data := hbody (s.started, x)
    rcases hb : body (s.started, x) with ⟨r, t, y⟩
    rw [hb] at hsaved hclock
    rw [← show clockOf (s.started, x) = s.clock + 1 from rfl, ← hiff]
    cases r with
    | error e =>
      have hnot : ¬ Returns body (s.started, x) := by simp [Returns, hb]
      refine iff_of_false ?_ fun hand => hnot hand.2.1
      rw [Returns, inTransaction_body_error h hs hb]
      simp
    | ok u =>
      have hret : Returns body (s.started, x) := ⟨u, by rw [hb]⟩
      have hopen : t.saved.isSome = true := by
        rw [show t.saved = some s.data from hsaved]
        rfl
      rw [← hclock hret, and_iff_right hret, and_iff_right rfl]
      cases hc : E.fault t.clock with
      | some e =>
        refine iff_of_false ?_ (by simp)
        rw [Returns, inTransaction_commit_error h hs hb hc]
        simp
      | none =>
        obtain ⟨u', hu'⟩ := hafter (t.committed, y)
        have hok : inTransaction E true failed body after (s, x) = (.ok u', _) :=
          inTransaction_ok h hs hb hc hopen (Prod.ext hu' rfl)
        exact iff_of_true ⟨u', by rw [hok]⟩ rfl

end Transaction
