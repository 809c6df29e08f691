import HkuUtils.MySQL.Connect

set_option relaxedAutoImplicit false
set_option autoImplicit false

/-!
# How `exec` runs

`exec` sends its text once if the first statement of it is answered without an error, and otherwise
once more, if `ping` finds a connection. This file follows it through these cases.

## Main definitions

* `HkuUtils.MySQL.Env.Accepts` — the first statement of a text is executed, and the answer arrives.
* `HkuUtils.MySQL.Env.retry` — the way that `ping` takes, and the call that follows it.
* `HkuUtils.MySQL.Env.readable` — all results can be read.

## Main results

* `HkuUtils.MySQL.ping_ok`, `ping_error` — what `ping` does.
* `HkuUtils.MySQL.readResults_ok`, `readResults_error` — the loop over the results.
* `HkuUtils.MySQL.exec_accepted`, `exec_retry`, `exec_lost` — what `exec` does with a handle.
* `HkuUtils.MySQL.exec_null_connects`, `exec_null_crash` — what it does without one.
* `HkuUtils.MySQL.exec_returned`, `preserves_exec` — what is true after `exec`.
-/

namespace HkuUtils.MySQL

open Fallible

variable {W : Type} {E : Env} {w : World W} {q : Script W}

/-- A handle with a connection is not null. -/
lemma ne_null_of_up (hup : w.link = .up) : w.link ≠ .null := by
  rw [hup]
  exact nofun

/-! ## The connection -/

/-- The world after `tryConnect`. -/
def World.reconnected (w : World W) (E : Env) : World W :=
  { w with
    link := if E.connects w.clock then .up else .null
    server := w.server.abandon
    clock := w.clock + 1 }

/-- `tryConnect` replaces the connection, or leaves a null handle. It catches the exception of
`connect`, so that it returns in any case. -/
lemma tryConnect_apply (w : World W) :
    tryConnect E w = (.ok (E.connects w.clock), w.reconnected E) := by
  let w₁ : World W := { w with link := .null, server := w.server.abandon }
  have hclose : close w = (.ok (), w₁) := rfl
  have hconnect : connect E w₁ = if E.connects w.clock then (.ok (), w.reconnected E)
      else (.error (.std ("Failed create MySQLConnect! " ++ E.error w.clock)),
        w.reconnected E) := by
    rw [connect, bind_ok (get_apply _), bind_ok (modify_apply _ _), World.reconnected]
    split
    · rfl
    · rfl
  rw [tryConnect]
  by_cases h : E.connects w.clock = true
  · rw [if_pos h] at hconnect
    rw [tryCatch_ok ((bind_ok hclose _).trans (bind_ok hconnect _)), h]
  · rw [if_neg h] at hconnect
    rw [tryCatch_error ((bind_ok hclose _).trans (bind_error hconnect _)),
      (Bool.not_eq_true _).mp h]
    rfl

/-- `mysql_ping` with a handle, which has a connection or not: whether this connection is still the
same afterwards, or `none` if there is no connection. -/
def Env.pinged (E : Env) (up : Bool) (c : ℕ) : Option Bool :=
  match E.ping c, up with
  | .quiet, true => some true
  | .reconnected, _ => some false
  | _, _ => none

/-- `ping` with a handle: whether the connection is still the same afterwards, and the number of the
call that follows. There is none if no connection is found. -/
def Env.retry (E : Env) (up : Bool) (c : ℕ) : Option (Bool × ℕ) :=
  match E.pinged up c with
  | some kept => some (kept, c + 1)
  | none => if E.connects (c + 1) then some (false, c + 2) else none

/-- The world after a `ping` that has found a connection. -/
def World.reopened (w : World W) (kept : Bool) (c : ℕ) : World W :=
  { (if kept then w else w.lose) with link := .up, clock := c }

/-- The world after a `ping` that has found none. -/
def World.closed (w : World W) : World W :=
  { w with
    link := .null, server := w.server.abandon, clock := w.clock + 2, nullCalls := w.nullCalls + 1 }

/-- `mysql_ping` with a handle. -/
lemma mysqlPing_apply (hw : w.link ≠ .null) :
    mysqlPing E w = (.ok (w.ping E).1, (w.ping E).2) := by
  rw [mysqlPing, bind_ok (get_apply _), if_neg hw]
  rfl

/-- With a handle, `ping` begins with `mysql_ping`. -/
lemma ping_apply (hw : w.link ≠ .null) :
    ping E w = (if (w.ping E).1 = 0 then return true
      else do
        let success ← tryConnect E
        if success then return true
        else
          let _ ← mysqlError E
          return false : OnWorld W Bool) (w.ping E).2 := by
  have hconnected : (if w.link = .null then tryConnect E else pure true : OnWorld W Bool) w =
      (.ok true, w) := by
    rw [if_neg hw]
    rfl
  rw [ping, bind_ok (get_apply _), bind_ok hconnected, if_pos rfl,
    bind_ok (mysqlPing_apply hw)]

/-- A `mysql_ping` that finds a connection.

**Proof sketch.** By cases on the state of the connection and what the library finds there. -/
lemma World.ping_of_some {kept : Bool} (h : E.pinged (w.link = .up) w.clock = some kept) :
    w.ping E = (0, w.reopened kept (w.clock + 1)) := by
  unfold Env.pinged at h
  by_cases hup : w.link = .up
  · cases hping : E.ping w.clock with
    | quiet =>
      simp only [hping, hup, decide_true, Option.some.injEq] at h
      subst h
      simp only [World.ping, hping, hup, World.reopened, World.tick, if_true]
    | reconnected =>
      simp only [hping, Option.some.injEq] at h
      subst h
      simp only [World.ping, hping]
      rfl
    | gone => simp [hping] at h
  · cases hping : E.ping w.clock with
    | quiet => simp [hping, hup] at h
    | reconnected =>
      simp only [hping, Option.some.injEq] at h
      subst h
      simp only [World.ping, hping]
      rfl
    | gone => simp [hping] at h

/-- A `mysql_ping` that finds none. -/
lemma World.ping_of_none (h : E.pinged (w.link = .up) w.clock = none) :
    w.ping E = (1, w.lose.tick) := by
  unfold Env.pinged at h
  cases hping : E.ping w.clock with
  | quiet =>
    cases hlink : w.link with
    | up => simp [hping, hlink] at h
    | down => simp only [World.ping, hping, hlink]
    | null => simp only [World.ping, hping, hlink]
  | reconnected => simp [hping] at h
  | gone =>
    cases hlink : w.link with
    | up => simp only [World.ping, hping, hlink]
    | down => simp only [World.ping, hping, hlink]
    | null => simp only [World.ping, hping, hlink]

/-- **A `ping` that finds a connection.**

**Proof sketch.** If the server answers, the connection is kept or was opened anew by the library.
Otherwise a new one is opened, which is the case in which `retry` reports that it is not the old
one. -/
lemma ping_ok (hw : w.link ≠ .null) {kept : Bool} {c : ℕ}
    (h : E.retry (w.link = .up) w.clock = some (kept, c)) :
    ping E w = (.ok true, w.reopened kept c) := by
  unfold Env.retry at h
  rw [ping_apply hw]
  cases hpinged : E.pinged (w.link = .up) w.clock with
  | some kept' =>
    rw [hpinged] at h
    cases h
    rw [World.ping_of_some hpinged, if_pos rfl]
    rfl
  | none =>
    simp only [hpinged] at h
    rw [World.ping_of_none hpinged, if_neg Int.one_ne_zero, bind_ok (tryConnect_apply _)]
    by_cases hc : E.connects (w.clock + 1) = true
    · rw [if_pos hc] at h
      cases h
      have hc' : E.connects w.lose.tick.clock = true := hc
      have hworld : w.lose.tick.reconnected E = w.reopened false (w.clock + 2) := by
        rw [World.reconnected, hc']
        rfl
      rw [hc', if_pos rfl, hworld]
      rfl
    · rw [if_neg hc] at h
      cases h

/-- **A `ping` that finds none**; it has handed a null handle to `mysql_error`.

**Proof sketch.** The server does not answer, and a new connection is not made either; what is left
is the handle that was closed. -/
lemma ping_error (hw : w.link ≠ .null) (h : E.retry (w.link = .up) w.clock = none) :
    ping E w = (.ok false, w.closed) := by
  unfold Env.retry at h
  rw [ping_apply hw]
  cases hpinged : E.pinged (w.link = .up) w.clock with
  | some kept =>
    rw [hpinged] at h
    cases h
  | none =>
    simp only [hpinged] at h
    rw [World.ping_of_none hpinged, if_neg Int.one_ne_zero, bind_ok (tryConnect_apply _)]
    by_cases hc : E.connects (w.clock + 1) = true
    · rw [if_pos hc] at h
      cases h
    · have hc' : E.connects w.lose.tick.clock = false := (Bool.not_eq_true _).mp hc
      have hworld : w.lose.tick.reconnected E =
          { w with link := .null, server := w.server.abandon, clock := w.clock + 2 } := by
        rw [World.reconnected, hc']
        rfl
      rw [hc', hworld]
      rfl

/-! ## Texts -/

/-- The text sent at the call `c` is answered without an error: its first statement is executed,
and the answer arrives. -/
def Env.Accepts (E : Env) (c : ℕ) (q : Script W) : Prop :=
  E.query c = .answered ∧ executed (E.fails c) q.statements ≠ []

instance (c : ℕ) (q : Script W) : Decidable (E.Accepts c q) :=
  have : Decidable (executed (E.fails c) q.statements = []) :=
    decidable_of_iff _ List.isEmpty_iff
  inferInstanceAs (Decidable (_ ∧ ¬ _))

/-- The answer to such a text. -/
def Env.accepted (E : Env) (c : ℕ) (q : Script W) : Answer W :=
  let sts := executed (E.fails c) q.statements
  ⟨0, E.affected c, sts, sts.length < q.statements.length⟩

/-- The world after it. -/
def World.accept (w : World W) (E : Env) (q : Script W) : World W :=
  (w.serve (executed (E.fails w.clock) q.statements)).tick

/-- `mysql_query` with a handle. -/
lemma mysqlQuery_apply (hw : w.link ≠ .null) :
    mysqlQuery E q w = (.ok (w.query E q).1, (w.query E q).2) := by
  rw [mysqlQuery, bind_ok (get_apply _), if_neg hw]
  rfl

/-- A text that is answered without an error. -/
lemma World.query_accepted (hup : w.link = .up) (h : E.Accepts w.clock q) :
    w.query E q = (E.accepted w.clock q, w.accept E q) := by
  have hsts : (executed (E.fails w.clock) q.statements).isEmpty = false := by
    simpa using h.2
  simp only [World.query, hup, h.1, hsts, Env.accepted, World.accept]
  rfl

/-- Any other text: the handle is not given up, and has a connection if an answer has arrived. -/
lemma World.query_refused (hw : w.link ≠ .null) (h : ¬ (w.link = .up ∧ E.Accepts w.clock q)) :
    (w.query E q).1.ret = 1 ∧ (w.query E q).2.link ≠ .null ∧
      decide ((w.query E q).2.link = .up) = decide (w.link = .up ∧ E.query w.clock = .answered) ∧
      (w.query E q).2.clock = w.clock + 1 ∧ (w.query E q).2.nullCalls = w.nullCalls := by
  cases hlink : w.link with
  | null => exact absurd hlink hw
  | down => simp [World.query, hlink, World.tick, Answer.error]
  | up =>
    cases hquery : E.query w.clock with
    | answered =>
      have hsts : executed (E.fails w.clock) q.statements = [] := by
        by_contra hne
        exact h ⟨hlink, hquery, hne⟩
      simp [World.query, hlink, hquery, World.tick, World.serve, hsts]
    | lostBefore => simp [World.query, hlink, hquery, World.tick, World.lose, Answer.error]
    | lostAfter =>
      simp [World.query, hlink, hquery, World.tick, World.lose, World.serve, Answer.error]

/-- A text only adds to the record of what the server has executed. -/
lemma World.served_prefix_query (w : World W) : w.served <+: (w.query E q).2.served := by
  cases hlink : w.link with
  | up =>
    cases hquery : E.query w.clock <;> simp [World.query, hlink, hquery, tick, lose, serve]
  | down => simp [World.query, hlink, tick]
  | null => simp [World.query, hlink, tick]

/-! ## Results -/

/-- The result of the statement can be read at the call `c`. -/
def Env.reads (E : Env) (c : ℕ) (st : Stmt W) : Bool :=
  match st, E.read c with
  | .write _, .unreadable => false
  | .write _, .lost => false
  | _, _ => true

/-- All results can be read, from the call `c` on. -/
def Env.readable (E : Env) : ℕ → List (Stmt W) → Bool
  | _, [] => true
  | c, st :: sts => E.reads c st && E.readable (c + 1) sts

/-- `mysql_error` with a handle. -/
lemma mysqlError_apply (hw : w.link ≠ .null) : mysqlError E w = (.ok (E.error w.clock), w) := by
  rw [mysqlError, bind_ok (get_apply _), bind_ok (modify_apply _ _), if_neg hw]
  rfl

/-- A result that can be read. -/
lemma World.read_ok {st : Stmt W} (h : E.reads w.clock st = true) :
    ¬ ((w.read E st).1.1 = false ∧ (w.read E st).1.2 ≠ 0) ∧ (w.read E st).2 = w.tick := by
  cases st with
  | write x => cases hread : E.read w.clock <;> simp_all [Env.reads, World.read]
  | _ => simp [World.read]

/-- A result that cannot be read, with its connection or without it. -/
lemma World.read_error {st : Stmt W} (h : ¬ E.reads w.clock st = true) :
    ((w.read E st).1.1 = false ∧ (w.read E st).1.2 ≠ 0) ∧
      ((w.read E st).2 = w.tick ∨ (w.read E st).2 = w.lose.tick) := by
  cases st with
  | write x => cases hread : E.read w.clock <;> simp_all [Env.reads, World.read]
  | _ => simp [Env.reads] at h

/-- **A loop over results that can be read.**

**Proof sketch.** By induction on the results. Each of them is read, and `mysql_next_result` says
that there is another one as long as there is. -/
lemma readResults_ok {ret : ℤ} {failing : Bool} (hw : w.link ≠ .null) {sts : List (Stmt W)}
    (h : E.readable w.clock sts = true) :
    readResults E q ret failing sts w = (.ok (), { w with clock := w.clock + sts.length }) := by
  induction sts generalizing w with
  | nil => rfl
  | cons st sts ih =>
    rw [Env.readable, Bool.and_eq_true] at h
    obtain ⟨hread, hworld⟩ := World.read_ok h.1
    rw [readResults, bind_ok (get_apply _), bind_ok (modify_apply _ _), if_neg hread, hworld]
    by_cases hnil : sts = []
    · subst hnil
      rw [if_neg]
      · rfl
      · cases failing <;> simp [mysqlNextResult]
    · have hnext : mysqlNextResult sts failing = 0 := by
        simp [mysqlNextResult, hnil]
      rw [if_pos hnext, ih (w := w.tick) hw h.2]
      simp only [World.tick, List.length_cons, Nat.add_assoc, Nat.add_comm 1]

/-- **A loop over results of which one cannot be read** throws.

**Proof sketch.** By induction on the statements. The loop reads the results that can be read and
throws at the first one that cannot; it does not end before, since there is another result. -/
lemma readResults_error (ret : ℤ) (failing : Bool) (hw : w.link ≠ .null) {sts : List (Stmt W)}
    (h : ¬ E.readable w.clock sts = true) :
    ∃ e k, e ≠ .crash ∧ (readResults E q ret failing sts w = (.error e, { w with clock := k }) ∨
      readResults E q ret failing sts w = (.error e, { w.lose with clock := k })) := by
  induction sts generalizing w with
  | nil => exact absurd rfl h
  | cons st sts ih =>
    rw [Env.readable, Bool.and_eq_true] at h
    rw [readResults, bind_ok (get_apply _), bind_ok (modify_apply _ _)]
    by_cases hread : E.reads w.clock st = true
    · obtain ⟨hset, hworld⟩ := World.read_ok hread
      have hrest : ¬ E.readable w.tick.clock sts = true := fun hrest => h ⟨hread, hrest⟩
      have hnext : mysqlNextResult sts failing = 0 := by
        cases sts with
        | nil => exact absurd rfl hrest
        | cons st' sts => rfl
      rw [if_neg hset, if_pos hnext, hworld]
      exact ih (w := w.tick) hw hrest
    · obtain ⟨hset, hworld⟩ := World.read_error hread
      have hlink : (w.read E st).2.link ≠ .null := by
        rcases hworld with hworld | hworld
        · rw [hworld]
          exact hw
        · rw [hworld]
          exact nofun
      rw [if_pos hset, bind_ok (mysqlError_apply hlink)]
      refine ⟨.sql ret ("mysql_field_count error：" ++ q.sql ++ "! error msg: " ++
        E.error (w.read E st).2.clock), w.clock + 1, nofun, ?_⟩
      rcases hworld with hworld | hworld
      · left
        rw [hworld]
        rfl
      · right
        rw [hworld]
        rfl

/-! ## `exec` -/

/-- What `exec` does once its text is answered without an error. -/
def readAnswer (E : Env) (q : Script W) (answer : Answer W) : OnWorld W ℤ := do
  readResults E q answer.ret answer.failing answer.results
  return if answer.affected = -1 then 0 else answer.affected

/-- **How the reading of an answer ends**: it returns if all results can be read, and otherwise it
throws, with the connection or without it. -/
lemma readAnswer_cases (hw : w.link ≠ .null) (answer : Answer W) :
    (E.readable w.clock answer.results = true ∧ ∃ n, readAnswer E q answer w =
      (.ok n, { w with clock := w.clock + answer.results.length })) ∨
    (¬ E.readable w.clock answer.results = true ∧ ∃ e k, e ≠ .crash ∧
      (readAnswer E q answer w = (.error e, { w with clock := k }) ∨
        readAnswer E q answer w = (.error e, { w.lose with clock := k }))) := by
  by_cases h : E.readable w.clock answer.results = true
  · exact Or.inl ⟨h, _, bind_ok (readResults_ok hw h) _⟩
  · obtain ⟨e, k, he, hrun⟩ :=
      readResults_error (q := q) answer.ret answer.failing hw h
    refine Or.inr ⟨h, e, k, he, ?_⟩
    rcases hrun with hrun | hrun
    · exact Or.inl (bind_error hrun _)
    · exact Or.inr (bind_error hrun _)

/-- With a handle, `exec` begins with its text. -/
lemma exec_apply (hw : w.link ≠ .null) :
    exec E q w = (do
      let answer ← queryTwice E q
      if answer.ret = 0 then readAnswer E q answer
      else
        let msg ← mysqlError E
        throw (.sql answer.ret (sqlError q msg)) : OnWorld W ℤ) w := by
  have hcheck : checkHandle E w = (.ok (), w) := by
    rw [checkHandle, bind_ok (get_apply _), if_neg hw]
    rfl
  rw [exec, bind_ok hcheck]
  rfl

/-- **A text that is answered without an error.** -/
lemma exec_accepted (hup : w.link = .up) (h : E.Accepts w.clock q) :
    exec E q w = readAnswer E q (E.accepted w.clock q) (w.accept E q) := by
  have hw := ne_null_of_up hup
  have hret : (E.accepted w.clock q).ret = 0 := rfl
  have hquery : mysqlQuery E q w = (.ok (E.accepted w.clock q), w.accept E q) := by
    rw [mysqlQuery_apply hw, World.query_accepted hup h]
  have htwice : queryTwice E q w = (.ok (E.accepted w.clock q), w.accept E q) := by
    rw [queryTwice, bind_ok hquery, if_pos hret]
    rfl
  rw [exec_apply hw, bind_ok htwice, if_pos hret]

/-- The text is refused and no connection is found: `exec` throws, and it has handed a null handle
to `mysql_error` twice. -/
lemma exec_lost (hw : w.link ≠ .null) (h : ¬ (w.link = .up ∧ E.Accepts w.clock q))
    (hretry : E.retry (decide (w.link = .up ∧ E.query w.clock = .answered)) (w.clock + 1) = none) :
    ∃ e, exec E q w = (.error e, (w.query E q).2.closed.misuse) ∧ e ≠ .crash := by
  obtain ⟨hret, hlink, hup, hclock, _⟩ := World.query_refused (E := E) (q := q) hw h
  rw [← hup, ← hclock] at hretry
  have hping := ping_error hlink hretry
  have htwice : ∃ e, queryTwice E q w = (.error e, (w.query E q).2.closed.misuse) ∧
      e ≠ .crash := by
    rw [queryTwice, bind_ok (mysqlQuery_apply hw), hret, if_neg Int.one_ne_zero, bind_ok hping]
    exact ⟨_, rfl, nofun⟩
  obtain ⟨e, htwice, he⟩ := htwice
  rw [exec_apply hw]
  exact ⟨e, bind_error htwice _, he⟩

/-- **The text is refused and sent again.**

**Proof sketch.** The first answer is an error, so `ping` is called, which finds a connection, and
the text is sent once more. What this answers is what `exec` reads or throws. -/
lemma exec_retry (hw : w.link ≠ .null) (h : ¬ (w.link = .up ∧ E.Accepts w.clock q)) {kept : Bool}
    {c : ℕ} (hretry : E.retry (decide (w.link = .up ∧ E.query w.clock = .answered)) (w.clock + 1) =
      some (kept, c)) :
    (E.Accepts c q → exec E q w = readAnswer E q (E.accepted c q)
      (((w.query E q).2.reopened kept c).accept E q)) ∧
    (¬ E.Accepts c q → ∃ e,
      exec E q w = (.error e, (((w.query E q).2.reopened kept c).query E q).2) ∧
      e ≠ .crash) := by
  obtain ⟨hret, hlink, hup, hclock, _⟩ := World.query_refused (E := E) (q := q) hw h
  rw [← hup, ← hclock] at hretry
  have hping := ping_ok hlink hretry
  have hopen : ((w.query E q).2.reopened kept c).link = .up := rfl
  have hnull : ((w.query E q).2.reopened kept c).link ≠ .null := nofun
  have htwice : queryTwice E q w = mysqlQuery E q ((w.query E q).2.reopened kept c) := by
    rw [queryTwice, bind_ok (mysqlQuery_apply hw), hret, if_neg Int.one_ne_zero, bind_ok hping,
      if_pos rfl]
  rw [mysqlQuery_apply hnull] at htwice
  rw [exec_apply hw, bind_ok htwice]
  constructor
  · intro hacc
    have hret : (E.accepted c q).ret = 0 := rfl
    rw [World.query_accepted hopen hacc]
    exact congrFun (if_pos hret) _
  · intro hacc
    obtain ⟨hret, hlink, -⟩ := World.query_refused (E := E) (q := q) hnull fun h => hacc h.2
    rw [hret, if_neg Int.one_ne_zero, bind_ok (mysqlError_apply hlink)]
    exact ⟨_, rfl, nofun⟩

/-- Without a handle, `exec` throws if it gets one. -/
lemma exec_null_connects (hw : w.link = .null) (h : E.connects w.clock = true) :
    exec E q w = (.error (.std "Failed connect to mysql!"), w.reconnected E) := by
  have hcheck : checkHandle E w =
      (.error (.std "Failed connect to mysql!"), w.reconnected E) := by
    rw [checkHandle, bind_ok (get_apply _), if_pos hw, bind_ok (tryConnect_apply _), h]
    rfl
  exact bind_error hcheck _

/-- Without a handle, `exec` hands the null pointer to `mysql_query` if it does not get one. -/
lemma exec_null_crash (hw : w.link = .null) (h : ¬ E.connects w.clock = true) :
    exec E q w = (.error .crash, (w.reconnected E).misuse) := by
  have hcheck : checkHandle E w = (.ok (), w.reconnected E) := by
    rw [checkHandle, bind_ok (get_apply _), if_pos hw, bind_ok (tryConnect_apply _),
      (Bool.not_eq_true _).mp h]
    rfl
  have hlink : (w.reconnected E).link = .null := if_neg h
  have hquery : mysqlQuery E q (w.reconnected E) = (.error .crash, (w.reconnected E).misuse) := by
    rw [mysqlQuery, bind_ok (get_apply _), if_pos hlink]
    rfl
  have htwice : queryTwice E q (w.reconnected E) = _ := bind_error hquery _
  rw [exec, bind_ok hcheck, bind_error htwice]

/-- **An `exec` that returns** has a connection, and its text was answered without an error.

**Proof sketch.** By cases on whether there is a handle, whether the first text is accepted, and
whether the connection is found again. In each case that does not throw, the text accepted last is
the one. -/
lemma exec_returned {n : ℤ} {w' : World W} (h : exec E q w = (.ok n, w')) :
    w'.link = .up ∧ ∃ w₁ : World W, E.Accepts w₁.clock q ∧ w'.server = (w₁.accept E q).server := by
  -- once the text is answered without an error
  have hread (w₁ : World W) (hup : w₁.link = .up) (hacc : E.Accepts w₁.clock q)
      (hrun : readAnswer E q (E.accepted w₁.clock q) (w₁.accept E q) = (.ok n, w')) :
      w'.link = .up ∧ ∃ w₁ : World W, E.Accepts w₁.clock q ∧
        w'.server = (w₁.accept E q).server := by
    have hlink : (w₁.accept E q).link = .up := hup
    rcases readAnswer_cases (E := E) (q := q) (ne_null_of_up hlink)
      (E.accepted w₁.clock q) with ⟨_, m, hrun'⟩ | ⟨_, e, k, _, hrun' | hrun'⟩
    · cases hrun'.symm.trans hrun
      exact ⟨hlink, w₁, hacc, rfl⟩
    · cases hrun'.symm.trans hrun
    · cases hrun'.symm.trans hrun
  by_cases hw : w.link = .null
  · by_cases hc : E.connects w.clock = true
    · cases (exec_null_connects hw hc).symm.trans h
    · cases (exec_null_crash hw hc).symm.trans h
  by_cases hacc : w.link = .up ∧ E.Accepts w.clock q
  · exact hread w hacc.1 hacc.2 ((exec_accepted hacc.1 hacc.2).symm.trans h)
  cases hretry : E.retry (decide (w.link = .up ∧ E.query w.clock = .answered)) (w.clock + 1) with
  | none =>
    obtain ⟨e, hrun, _⟩ := exec_lost hw hacc hretry
    cases hrun.symm.trans h
  | some retry =>
    obtain ⟨kept, c⟩ := retry
    obtain ⟨hok, herror⟩ := exec_retry hw hacc hretry
    by_cases hacc' : E.Accepts c q
    · exact hread ((w.query E q).2.reopened kept c) rfl hacc' ((hok hacc').symm.trans h)
    · obtain ⟨e, hrun, _⟩ := herror hacc'
      cases hrun.symm.trans h

/-! ## What `exec` preserves -/

/-- The statements that are executed are the first ones of the text. -/
lemma executed_isPrefix (fails : ℕ → Bool) (sts : List (Stmt W)) : executed fails sts <+: sts := by
  induction sts generalizing fails with
  | nil => exact List.prefix_refl _
  | cons st sts ih =>
    rw [executed]
    split
    · exact List.nil_prefix
    · exact (List.prefix_cons_inj st).mpr (ih _)

section Preserves

variable {I : Server W → Prop} (habandon : ∀ s, I s → I s.abandon)
include habandon

/-- A text whose statements preserve it.

**Proof sketch.** The statements that are executed are among those of the text, and each preserves
it; a connection that is lost abandons a transaction, which preserves it too. -/
lemma World.preserves_query (happly : ∀ st ∈ q.statements, ∀ s, I s → I (s.apply st))
    (hw : I w.server) : I (w.query E q).2.server := by
  have hserve : I (w.serve (executed (E.fails w.clock) q.statements)).server := by
    have hsub : ∀ st ∈ executed (E.fails w.clock) q.statements, st ∈ q.statements :=
      fun st hst => (executed_isPrefix _ _).subset hst
    rw [World.serve]
    revert hsub hw
    generalize executed (E.fails w.clock) q.statements = sts
    generalize w.server = s
    intro hs hsub
    induction sts generalizing s with
    | nil => exact hs
    | cons st sts ih =>
      rw [List.foldl_cons]
      exact ih _ (happly st (hsub st List.mem_cons_self) s hs)
        fun st' hst' => hsub st' (List.mem_cons_of_mem _ hst')
  cases hlink : w.link with
  | up =>
    cases hquery : E.query w.clock with
    | answered =>
      simp only [World.query, hlink, hquery]
      exact hserve
    | lostBefore =>
      simp only [World.query, hlink, hquery]
      exact habandon _ hw
    | lostAfter =>
      simp only [World.query, hlink, hquery]
      exact habandon _ hserve
  | down =>
    simp only [World.query, hlink]
    exact hw
  | null =>
    simp only [World.query, hlink]
    exact hw

/-- The reading of an answer. -/
lemma preserves_readAnswer (hw : w.link ≠ .null) (answer : Answer W) (hI : I w.server) :
    I (readAnswer E q answer w).2.server := by
  rcases readAnswer_cases (E := E) (q := q) hw answer with
    ⟨_, n, hrun⟩ | ⟨_, e, k, _, hrun | hrun⟩
  · rw [hrun]
    exact hI
  · rw [hrun]
    exact hI
  · rw [hrun]
    exact habandon _ hI

/-- **What a text and the loss of a connection preserve, `exec` preserves.**

**Proof sketch.** `exec` sends its text at most twice, and between and behind this it at most loses
a connection. Each of these steps preserves it. -/
lemma preserves_exec (happly : ∀ st ∈ q.statements, ∀ s, I s → I (s.apply st)) :
    Preserves (fun w : World W => I w.server) (exec E q) := by
  intro w hI
  by_cases hw : w.link = .null
  · by_cases hc : E.connects w.clock = true
    · rw [exec_null_connects hw hc]
      exact habandon _ hI
    · rw [exec_null_crash hw hc]
      exact habandon _ hI
  have hquery : I (w.query E q).2.server := World.preserves_query habandon happly hI
  by_cases hacc : w.link = .up ∧ E.Accepts w.clock q
  · rw [World.query_accepted hacc.1 hacc.2] at hquery
    have hlink : (w.accept E q).link ≠ .null := hw
    rw [exec_accepted hacc.1 hacc.2]
    exact preserves_readAnswer habandon hlink _ hquery
  cases hretry : E.retry (decide (w.link = .up ∧ E.query w.clock = .answered)) (w.clock + 1) with
  | none =>
    obtain ⟨e, hrun, _⟩ := exec_lost hw hacc hretry
    rw [hrun]
    exact habandon _ hquery
  | some retry =>
    obtain ⟨kept, c⟩ := retry
    obtain ⟨hok, herror⟩ := exec_retry hw hacc hretry
    have hopen : I ((w.query E q).2.reopened kept c).server := by
      cases kept with
      | true => exact hquery
      | false => exact habandon _ hquery
    have hagain : I (((w.query E q).2.reopened kept c).query E q).2.server :=
      World.preserves_query habandon happly hopen
    by_cases hacc' : E.Accepts c q
    · have hlink : (((w.query E q).2.reopened kept c).accept E q).link ≠ .null := nofun
      have hupdated := World.query_accepted (E := E) (q := q)
        (w := (w.query E q).2.reopened kept c) rfl hacc'
      rw [hupdated] at hagain
      rw [hok hacc']
      exact preserves_readAnswer habandon hlink _ hagain
    · obtain ⟨e, hrun, _⟩ := herror hacc'
      rw [hrun]
      exact hagain

end Preserves

end HkuUtils.MySQL
