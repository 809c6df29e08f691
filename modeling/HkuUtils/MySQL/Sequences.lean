import HkuUtils.MySQL.Calls

set_option relaxedAutoImplicit false
set_option autoImplicit false

/-!
# Statements and their transaction

A transaction is started, some changes are executed, and it is committed; if a call throws, it is
rolled back. When the connection is lost, the server forgets the transaction, and `exec` sends its
text again on the new connection, where no transaction is open.

## Main definitions

* `HkuUtils.MySQL.session` — the sequence of calls.
* `HkuUtils.MySQL.KeepsStatements` — all changes are stored by it or none.
* `HkuUtils.MySQL.Env.SafeChange`, `Env.SafeCommit`, `Safe` — what must not happen at the calls.

## Main results

* `HkuUtils.MySQL.exec_single_accepted`, `exec_single_lost`, `exec_single_retry` — a text with one
  statement.
* `HkuUtils.MySQL.exec_change_safe`, `exec_change_stray`, `commit_ends`, `transaction_ok` — the
  calls one by one.
* `HkuUtils.MySQL.body_keeps_iff` — the calls after the start of the transaction.
* `HkuUtils.MySQL.session_keeps_iff`, `session_strays` — when all changes are stored or none, and a
  run in which a change is stored outside of the transaction.
-/

namespace HkuUtils.MySQL

open Fallible

variable {W : Type}

/-! ## The sequence of calls -/

section Session

variable (E : Env) (text : W → String)

/-- The text of a change. -/
abbrev change (x : W) : Script W := ⟨text x, [.write x]⟩

/-- The changes and the commit. -/
def body : List W → OnWorld W Unit
  | [] => commit E
  | x :: xs => do
    let _ ← exec E (change text x)
    body xs

/-- A rollback follows an exception. -/
def guarded (p : OnWorld W Unit) : OnWorld W Unit :=
  tryCatch p fun
    | .crash => throw .crash
    | e => do
      rollback E
      throw e

/-- The sequence of calls. -/
def session (xs : List W) : OnWorld W Unit :=
  guarded E (do transaction E; body E text xs)

/-- All or none of the changes `xs`, when `d` was stored and `z` was executed outside of a
transaction before: no other change is executed outside of a transaction, each one is stored at most
once, all are stored if the run returns, and none if it throws. -/
def AllOrNone (d z xs : List W) (r : Except Failure Unit × World W) : Prop :=
  r.2.server.strays = z ∧ ∃ ys, r.2.server.durable = d ++ ys ∧ ys.Sublist xs ∧
    ((∃ u, r.1 = .ok u) → ys = xs) ∧ ((∃ e, r.1 = .error e) → ys = [])

/-- The sequence of calls keeps the changes in their transaction. -/
def KeepsStatements (w : World W) (xs : List W) : Prop :=
  AllOrNone w.server.durable w.server.strays xs (session E text xs w)

end Session

/-! ## One statement -/

section Statement

variable {E : Env} {w : World W} {sql : String} {st : Stmt W} {c : ℕ}

/-- The server executes the only statement of a text. -/
def Env.Executes (E : Env) (c : ℕ) : Prop := E.query c ≠ .lostBefore ∧ E.fails c 0 = false

instance (c : ℕ) : Decidable (E.Executes c) := inferInstanceAs (Decidable (_ ∧ _))

/-- The server executes the only statement of a text, and the answer arrives. -/
def Env.Answers (E : Env) (c : ℕ) : Prop := E.query c = .answered ∧ E.fails c 0 = false

instance (c : ℕ) : Decidable (E.Answers c) := inferInstanceAs (Decidable (_ ∧ _))

/-- A text with one statement is answered without an error. -/
lemma accepts_single_iff : E.Accepts c ⟨sql, [st]⟩ ↔ E.Answers c := by
  rw [Env.Accepts, Env.Answers, executed]
  by_cases h : E.fails c 0 = true
  · simp [h]
  · simp [h]

/-- Then the server has executed it. -/
lemma Env.Answers.executes (h : E.Answers c) : E.Executes c := by
  obtain ⟨hquery, hfails⟩ := h
  refine ⟨fun hlost => ?_, hfails⟩
  rw [hquery] at hlost
  cases hlost

/-- What a text with one statement makes of the server. -/
def Env.after (E : Env) (c : ℕ) (st : Stmt W) (s : Server W) : Server W :=
  match E.query c with
  | .answered => if E.fails c 0 then s else s.apply st
  | .lostBefore => s.abandon
  | .lostAfter => (if E.fails c 0 then s else s.apply st).abandon

/-- The server after a text with one statement. -/
lemma query_single_server (hup : w.link = .up) :
    (w.query E ⟨sql, [st]⟩).2.server = E.after w.clock st w.server := by
  have hserve : (w.serve (executed (E.fails w.clock) [st])).server =
      if E.fails w.clock 0 then w.server else w.server.apply st := by
    rw [executed]
    split <;> rfl
  cases hquery : E.query w.clock with
  | answered =>
    simp only [World.query, hup, hquery, Env.after]
    exact hserve
  | lostBefore =>
    simp only [World.query, hup, hquery, Env.after]
    rfl
  | lostAfter =>
    simp only [World.query, hup, hquery, Env.after, ← hserve]
    rfl

/-- The statement is executed, the answer arrives, and the connection is still there or not when the
result has been read. -/
def EndsAfter (r : Except Failure ℤ × World W) (s : Server W) (returns : Prop) : Prop :=
  (returns ∧ ∃ n, r.1 = .ok n ∧ r.2.link = .up ∧ r.2.server = s) ∨
    (¬ returns ∧ (∃ e, r.1 = .error e) ∧ (r.2.server = s ∨ r.2.server = s.abandon))

/-- How the reading of the answer to one statement ends. -/
lemma readAnswer_single (hup : w.link = .up) (hacc : E.Accepts c ⟨sql, [st]⟩)
    (hc : w.clock = c + 1) :
    EndsAfter (readAnswer E ⟨sql, [st]⟩ (E.accepted c ⟨sql, [st]⟩) w) w.server
      (E.reads (c + 1) st = true) := by
  have hw := ne_null_of_up hup
  have hresults : (E.accepted c ⟨sql, [st]⟩).results = [st] := by
    obtain ⟨_, hfails⟩ := accepts_single_iff.mp hacc
    simp [Env.accepted, executed, hfails]
  have hread : E.readable w.clock (E.accepted c ⟨sql, [st]⟩).results = E.reads (c + 1) st := by
    rw [hresults, hc, Env.readable, Env.readable, Bool.and_true]
  have hcases := readAnswer_cases (E := E) (q := ⟨sql, [st]⟩) hw (E.accepted c ⟨sql, [st]⟩)
  rw [hread] at hcases
  rcases hcases with ⟨hread, n, hrun⟩ | ⟨hread, e, k, _, hrun | hrun⟩
  · exact Or.inl ⟨hread, n, congrArg Prod.fst hrun, by rw [hrun]; exact hup, by rw [hrun]⟩
  · exact Or.inr ⟨hread, ⟨e, congrArg Prod.fst hrun⟩, Or.inl (by rw [hrun])⟩
  · exact Or.inr ⟨hread, ⟨e, congrArg Prod.fst hrun⟩, Or.inr (by rw [hrun]; rfl)⟩

/-- The text is answered without an error. -/
lemma exec_single_accepted (hup : w.link = .up) (hacc : E.Accepts w.clock ⟨sql, [st]⟩) :
    EndsAfter (exec E ⟨sql, [st]⟩ w) (w.server.apply st) (E.reads (w.clock + 1) st = true) := by
  have hserver : (w.accept E ⟨sql, [st]⟩).server = w.server.apply st := by
    obtain ⟨_, hfails⟩ := accepts_single_iff.mp hacc
    simp [World.accept, World.serve, World.tick, executed, hfails]
  rw [exec_accepted hup hacc, ← hserver]
  exact readAnswer_single hup hacc rfl

/-- The text is refused, and no connection is found. -/
lemma exec_single_lost (hup : w.link = .up) (hacc : ¬ E.Accepts w.clock ⟨sql, [st]⟩)
    (hretry : E.retry (E.query w.clock = .answered) (w.clock + 1) = none) :
    (∃ e, (exec E ⟨sql, [st]⟩ w).1 = .error e) ∧
      (exec E ⟨sql, [st]⟩ w).2.server = (E.after w.clock st w.server).abandon := by
  have hw := ne_null_of_up hup
  obtain ⟨e, hrun, _⟩ := exec_lost (q := ⟨sql, [st]⟩) hw (fun h => hacc h.2)
    (by simpa [hup] using hretry)
  have hserver : (w.query E ⟨sql, [st]⟩).2.server = _ := query_single_server hup
  rw [hrun, ← hserver]
  exact ⟨⟨e, rfl⟩, rfl⟩

/-- The server when the text is sent again. -/
def Env.between (E : Env) (c : ℕ) (st : Stmt W) (kept : Bool) (s : Server W) : Server W :=
  if kept then E.after c st s else (E.after c st s).abandon

/-- The text is refused and sent again.

**Proof sketch.** This is `exec_retry` for a text with one statement. What the first sending left
on the server, with the connection kept or not, is `Env.between`. -/
lemma exec_single_retry (hup : w.link = .up) (hacc : ¬ E.Accepts w.clock ⟨sql, [st]⟩) {kept : Bool}
    (hretry : E.retry (E.query w.clock = .answered) (w.clock + 1) = some (kept, c)) :
    (E.Accepts c ⟨sql, [st]⟩ → EndsAfter (exec E ⟨sql, [st]⟩ w)
      ((E.between w.clock st kept w.server).apply st) (E.reads (c + 1) st = true)) ∧
    (¬ E.Accepts c ⟨sql, [st]⟩ → (∃ e, (exec E ⟨sql, [st]⟩ w).1 = .error e) ∧
      (exec E ⟨sql, [st]⟩ w).2.server = E.after c st (E.between w.clock st kept w.server)) := by
  have hw := ne_null_of_up hup
  obtain ⟨hok, herror⟩ := exec_retry (q := ⟨sql, [st]⟩) hw (fun h => hacc h.2)
    (by simpa [hup] using hretry)
  let w₂ : World W := (w.query E ⟨sql, [st]⟩).2.reopened kept c
  have hserver : w₂.server = E.between w.clock st kept w.server := by
    have hfirst : (w.query E ⟨sql, [st]⟩).2.server = _ := query_single_server hup
    rw [Env.between, ← hfirst]
    cases kept with
    | true => rfl
    | false => rfl
  constructor
  · intro hacc'
    have haccept : (w₂.accept E ⟨sql, [st]⟩).server = w₂.server.apply st := by
      obtain ⟨_, hfails⟩ := accepts_single_iff.mp hacc'
      have hfails' : E.fails w₂.clock 0 = false := hfails
      simp [World.accept, World.serve, World.tick, executed, hfails']
    rw [hok hacc', ← hserver, ← haccept]
    exact readAnswer_single rfl hacc' rfl
  · intro hacc'
    obtain ⟨e, hrun, _⟩ := herror hacc'
    rw [hrun, ← hserver]
    exact ⟨⟨e, rfl⟩, query_single_server (w := w₂) rfl⟩

/-- The changes that are stored, and those that were executed outside of a transaction. -/
def Server.stored (s : Server W) : List W × List W := (s.durable, s.strays)

/-- The connection is the same after `ping` only if it was there before. -/
lemma Env.up_of_retry {up : Bool} {c' : ℕ} (h : E.retry up c = some (true, c')) : up = true := by
  unfold Env.retry at h
  cases hpinged : E.pinged up c with
  | none =>
    simp only [hpinged] at h
    split at h
    · cases h
    · cases h
  | some kept =>
    simp only [hpinged, Option.some.injEq, Prod.mk.injEq] at h
    obtain ⟨rfl, _⟩ := h
    unfold Env.pinged at hpinged
    cases up with
    | true => rfl
    | false => cases hping : E.ping c <;> simp [hping] at hpinged

/-- A text whose statement is not executed. -/
lemma Env.after_of_not_executes (h : ¬ E.Executes c) (s : Server W) :
    E.after c st s = if E.query c = .answered then s else s.abandon := by
  have hfails (hquery : E.query c ≠ .lostBefore) : E.fails c 0 = true := by
    by_contra hfails
    exact h ⟨hquery, (Bool.not_eq_true _).mp hfails⟩
  cases hquery : E.query c with
  | answered => simp [Env.after, hquery, hfails (by rw [hquery]; exact nofun)]
  | lostBefore => simp [Env.after, hquery]
  | lostAfter => simp [Env.after, hquery, hfails (by rw [hquery]; exact nofun)]

/-- A text whose statement is executed. -/
lemma Env.after_of_executes (h : E.Executes c) (s : Server W) :
    E.after c st s = if E.query c = .answered then s.apply st else (s.apply st).abandon := by
  cases hquery : E.query c with
  | answered => simp [Env.after, hquery, h.2]
  | lostBefore => exact absurd hquery h.1
  | lostAfter => simp [Env.after, hquery, h.2]

/-- The server is unchanged when a text that was refused is sent again on the same connection. -/
lemma Env.between_kept (hacc : ¬ E.Accepts c ⟨sql, [st]⟩) {up : Bool} {c' c'' : ℕ}
    (hup : up = decide (E.query c = .answered)) (hretry : E.retry up c' = some (true, c''))
    (s : Server W) : E.between c st true s = s := by
  have hquery : E.query c = .answered := by simpa [hup] using Env.up_of_retry hretry
  have hnot : ¬ E.Executes c := fun h => hacc (accepts_single_iff.mpr ⟨hquery, h.2⟩)
  rw [Env.between, if_pos rfl, Env.after_of_not_executes hnot, if_pos hquery]

end Statement

/-! ## A change -/

section Change

variable {E : Env} {w : World W} {x : W} {d p z : List W}

/-- What must not happen when a change is executed: that its text is sent again on another
connection than the one with the transaction, and the server executes it there. -/
def Env.SafeChange (E : Env) (c : ℕ) : Prop :=
  E.Answers c ∨ ∀ c', E.retry (E.query c = .answered) (c + 1) = some (false, c') → ¬ E.Executes c'

/-- Inside of a transaction a change is not stored. -/
lemma stored_after_change {s : Server W} (hs : s.pending = some p) (c : ℕ) :
    (E.after c (.write x) s).stored = s.stored := by
  by_cases h : E.Executes c
  · rw [Env.after_of_executes h, Server.apply]
    simp only [hs]
    split <;> rfl
  · rw [Env.after_of_not_executes h]
    split <;> rfl

/-- **A change that is executed inside of its transaction**, or not at all.

**Proof sketch.** If the first text is answered, the change is in the transaction. Otherwise the
connection is kept, and the change is sent again inside the transaction, or is lost together with
the transaction, and then the second text may not be executed. -/
lemma exec_change_safe (text : W → String) (x : W) (hup : w.link = .up)
    (hs : w.server = ⟨d, some p, z⟩) (hsafe : E.SafeChange w.clock) :
    (∃ n w', exec E (change text x) w = (.ok n, w') ∧ w'.link = .up ∧
      w'.server = ⟨d, some (p ++ [x]), z⟩) ∨
    (∃ e w', exec E (change text x) w = (.error e, w') ∧ w'.server.stored = (d, z)) := by
  have happly : w.server.apply (.write x) = ⟨d, some (p ++ [x]), z⟩ := by rw [hs]; rfl
  -- once it is executed in the transaction
  have hends {c : ℕ} (h : EndsAfter (exec E (change text x) w) (w.server.apply (.write x))
      (E.reads c (.write x) = true)) :
      (∃ n w', exec E (change text x) w = (.ok n, w') ∧ w'.link = .up ∧
        w'.server = ⟨d, some (p ++ [x]), z⟩) ∨
      (∃ e w', exec E (change text x) w = (.error e, w') ∧ w'.server.stored = (d, z)) := by
    rw [happly] at h
    rcases h with ⟨_, n, hn, hlink, hserver⟩ | ⟨_, ⟨e, he⟩, hserver | hserver⟩
    · exact Or.inl ⟨n, _, Prod.ext hn rfl, hlink, hserver⟩
    · exact Or.inr ⟨e, _, Prod.ext he rfl, by rw [hserver]; rfl⟩
    · exact Or.inr ⟨e, _, Prod.ext he rfl, by rw [hserver]; rfl⟩
  by_cases hacc : E.Accepts w.clock (change text x)
  · exact hends (exec_single_accepted hup hacc)
  have hpending : w.server.pending = some p := by rw [hs]
  have hstored : (E.after w.clock (.write x) w.server).stored = (d, z) := by
    rw [stored_after_change hpending, hs]
    rfl
  cases hretry : E.retry (E.query w.clock = .answered) (w.clock + 1) with
  | none =>
    obtain ⟨⟨e, he⟩, hserver⟩ := exec_single_lost hup hacc hretry
    exact Or.inr ⟨e, _, Prod.ext he rfl, by rw [hserver]; exact hstored⟩
  | some retry =>
    obtain ⟨kept, c⟩ := retry
    obtain ⟨hok, herror⟩ := exec_single_retry hup hacc hretry
    cases kept with
    | true =>
      rw [Env.between_kept hacc rfl hretry] at hok herror
      by_cases hacc' : E.Accepts c (change text x)
      · exact hends (hok hacc')
      · obtain ⟨⟨e, he⟩, hserver⟩ := herror hacc'
        refine Or.inr ⟨e, _, Prod.ext he rfl, ?_⟩
        rw [hserver, stored_after_change hpending, hs]
        rfl
    | false =>
      have hnot : ¬ E.Executes c := by
        rcases hsafe with hsafe | hsafe
        · exact absurd (accepts_single_iff.mpr hsafe) hacc
        · exact hsafe c hretry
      obtain ⟨⟨e, he⟩, hserver⟩ := herror fun h => hnot (accepts_single_iff.mp h).executes
      refine Or.inr ⟨e, _, Prod.ext he rfl, ?_⟩
      rw [hserver, Env.after_of_not_executes hnot]
      split
      · exact hstored
      · exact hstored

/-- **A change that is executed outside of its transaction.**

**Proof sketch.** The condition fails if the connection is a new one and the text is executed on
it. The transaction is gone there, so the change is stored at once. -/
lemma exec_change_stray (text : W → String) (x : W) (hup : w.link = .up)
    (hs : w.server = ⟨d, some p, z⟩) (hsafe : ¬ E.SafeChange w.clock) :
    (exec E (change text x) w).2.server.strays = z ++ [x] := by
  have hnot := not_or.mp hsafe
  obtain ⟨c, hretry, hexec⟩ : ∃ c, E.retry (E.query w.clock = .answered) (w.clock + 1) =
      some (false, c) ∧ E.Executes c := by
    simpa using hnot.2
  have hacc : ¬ E.Accepts w.clock (change text x) := fun h => hnot.1 (accepts_single_iff.mp h)
  have hpending : w.server.pending = some p := by rw [hs]
  obtain ⟨hok, herror⟩ := exec_single_retry hup hacc hretry
  have hbetween : (E.between w.clock (.write x) false w.server).strays = z ∧
      (E.between w.clock (.write x) false w.server).pending = none := by
    refine ⟨?_, rfl⟩
    have := congrArg Prod.snd (stored_after_change (E := E) (x := x) hpending w.clock)
    rw [hs] at this
    rw [hs]
    exact this
  have happly : ((E.between w.clock (.write x) false w.server).apply (.write x)).strays =
      z ++ [x] := by
    simp only [Server.apply, hbetween.2, hbetween.1]
  by_cases hacc' : E.Accepts c (change text x)
  · rcases hok hacc' with ⟨_, n, _, _, hserver⟩ | ⟨_, _, hserver | hserver⟩
    · rw [hserver, happly]
    · rw [hserver, happly]
    · rw [hserver]
      exact happly
  · rw [(herror hacc').2, Env.after_of_executes hexec]
    split
    · exact happly
    · exact happly

end Change

/-! ## The commit -/

section Commit

variable {E : Env} {w : World W} {c : ℕ} {d p z : List W}

/-- What must not happen at a commit. If the server executes it the first time, an answer has to
arrive, then or when it is sent again. If not, it may not be answered without an error on another
connection, and on the same connection it may not be executed without an answer. -/
structure Env.SafeCommit (E : Env) (c : ℕ) : Prop where
  executed : E.Executes c → E.Answers c ∨ ∃ kept c',
    E.retry (E.query c = .answered) (c + 1) = some (kept, c') ∧ E.Answers c'
  kept : ¬ E.Executes c → ∀ c', E.retry (E.query c = .answered) (c + 1) = some (true, c') →
    E.Executes c' → E.Answers c'
  replaced : ¬ E.Executes c → ∀ c', E.retry (E.query c = .answered) (c + 1) = some (false, c') →
    ¬ E.Answers c'

/-- The text of a commit. -/
abbrev commitScript (W : Type) : Script W := ⟨"COMMIT", [.commit]⟩

/-- What a text with a commit has stored. -/
lemma stored_after_commit (s : Server W) (c : ℕ) :
    (E.after c .commit s).stored =
      if E.Executes c then (s.durable ++ s.pending.getD [], s.strays) else s.stored := by
  by_cases h : E.Executes c
  · rw [if_pos h, Env.after_of_executes h]
    split <;> rfl
  · rw [if_neg h, Env.after_of_not_executes h]
    split <;> rfl

/-- A commit that is answered without an error has no result to be read. -/
lemma EndsAfter.returns {r : Except Failure ℤ × World W} {s : Server W}
    (h : EndsAfter r s (E.reads c (.commit : Stmt W) = true)) :
    ∃ n w', r = (.ok n, w') ∧ w'.server = s := by
  rcases h with ⟨_, n, hn, _, hserver⟩ | ⟨hread, _⟩
  · exact ⟨n, _, Prod.ext hn rfl, hserver⟩
  · exact absurd rfl hread

/-- How a commit ends from the world `w`, where the transaction `p` is open: it stores the
transaction or nothing, and if there is something to be stored, `SafeCommit` tells whether this is
what the caller is told. -/
def CommitEnds (E : Env) (w : World W) (d p z : List W) : Prop :=
  ∃ ys, (exec E (commitScript W) w).2.server.stored = (d ++ ys, z) ∧ (ys = p ∨ ys = []) ∧
    ((∃ n, (exec E (commitScript W) w).1 = .ok n) ∧ (p ≠ [] → (E.SafeCommit w.clock ↔ ys = p)) ∨
      (∃ e, (exec E (commitScript W) w).1 = .error e) ∧
        (p ≠ [] → (E.SafeCommit w.clock ↔ ys = [])))

/-- A commit that stores the transaction and returns. -/
lemma commitEnds_stored {s : Server W} (h : EndsAfter (exec E (commitScript W) w) s
    (E.reads c (.commit : Stmt W) = true)) (hs : s.stored = (d ++ p, z))
    (hsafe : E.SafeCommit w.clock) : CommitEnds E w d p z := by
  obtain ⟨n, w', hrun, hserver⟩ := h.returns
  refine ⟨p, ?_, Or.inl rfl, Or.inl ⟨⟨n, by rw [hrun]⟩, fun _ => iff_of_true hsafe rfl⟩⟩
  rw [hrun, hserver]
  exact hs

/-- A commit that stores nothing and throws. -/
lemma commitEnds_dropped (he : ∃ e, (exec E (commitScript W) w).1 = .error e)
    (hs : (exec E (commitScript W) w).2.server.stored = (d, z)) (hsafe : E.SafeCommit w.clock) :
    CommitEnds E w d p z := by
  refine ⟨[], ?_, Or.inr rfl, Or.inr ⟨he, fun _ => iff_of_true hsafe rfl⟩⟩
  rw [hs, List.append_nil]

/-- A commit that stores the transaction and throws. -/
lemma commitEnds_unreported (he : ∃ e, (exec E (commitScript W) w).1 = .error e)
    (hs : (exec E (commitScript W) w).2.server.stored = (d ++ p, z))
    (hsafe : ¬ E.SafeCommit w.clock) : CommitEnds E w d p z :=
  ⟨p, hs, Or.inl rfl, Or.inr ⟨he, fun hp => iff_of_false hsafe hp⟩⟩

/-- What a commit stores when no transaction is open. -/
lemma stored_apply_commit {s : Server W} {v : List W × List W} (hs : s.stored = v)
    (hp : s.pending = none) : (s.apply .commit).stored = v := by
  rw [← hs]
  exact Prod.ext (by simp [Server.stored, Server.apply, hp]) rfl

/-- What a text with a commit stores then. -/
lemma stored_after_commit_idle {s : Server W} {v : List W × List W} (hs : s.stored = v)
    (hp : s.pending = none) (c : ℕ) : (E.after c .commit s).stored = v := by
  rw [stored_after_commit]
  split
  · exact stored_apply_commit hs hp
  · exact hs

/-- **The first text is executed and its answer does not arrive**: the transaction is stored, and
an answer has to arrive to the second one.

**Proof sketch.** The transaction is stored by the first text. The second one finds none that is
open, and stores nothing more; the caller learns of the commit exactly if it is answered. -/
lemma commitEnds_executed (hup : w.link = .up) (hs : w.server = ⟨d, some p, z⟩)
    (hexec : E.Executes w.clock) (hans : ¬ E.Answers w.clock) : CommitEnds E w d p z := by
  have hacc : ¬ E.Accepts w.clock (commitScript W) := fun h => hans (accepts_single_iff.mp h)
  have hstored : (E.after w.clock .commit w.server).stored = (d ++ p, z) := by
    rw [stored_after_commit, if_pos hexec, hs]
    rfl
  cases hretry : E.retry (E.query w.clock = .answered) (w.clock + 1) with
  | none =>
    obtain ⟨he, hserver⟩ := exec_single_lost hup hacc hretry
    refine commitEnds_unreported he (by rw [hserver]; exact hstored) fun h => ?_
    rcases h.executed hexec with h | ⟨kept, c', hsome, _⟩
    · exact hans h
    · rw [hretry] at hsome
      cases hsome
  | some retry =>
    obtain ⟨kept, c⟩ := retry
    obtain ⟨hok, herror⟩ := exec_single_retry hup hacc hretry
    have hkept : kept = false := by
      cases kept with
      | true => exact absurd ⟨by simpa using Env.up_of_retry hretry, hexec.2⟩ hans
      | false => rfl
    subst hkept
    have hbetween : (E.between w.clock .commit false w.server).stored = (d ++ p, z) := hstored
    by_cases hans' : E.Answers c
    · refine commitEnds_stored (hok (accepts_single_iff.mpr hans'))
        (stored_apply_commit hbetween rfl) ?_
      exact ⟨fun _ => Or.inr ⟨false, c, hretry, hans'⟩, fun h => absurd hexec h,
        fun h => absurd hexec h⟩
    · obtain ⟨he, hserver⟩ := herror fun h => hans' (accepts_single_iff.mp h)
      refine commitEnds_unreported he ?_ fun h => ?_
      · rw [hserver]
        exact stored_after_commit_idle hbetween rfl c
      · rcases h.executed hexec with h | ⟨kept, c', hsome, h⟩
        · exact hans h
        · rw [hretry] at hsome
          cases hsome
          exact hans' h

/-- **The first text is not executed, and the transaction is still open**: it is stored if the
second text is executed, and an answer has to arrive then.

**Proof sketch.** The connection is the old one, so the second text does what the first one was to
do. -/
lemma commitEnds_kept (hup : w.link = .up) (hs : w.server = ⟨d, some p, z⟩)
    (hexec : ¬ E.Executes w.clock)
    (hretry : E.retry (E.query w.clock = .answered) (w.clock + 1) = some (true, c)) :
    CommitEnds E w d p z := by
  have hacc : ¬ E.Accepts w.clock (commitScript W) :=
    fun h => hexec (accepts_single_iff.mp h).executes
  obtain ⟨hok, herror⟩ := exec_single_retry hup hacc hretry
  rw [Env.between_kept hacc rfl hretry] at hok herror
  have hsafe (h : E.Executes c → E.Answers c) : E.SafeCommit w.clock := by
    refine ⟨fun h => absurd h hexec, fun _ c' hsome hexec' => ?_, fun _ c' hsome => ?_⟩
    · rw [hretry] at hsome
      cases hsome
      exact h hexec'
    · rw [hretry] at hsome
      cases hsome
  by_cases hans' : E.Answers c
  · refine commitEnds_stored (hok (accepts_single_iff.mpr hans')) ?_ (hsafe fun _ => hans')
    rw [hs]
    rfl
  obtain ⟨he, hserver⟩ := herror fun h => hans' (accepts_single_iff.mp h)
  have hstored : (exec E (commitScript W) w).2.server.stored = _ :=
    (congrArg Server.stored hserver).trans (stored_after_commit w.server c)
  by_cases hexec' : E.Executes c
  · rw [if_pos hexec', hs] at hstored
    exact commitEnds_unreported he hstored fun h => hans' (h.kept hexec c hretry hexec')
  · rw [if_neg hexec', hs] at hstored
    exact commitEnds_dropped he hstored (hsafe fun h => absurd h hexec')

/-- **The first text is not executed, and the transaction is gone**: nothing is stored, and the
second text may not be answered without an error.

**Proof sketch.** The transaction is gone with its connection. The second text has nothing to
store, and if it is answered the caller takes this for a commit. -/
lemma commitEnds_replaced (hup : w.link = .up) (hs : w.server = ⟨d, some p, z⟩)
    (hexec : ¬ E.Executes w.clock)
    (hretry : E.retry (E.query w.clock = .answered) (w.clock + 1) = some (false, c)) :
    CommitEnds E w d p z := by
  have hacc : ¬ E.Accepts w.clock (commitScript W) :=
    fun h => hexec (accepts_single_iff.mp h).executes
  obtain ⟨hok, herror⟩ := exec_single_retry hup hacc hretry
  have hbetween : (E.between w.clock .commit false w.server).stored = (d, z) := by
    have hstored := stored_after_commit (E := E) w.server w.clock
    rw [if_neg hexec, hs] at hstored
    rw [hs]
    exact hstored
  by_cases hans' : E.Answers c
  · obtain ⟨n, w', hrun, hserver⟩ := (hok (accepts_single_iff.mpr hans')).returns
    refine ⟨[], ?_, Or.inr rfl, Or.inl ⟨⟨n, by rw [hrun]⟩, fun hp => ?_⟩⟩
    · rw [hrun, hserver, List.append_nil]
      exact stored_apply_commit hbetween rfl
    · exact iff_of_false (fun h => h.replaced hexec c hretry hans') (Ne.symm hp)
  · obtain ⟨he, hserver⟩ := herror fun h => hans' (accepts_single_iff.mp h)
    refine commitEnds_dropped he ?_ ⟨fun h => absurd h hexec, fun _ c' hsome => ?_,
      fun _ c' hsome => ?_⟩
    · rw [hserver]
      exact stored_after_commit_idle hbetween rfl c
    · rw [hretry] at hsome
      cases hsome
    · rw [hretry] at hsome
      cases hsome
      exact hans'

/-- **What a commit stores**, and when this is what it tells the caller.

**Proof sketch.** By cases on whether the first text is answered, whether it is executed, and
whether the connection is found again and is the old one. -/
lemma commit_ends (hup : w.link = .up) (hs : w.server = ⟨d, some p, z⟩) : CommitEnds E w d p z := by
  by_cases hans : E.Answers w.clock
  · refine commitEnds_stored (exec_single_accepted hup (accepts_single_iff.mpr hans)) ?_ ?_
    · rw [hs]
      rfl
    · exact ⟨fun _ => Or.inl hans, fun h => absurd hans.executes h, fun h => absurd hans.executes h⟩
  by_cases hexec : E.Executes w.clock
  · exact commitEnds_executed hup hs hexec hans
  cases hretry : E.retry (E.query w.clock = .answered) (w.clock + 1) with
  | none =>
    have hacc : ¬ E.Accepts w.clock (commitScript W) := fun h => hans (accepts_single_iff.mp h)
    obtain ⟨he, hserver⟩ := exec_single_lost hup hacc hretry
    refine commitEnds_dropped he ?_ ⟨fun h => absurd h hexec, fun _ c' h => ?_, fun _ c' h => ?_⟩
    · rw [hserver]
      have hstored := stored_after_commit (E := E) w.server w.clock
      rw [if_neg hexec, hs] at hstored
      rw [hs]
      exact hstored
    · rw [hretry] at h
      cases h
    · rw [hretry] at h
      cases h
  | some retry =>
    obtain ⟨kept, c⟩ := retry
    cases kept with
    | true => exact commitEnds_kept hup hs hexec hretry
    | false => exact commitEnds_replaced hup hs hexec hretry

end Commit

/-! ## The run -/

section Run

variable {E : Env} {text : W → String} {w : World W} {d p z : List W}

/-- No call of the run does what it must not do, from a world with the transaction on. A commit of
no changes may do anything. -/
def SafeRun (E : Env) (text : W → String) : World W → List W → Prop
  | w, [] => w.server.pending = some [] ∨ E.SafeCommit w.clock
  | w, x :: xs => E.SafeChange w.clock ∧
    ∀ n w', exec E (change text x) w = (.ok n, w') → SafeRun E text w' xs

/-- The same, from the start of the transaction on. -/
def Safe (E : Env) (text : W → String) (w : World W) (xs : List W) : Prop :=
  ∀ u w', transaction E w = (.ok u, w') → SafeRun E text w' xs

section Preserves

variable {I : Server W → Prop} (habandon : ∀ s, I s → I s.abandon)
include habandon

/-- What the loss of a connection preserves, a rollback preserves. -/
lemma preserves_rollback : Preserves (fun w : World W => I w.server) (rollback E) := by
  refine .tryCatch (.bind (preserves_exec habandon fun st hst s hs => ?_) fun _ => .pure _)
    fun e => ?_
  · obtain rfl := List.mem_singleton.mp hst
    exact habandon s hs
  · cases e with
    | crash => exact .throw _
    | sql errcode what => exact .pure _
    | std what => exact .pure _

/-- So does the rollback after an exception. -/
lemma preserves_guarded {q : OnWorld W Unit}
    (hq : Preserves (fun w : World W => I w.server) q) :
    Preserves (fun w : World W => I w.server) (guarded E q) := by
  refine .tryCatch hq fun e => ?_
  cases e with
  | crash => exact .throw _
  | sql errcode what => exact (preserves_rollback habandon).bind fun _ => .throw _
  | std what => exact (preserves_rollback habandon).bind fun _ => .throw _

end Preserves

/-- What was executed outside of a transaction stays there. -/
lemma preserves_strays (q : Script W) :
    Preserves (fun w : World W => z <+: w.server.strays) (exec E q) := by
  refine preserves_exec (I := fun s => z <+: s.strays) (fun s hs => hs) fun st _ s hs => ?_
  cases st with
  | write x =>
    cases hp : s.pending with
    | some p =>
      simp only [Server.apply, hp]
      exact hs
    | none =>
      simp only [Server.apply, hp]
      exact hs.trans (List.prefix_append _ _)
  | _ => exact hs

/-- So it does in the calls after the start. -/
lemma preserves_strays_body (xs : List W) :
    Preserves (fun w : World W => z <+: w.server.strays) (body E text xs) := by
  induction xs with
  | nil => exact (preserves_strays _).bind fun _ => .pure _
  | cons x xs ih => exact (preserves_strays _).bind fun _ => ih

/-- A run that returns is not rolled back. -/
lemma guarded_ok {q : OnWorld W Unit} {u : Unit} {w' : World W} (h : q w = (.ok u, w')) :
    guarded E q w = (.ok u, w') := tryCatch_ok h _

/-- A run that throws, throws after the rollback, which does not store anything.

**Proof sketch.** The error is caught, the transaction rolled back, which stores nothing, and an
error thrown again; a crash is not caught. -/
lemma guarded_error {q : OnWorld W Unit} {e : Failure} {w' : World W} (h : q w = (.error e, w')) :
    (∃ e', (guarded E q w).1 = .error e') ∧
      (guarded E q w).2.server.stored = w'.server.stored := by
  have hthrow (e : Failure) : (∃ e', ((do rollback E; throw e : OnWorld W Unit) w').1 = .error e') ∧
      ((do rollback E; throw e : OnWorld W Unit) w').2.server.stored = w'.server.stored := by
    have hstored := preserves_rollback (E := E) (I := fun s => s.stored = w'.server.stored)
      (fun s hs => hs) w' rfl
    rcases hrun : rollback E w' with ⟨r, w''⟩
    rw [hrun] at hstored
    cases r with
    | ok u =>
      rw [bind_ok hrun]
      exact ⟨⟨e, rfl⟩, hstored⟩
    | error e' =>
      rw [bind_error hrun]
      exact ⟨⟨e', rfl⟩, hstored⟩
  rw [guarded, tryCatch_error h]
  cases e with
  | crash => exact ⟨⟨_, rfl⟩, rfl⟩
  | sql errcode what => exact hthrow _
  | std what => exact hthrow _

/-- Only what the run does matters. -/
lemma guarded_congr {q q' : OnWorld W Unit} {w' : World W} (h : q w = q' w') :
    guarded E q w = guarded E q' w' := by
  rcases hrun : q' w' with ⟨r, w''⟩
  rw [hrun] at h
  cases r with
  | ok u => rw [guarded_ok h, guarded_ok hrun]
  | error e => rw [guarded, guarded, tryCatch_error h, tryCatch_error hrun]

/-- A run that throws and has stored nothing. -/
lemma allOrNone_of_error {q : OnWorld W Unit} {e : Failure} {w' : World W} {xs : List W}
    (h : q w = (.error e, w')) (hs : w'.server.stored = (d, z)) :
    AllOrNone d z xs (guarded E q w) := by
  obtain ⟨⟨e', he'⟩, hstored⟩ := guarded_error (E := E) h
  rw [hs] at hstored
  obtain ⟨hdurable, hstrays⟩ := Prod.ext_iff.mp hstored
  refine ⟨hstrays, [], hdurable.trans (List.append_nil d).symm, List.nil_sublist _, ?_,
    fun _ => rfl⟩
  rintro ⟨u, hu⟩
  rw [he'] at hu
  cases hu

/-- **The commit at the end of a run.**

**Proof sketch.** If nothing is pending, both ends are the same. Otherwise what is stored is told
to the caller exactly under the condition, by `commit_ends`. -/
lemma commit_keeps_iff (hup : w.link = .up) (hs : w.server = ⟨d, some p, z⟩) :
    AllOrNone d z p (guarded E (commit E) w) ↔ p = [] ∨ E.SafeCommit w.clock := by
  obtain ⟨ys, hstored, hys, hends⟩ := commit_ends (E := E) hup hs
  have hsafe {P : Prop} (h : p ≠ [] → (E.SafeCommit w.clock ↔ P)) (hnil : p = [] → P) :
      P ↔ p = [] ∨ E.SafeCommit w.clock := by
    by_cases hp : p = []
    · exact iff_of_true (hnil hp) (Or.inl hp)
    · rw [h hp, or_iff_right hp]
  have hnil (hp : p = []) : ys = [] := by
    rcases hys with rfl | rfl
    · exact hp
    · rfl
  rcases hends with ⟨⟨n, hn⟩, hiff⟩ | ⟨⟨e, he⟩, hiff⟩
  · have hrun : commit E w = (.ok (), (exec E (commitScript W) w).2) :=
      bind_ok (Prod.ext hn rfl) _
    rw [← hsafe hiff fun hp => (hnil hp).trans hp.symm, guarded_ok hrun]
    obtain ⟨hdurable, hstrays⟩ := Prod.ext_iff.mp hstored
    constructor
    · rintro ⟨_, ys', hdurable', _, hall, _⟩
      rw [← hall ⟨(), rfl⟩]
      exact List.append_cancel_left (hdurable.symm.trans hdurable')
    · rintro rfl
      refine ⟨hstrays, ys, hdurable, List.Sublist.refl _, fun _ => rfl, ?_⟩
      rintro ⟨e, he⟩
      cases he
  · have hrun : commit E w = (.error e, (exec E (commitScript W) w).2) :=
      bind_error (Prod.ext he rfl) _
    rw [← hsafe hiff hnil]
    constructor
    · rintro ⟨_, ys', hdurable', _, _, hnone⟩
      obtain ⟨hthrow, hstored'⟩ := guarded_error (E := E) hrun
      rw [hnone hthrow] at hdurable'
      have hdurable := (congrArg Prod.fst (hstored'.trans hstored)).symm.trans hdurable'
      exact List.append_cancel_left hdurable
    · rintro rfl
      exact allOrNone_of_error hrun (by rw [hstored, List.append_nil])

/-- **The calls after the start**: all changes of the transaction are stored or none, exactly if no
call does what it must not do.

**Proof sketch.** By induction on the changes. A safe one is in the transaction, and the others
follow, or it has thrown and nothing is stored; one that is not safe has stored its change
outside. -/
lemma body_keeps_iff (text : W → String) (xs : List W) (hup : w.link = .up)
    (hs : w.server = ⟨d, some p, z⟩) :
    AllOrNone d z (p ++ xs) (guarded E (body E text xs) w) ↔ SafeRun E text w xs := by
  induction xs generalizing w p with
  | nil =>
    rw [List.append_nil, body, commit_keeps_iff hup hs, SafeRun, hs, Option.some_inj]
  | cons x xs ih =>
    by_cases hsafe : E.SafeChange w.clock
    · rcases exec_change_safe text x hup hs hsafe with
        ⟨n, w', hrun, hup', hs'⟩ | ⟨e, w', hrun, hs'⟩
      · have hrest : guarded E (body E text (x :: xs)) w = guarded E (body E text xs) w' :=
          guarded_congr (bind_ok hrun _)
        rw [hrest, List.append_cons, ih hup' hs', SafeRun]
        refine ⟨fun h => ⟨hsafe, fun n' w'' hrun' => ?_⟩, fun h => h.2 n w' hrun⟩
        cases hrun.symm.trans hrun'
        exact h
      · refine iff_of_true (allOrNone_of_error (bind_error hrun _) hs') ⟨hsafe, fun n w'' h => ?_⟩
        cases hrun.symm.trans h
    · refine iff_of_false (fun h => ?_) fun h => hsafe h.1
      have hstray := exec_change_stray text x hup hs hsafe
      have hprefix : z ++ [x] <+: (guarded E (body E text (x :: xs)) w).2.server.strays := by
        rcases hrun : exec E (change text x) w with ⟨r, w'⟩
        rw [hrun] at hstray
        have hw' : z ++ [x] <+: w'.server.strays := by
          have hstrays : w'.server.strays = z ++ [x] := hstray
          simp only [hstrays, List.prefix_refl]
        cases r with
        | ok n =>
          have hrest : guarded E (body E text (x :: xs)) w = guarded E (body E text xs) w' :=
            guarded_congr (bind_ok hrun _)
          rw [hrest]
          exact preserves_guarded (I := fun s => z ++ [x] <+: s.strays) (fun s hs => hs)
            (preserves_strays_body xs) w' hw'
        | error e =>
          have hstored := (guarded_error (E := E) (bind_error hrun fun _ => body E text xs)).2
          have hstrays : (guarded E (body E text (x :: xs)) w).2.server.strays =
            w'.server.strays := congrArg Prod.snd hstored
          rw [hstrays]
          exact hw'
      rw [h.1] at hprefix
      have hlength := hprefix.length_le
      rw [List.length_append, List.length_singleton] at hlength
      omega

/-- The start of a transaction stores nothing. -/
lemma transaction_stored (hs : w.server = ⟨d, none, z⟩) :
    (exec E ⟨"BEGIN", [.start]⟩ w).2.server.stored = (d, z) := by
  let I (s : Server W) : Prop := s.stored = (d, z) ∧ s.pending.getD [] = []
  refine (preserves_exec (I := I) (fun s hI => ⟨hI.1, rfl⟩) (fun st hst s hI => ?_) w ?_).1
  · obtain rfl := List.mem_singleton.mp hst
    have hdurable : s.durable ++ s.pending.getD [] = s.durable := by rw [hI.2, List.append_nil]
    exact ⟨(congrArg (fun d => (d, s.strays)) hdurable).trans hI.1, rfl⟩
  · show I w.server
    rw [hs]
    exact ⟨rfl, rfl⟩

/-- A transaction that is started. -/
lemma transaction_ok {u : Unit} {w' : World W} (hs : w.server = ⟨d, none, z⟩)
    (h : transaction E w = (.ok u, w')) : w'.link = .up ∧ w'.server = ⟨d, some [], z⟩ := by
  have hstored := transaction_stored (E := E) hs
  rcases hrun : exec E ⟨"BEGIN", [.start]⟩ w with ⟨r, w''⟩
  rw [hrun] at hstored
  cases r with
  | error e => cases (bind_error hrun fun _ => pure ()).symm.trans h
  | ok n =>
    cases (bind_ok hrun fun _ => pure ()).symm.trans h
    obtain ⟨hup, w₁, hacc, hserver⟩ := exec_returned hrun
    have hstart : w'.server = w₁.server.apply .start := by
      obtain ⟨_, hfails⟩ := accepts_single_iff.mp hacc
      rw [hserver]
      simp [World.accept, World.serve, World.tick, executed, hfails]
    refine ⟨hup, ?_⟩
    obtain ⟨hdurable, hstrays⟩ := Prod.ext_iff.mp hstored
    rw [hstart] at hdurable hstrays ⊢
    exact congrArg₂ (fun d z => Server.mk d (some []) z) hdurable hstrays

/-- **Statements and their transaction**: for every sequence of changes between the start of a
transaction and its commit, and everything that can happen at the calls of the client library, no
change is executed outside of the transaction, each one is stored at most once, all are stored if
the sequence returns, and none if a call throws and a rollback follows, exactly if no call does what
it must not do.

**Proof sketch.** Induction on the changes, from the world in which the transaction holds those
before. A change that is executed after `ping` has replaced the connection is executed outside of
the transaction, and it stays there. The commit stores the transaction if it is still open; whether
it returns is another matter, and this is what `SafeCommit` compares. -/
theorem session_keeps_iff (E : Env) (text : W → String) (link : Link) (durable : List W)
    (clock : ℕ) (xs : List W) :
    KeepsStatements E text (idleWorld link durable clock) xs ↔
      Safe E text (idleWorld link durable clock) xs := by
  rcases hrun : transaction E (idleWorld link durable clock) with ⟨r, w'⟩
  cases r with
  | ok u =>
    obtain ⟨hup, hserver⟩ := transaction_ok (d := durable) (z := []) rfl hrun
    have hsession : session E text xs (idleWorld link durable clock) =
        guarded E (body E text xs) w' := guarded_congr (bind_ok hrun _)
    have hiff := body_keeps_iff (E := E) text xs hup hserver
    rw [KeepsStatements, hsession]
    refine hiff.trans ⟨fun h u' w'' hrun' => ?_, fun h => h u w' hrun⟩
    cases hrun.symm.trans hrun'
    exact h
  | error e =>
    have hstored : w'.server.stored = (durable, []) := by
      have hstored := transaction_stored (E := E) (w := idleWorld link durable clock) rfl
      rcases hexec : exec E ⟨"BEGIN", [.start]⟩ (idleWorld link durable clock) with ⟨r, w''⟩
      rw [hexec] at hstored
      cases r with
      | ok n => cases (bind_ok hexec fun _ => pure ()).symm.trans hrun
      | error e' =>
        cases (bind_error hexec fun _ => pure ()).symm.trans hrun
        exact hstored
    refine iff_of_true (allOrNone_of_error (bind_error hrun _) hstored) fun u w'' hrun' => ?_
    cases hrun.symm.trans hrun'

end Run

/-- The connection is lost when the second of two changes is sent: it is stored outside of the
transaction and the first one not at all, and the sequence returns. When it is lost at the commit,
the sequence returns and nothing is stored. -/
theorem session_strays : ∃ (E E' : Env) (text : String → String) (w w' : World String),
    session E text ["a", "b"] (idleWorld .up [] 0) = (.ok (), w) ∧
    w.server.durable = ["b"] ∧ w.server.strays = ["b"] ∧
    session E' text ["a", "b"] (idleWorld .up [] 0) = (.ok (), w') ∧ w'.server.durable = [] := by
  let E (i : ℕ) : Env := { quietEnv with
    query := fun c => if c = i then .lostBefore else .answered
    ping := fun _ => .reconnected }
  exact ⟨E 4, E 6, id, _, _, rfl, rfl, rfl, rfl, rfl⟩

end HkuUtils.MySQL
