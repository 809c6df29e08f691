import HkuUtils.MySQL.Calls

set_option relaxedAutoImplicit false
set_option autoImplicit false

/-!
# Which failures `exec` reports

`exec` ends its loop over the results at an error in the same way as at the last result, so it does
not report the failure of a statement after the first. Its check of the handle is the wrong way
round, so it goes on with a null pointer if it cannot connect.

## Main definitions

* `HkuUtils.MySQL.Reports` — `exec` reports every failure, and hands over no null handle.
* `HkuUtils.MySQL.ReportsWhen` — when it does.

## Main results

* `HkuUtils.MySQL.reports_null_iff`, `reports_accepted_iff`, `reports_retry_iff`, `not_reports_lost`
  — the cases of `exec`.
* `HkuUtils.MySQL.exec_reports_iff`, `exec_unreported` — all of them, and two failures that are not
  reported.
-/

namespace HkuUtils.MySQL

open Fallible

variable {W : Type} {E : Env} {w : World W} {q : Script W}

/-- Of the texts that the server has received in this call, it has executed the last one to its
end. -/
def Executes (E : Env) (q : Script W) (w : World W) : Prop :=
  ∃ before, w.served <+: before ∧ (exec E q w).2.served = before ++ [q.statements]

/-- `exec` returns only if every statement of the text was executed, throws otherwise, and hands no
null handle to the client library. -/
structure Reports (E : Env) (q : Script W) (w : World W) : Prop where
  returns : Returns (exec E q) w → Executes E q w
  throws : ¬ Executes E q w → ∃ e, (exec E q w).1 = .error e ∧ e ≠ .crash
  handles : (exec E q w).2.nullCalls = w.nullCalls

/-- A text that is answered without an error at the call `c` is executed to its end, or one of the
results before the failing statement cannot be read. -/
def Env.Settles (E : Env) (c : ℕ) (q : Script W) : Prop :=
  E.Accepts c q → executed (E.fails c) q.statements = q.statements ∨
    ¬ E.readable (c + 1) (executed (E.fails c) q.statements) = true

/-- **When `exec` reports every failure.** -/
structure ReportsWhen (E : Env) (q : Script W) (w : World W) : Prop where
  /-- Without a handle, it gets one. -/
  connects : w.link = .null → E.connects w.clock = true
  /-- The text is executed to its end, if it is answered without an error. -/
  first : w.link = .up → E.Settles w.clock q
  /-- Otherwise a connection is found, and the same holds for the text that is sent again. -/
  second : w.link ≠ .null → ¬ (w.link = .up ∧ E.Accepts w.clock q) → ∃ kept c,
    E.retry (decide (w.link = .up ∧ E.query w.clock = .answered)) (w.clock + 1) = some (kept, c) ∧
    E.Settles c q

/-! ## The cases -/

/-- A text is executed to its end if the last one of the record is. -/
lemma executes_iff {before : List (List (Stmt W))} {sts : List (Stmt W)}
    (hbefore : w.served <+: before) (h : (exec E q w).2.served = before ++ [sts]) :
    Executes E q w ↔ sts = q.statements := by
  constructor
  · rintro ⟨before', _, h'⟩
    rw [h] at h'
    exact List.singleton_inj.mp (List.append_inj' h' rfl).2
  · rintro rfl
    exact ⟨before, hbefore, h⟩

/-- **A text that is answered without an error.** The world `w₁` is the one before the answer.

**Proof sketch.** The statements executed are all of the text or end before a failing one. If their
results can be read, `exec` returns and so may report only a text executed to its end; if one
cannot, it throws. -/
lemma reports_accepted_iff {w₁ : World W} (hup : w₁.link = .up) (hserved : w.served <+: w₁.served)
    (hnull : w₁.nullCalls = w.nullCalls) (hacc : E.Accepts w₁.clock q)
    (h : exec E q w = readAnswer E q (E.accepted w₁.clock q) (w₁.accept E q)) :
    Reports E q w ↔ E.Settles w₁.clock q := by
  let sts := executed (E.fails w₁.clock) q.statements
  have hlink : (w₁.accept E q).link ≠ .null := ne_null_of_up hup
  have hclock : (w₁.accept E q).clock = w₁.clock + 1 := rfl
  have hsts : (w₁.accept E q).served = w₁.served ++ [sts] := rfl
  have hcalls : (w₁.accept E q).nullCalls = w.nullCalls := hnull
  have hsettles : E.Settles w₁.clock q ↔
      sts = q.statements ∨ ¬ E.readable (w₁.clock + 1) sts = true := by
    rw [Env.Settles, forall_prop_of_true hacc]
  have hcases := readAnswer_cases (E := E) (q := q) hlink (E.accepted w₁.clock q)
  rw [← h, hclock] at hcases
  rw [hsettles]
  rcases hcases with ⟨hread, n, hrun⟩ | ⟨hread, e, k, he, hrun⟩
  · have hexec : Executes E q w ↔ sts = q.statements :=
      executes_iff hserved (by rw [hrun]; exact hsts)
    refine ⟨fun hreports => Or.inl (hexec.mp (hreports.returns (returns_of_eq hrun))),
      fun hor => ?_⟩
    have hall := hexec.mpr (hor.resolve_right fun hnot => hnot hread)
    exact ⟨fun _ => hall, fun hnot => absurd hall hnot, by rw [hrun]; exact hcalls⟩
  · refine iff_of_true ?_ (Or.inr hread)
    rcases hrun with hrun | hrun
    · refine ⟨fun hret => absurd hret (throws_iff.mp (throws_of_eq hrun)), fun _ => ⟨e, ?_, he⟩, ?_⟩
      · rw [hrun]
      · rw [hrun]
        exact hcalls
    · refine ⟨fun hret => absurd hret (throws_iff.mp (throws_of_eq hrun)), fun _ => ⟨e, ?_, he⟩, ?_⟩
      · rw [hrun]
      · rw [hrun]
        exact hcalls

/-- **No handle.** -/
lemma reports_null_iff (hw : w.link = .null) : Reports E q w ↔ E.connects w.clock = true := by
  by_cases hc : E.connects w.clock = true
  · have hrun := exec_null_connects (q := q) hw hc
    refine iff_of_true ⟨fun hret => ?_, fun _ => ?_, ?_⟩ hc
    · exact absurd hret (throws_iff.mp (throws_of_eq hrun))
    · exact ⟨_, congrArg Prod.fst hrun, nofun⟩
    · rw [hrun]
      rfl
  · refine iff_of_false (fun h => ?_) hc
    have := h.handles
    rw [exec_null_crash hw hc] at this
    exact absurd this (Nat.succ_ne_self _)

/-- **The text is refused, and no connection is found.** -/
lemma not_reports_lost (hw : w.link ≠ .null) (h : ¬ (w.link = .up ∧ E.Accepts w.clock q))
    (hretry : E.retry (decide (w.link = .up ∧ E.query w.clock = .answered)) (w.clock + 1) = none) :
    ¬ Reports E q w := by
  intro hreports
  obtain ⟨e, hrun, _⟩ := exec_lost hw h hretry
  obtain ⟨_, _, _, _, hcalls⟩ := World.query_refused hw h
  have hhandles := hreports.handles
  rw [hrun] at hhandles
  simp only [World.misuse, World.closed, hcalls] at hhandles
  omega

/-- **The text is refused and sent again.**

**Proof sketch.** If the second text is accepted, this is the lemma for an accepted text, on the
connection that was found. Otherwise `exec` throws, and this reports the failure. -/
lemma reports_retry_iff (hw : w.link ≠ .null) (h : ¬ (w.link = .up ∧ E.Accepts w.clock q))
    {kept : Bool} {c : ℕ}
    (hretry : E.retry (decide (w.link = .up ∧ E.query w.clock = .answered)) (w.clock + 1) =
      some (kept, c)) : Reports E q w ↔ E.Settles c q := by
  obtain ⟨hok, herror⟩ := exec_retry hw h hretry
  obtain ⟨_, _, _, _, hcalls⟩ := World.query_refused hw h
  have hreopened : ((w.query E q).2.reopened kept c).nullCalls = w.nullCalls ∧
      w.served <+: ((w.query E q).2.reopened kept c).served := by
    cases kept with
    | true => exact ⟨hcalls, w.served_prefix_query⟩
    | false => exact ⟨hcalls, w.served_prefix_query⟩
  by_cases hacc : E.Accepts c q
  · exact reports_accepted_iff rfl hreopened.2 hreopened.1 hacc (hok hacc)
  · obtain ⟨e, hrun, he⟩ := herror hacc
    have hlink : ((w.query E q).2.reopened kept c).link ≠ .null := nofun
    obtain ⟨_, _, _, _, hcalls'⟩ :=
      World.query_refused (E := E) (q := q) hlink fun hand => hacc hand.2
    refine iff_of_true ⟨fun hret => ?_, fun _ => ⟨e, ?_, he⟩, ?_⟩ fun h => absurd h hacc
    · exact absurd hret (throws_iff.mp (throws_of_eq hrun))
    · rw [hrun]
    · rw [hrun]
      exact hcalls'.trans hreopened.1

/-- **Which failures `exec` reports**: for every text, every state of the connection and everything
that can happen at the calls of the client library, `exec` reports every failure exactly if it gets
a handle when it has none, finds a connection when its text was refused, and the text whose first
statement is answered without an error is executed to its end. (If it is not, a result before the
failing statement that cannot be read is reported.)

**Proof sketch.** By cases on whether there is a handle, whether the first text is accepted, and
whether the connection is found again; the part of the condition that belongs to the case is what
is left. -/
theorem exec_reports_iff (E : Env) (q : Script W) (w : World W) :
    Reports E q w ↔ ReportsWhen E q w := by
  by_cases hw : w.link = .null
  · rw [reports_null_iff hw]
    refine ⟨fun hc => ⟨fun _ => hc, fun hup => ?_, fun hnot => absurd hw hnot⟩,
      fun h => h.connects hw⟩
    rw [hw] at hup
    cases hup
  by_cases hacc : w.link = .up ∧ E.Accepts w.clock q
  · rw [reports_accepted_iff hacc.1 (List.prefix_refl _) rfl hacc.2 (exec_accepted hacc.1 hacc.2)]
    exact ⟨fun h => ⟨fun hnull => absurd hnull hw, fun _ => h, fun _ hnot => absurd hacc hnot⟩,
      fun h => h.first hacc.1⟩
  cases hretry : E.retry (decide (w.link = .up ∧ E.query w.clock = .answered)) (w.clock + 1) with
  | none =>
    refine iff_of_false (not_reports_lost hw hacc hretry) fun h => ?_
    obtain ⟨kept, c, hsome, _⟩ := h.second hw hacc
    rw [hretry] at hsome
    cases hsome
  | some retry =>
    obtain ⟨kept, c⟩ := retry
    rw [reports_retry_iff hw hacc hretry]
    constructor
    · intro h
      refine ⟨fun hnull => absurd hnull hw, fun hup hfirst => absurd ⟨hup, hfirst⟩ hacc,
        fun _ _ => ⟨kept, c, hretry, h⟩⟩
    · intro h
      obtain ⟨kept', c', hsome, hsettles⟩ := h.second hw hacc
      rw [hretry] at hsome
      cases hsome
      exact hsettles

/-- The failure of the second of two statements is not reported, and a null pointer is handed to
`mysql_query` if there is no handle and no connection. -/
theorem exec_unreported :
    (∃ (E : Env) (q : Script String) (w : World String),
      exec E q (idleWorld .up [] 0) = (.ok 0, w) ∧ w.served = [[.write "a"]] ∧
      q.statements = [.write "a", .write "b"] ∧ w.server.durable = ["a"]) ∧
    ∃ (E : Env) (q : Script String) (w : World String),
      exec E q (idleWorld .null [] 0) = (.error .crash, w) ∧ w.nullCalls = 1 := by
  refine ⟨⟨{ quietEnv with fails := fun _ i => i = 1 }, ⟨"a; b", [.write "a", .write "b"]⟩, _,
    rfl, rfl, rfl, rfl⟩, ?_⟩
  exact ⟨{ quietEnv with connects := fun _ => false }, ⟨"a", [.write "a"]⟩, _, rfl, rfl⟩

end HkuUtils.MySQL
