import Mathlib.Data.Int.Notation
import HkuUtils.Fallible
import HkuUtils.Reactive

set_option relaxedAutoImplicit false
set_option autoImplicit false

/-!
# Using a statement of SQLite again

`SQLiteStatement` resets the native statement when a parameter is bound or the statement is executed
after an earlier execution. `sqlite3_reset` reports the error of the last step once more, and
`_reset` throws it. This file compares the class with a statement that starts anew each time.

## Main definitions

* `HkuUtils.SQLiteStatement.Native` — the native statement: `sqlite3_step` and `sqlite3_reset`.
* `HkuUtils.SQLiteStatement.Statement` — the members of the class.
* `HkuUtils.SQLiteStatement.subExec`, `subMoveNext`, `subBind` — its methods.
* `HkuUtils.SQLiteStatement.cursor` — what a statement should answer.

## Main results

* `HkuUtils.SQLiteStatement.outputs_exec_moveNext` — a statement that should return `k` rows.
* `HkuUtils.SQLiteStatement.reset_apply` — what `_reset` does.
* `HkuUtils.SQLiteStatement.outputs_eq_iff_noFailure` — when the class answers as it should.

## Design

The event of an execution carries the number of rows that `sqlite3_step` will return and the error
that may come after them; the event of a binding carries the result of the native binding. An
exception notes whether it comes from `_reset`, from a step or from a binding. What is bound has no
influence on the flags of the class, so that one function stands for all `sub_bind…`.
-/

namespace HkuUtils.SQLiteStatement

open Fallible Reactive

/-! ## The native statement -/

/-- `SQLITE_OK`. -/
def sqliteOk : ℤ := 0

/-- `SQLITE_ROW`. -/
def sqliteRow : ℤ := 100

/-- `SQLITE_DONE`. -/
def sqliteDone : ℤ := 101

/-- The errors that `sqlite3_step` returns. -/
abbrev ErrorCode : Type := { c : ℤ // c ≠ sqliteOk ∧ c ≠ sqliteRow ∧ c ≠ sqliteDone }

/-- What an execution has still to return: some rows, and then the end or an error. -/
structure Outcome where
  /-- The number of rows. -/
  rows : ℕ
  /-- The error after the rows. -/
  error : Option ErrorCode
  deriving DecidableEq

/-- Nothing. -/
def Outcome.none : Outcome := ⟨0, .none⟩

/-- A native statement: it has been reset, or it is being executed and its last step may have
failed. -/
inductive Native where
  | reset
  | active (left : Outcome) (failed : Option ErrorCode)
  deriving DecidableEq

/-- The error of the last step. -/
def Native.failed : Native → Option ErrorCode
  | .reset => .none
  | .active _ c => c

/-- A step of an execution. -/
def Outcome.step : Outcome → ℤ × Native
  | ⟨n + 1, e⟩ => (sqliteRow, .active ⟨n, e⟩ .none)
  | ⟨0, .none⟩ => (sqliteDone, .active .none .none)
  | ⟨0, some c⟩ => (c.1, .active ⟨0, some c⟩ (some c))

/-- `sqlite3_step`: a statement that has been reset begins an execution. -/
def sqlite3Step (o : Outcome) : Native → ℤ × Native
  | .reset => o.step
  | .active left _ => left.step

/-- `sqlite3_reset` returns the error of the last step. -/
def sqlite3Reset (n : Native) : ℤ × Native := (n.failed.elim sqliteOk Subtype.val, .reset)

/-! ## The class -/

/-- The members of `SQLiteStatement`. What SQLite itself keeps of the statement is `native`. -/
structure Statement where
  /-- `m_needs_reset`. -/
  needsReset : Bool
  /-- `m_step_status`. -/
  stepStatus : ℤ
  /-- `m_at_first_step`. -/
  atFirstStep : Bool
  /-- `m_stmt`. -/
  native : Native
  deriving DecidableEq

/-- An exception with its error code, by the place it is thrown at. -/
inductive Thrown where
  | reset (code : ℤ)
  | step (code : ℤ)
  | bind (code : ℤ)
  deriving DecidableEq, Repr

/-- The members after the constructor. -/
def Statement.init : Statement := ⟨false, sqliteDone, true, .reset⟩

/-- `_reset`. -/
def reset : Fallible Statement Thrown Unit := do
  let s ← get
  when s.needsReset do
    let status := sqlite3Reset s.native
    modify fun s => { s with native := status.2 }
    when (status.1 != sqliteOk) do
      modify fun s => { s with stepStatus := sqliteDone }
      throw (.reset status.1)
    modify fun s => { s with needsReset := false, stepStatus := sqliteDone, atFirstStep := true }

/-- `sub_exec`, if the execution has the given outcome. -/
def subExec (o : Outcome) : Fallible Statement Thrown Unit := do
  reset
  let s ← get
  let status := sqlite3Step o s.native
  modify fun s => { s with stepStatus := status.1, native := status.2, needsReset := true }
  when (status.1 != sqliteDone && status.1 != sqliteRow) (throw (.step status.1))

/-- `sub_moveNext`. The first row was fetched by `exec`, so the first call only reports it. -/
def subMoveNext : Fallible Statement Thrown Bool := do
  let s ← get
  if s.stepStatus = sqliteRow then
    if s.atFirstStep then
      modify fun s => { s with atFirstStep := false }
      return true
    else
      let status := sqlite3Step .none s.native
      modify fun s => { s with stepStatus := status.1, native := status.2 }
      if status.1 = sqliteDone then return false
      else if status.1 = sqliteRow then return true
      else throw (.step status.1)
  else return false

/-- The functions `sub_bind…`, if the native binding returns the given status. -/
def subBind (status : ℤ) : Fallible Statement Thrown Unit := do
  reset
  when (status != sqliteOk) (throw (.bind status))

/-! ## Calls -/

/-- The calls. -/
inductive Call where
  | bind (status : ℤ)
  | exec (o : Outcome)
  | moveNext
  deriving DecidableEq

/-- What a call returns; only `moveNext` returns a value. -/
abbrev Answer : Type := Except Thrown (Option Bool)

/-- A call of the class. -/
def call (s : Statement) : Call → Answer × Statement
  | .bind status => ((subBind status s).1.map fun _ => .none, (subBind status s).2)
  | .exec o => ((subExec o s).1.map fun _ => .none, (subExec o s).2)
  | .moveNext => ((subMoveNext s).1.map some, (subMoveNext s).2)

/-- The class as a machine. -/
def statements : Machine Statement Call Answer := ⟨.init, call⟩

/-- **What a statement should answer.** The state is what `moveNext` has still to return: `bind` and
`exec` do not depend on it. -/
def cursor : Machine Outcome Call Answer where
  init := .none
  step
    | _, .bind status => (if status = sqliteOk then .ok .none else .error (.bind status), .none)
    | _, .exec ⟨0, some c⟩ => (.error (.step c.1), .none)
    | _, .exec o => (.ok .none, o)
    | ⟨n + 1, e⟩, .moveNext => (.ok (some true), ⟨n, e⟩)
    | ⟨0, .none⟩, .moveNext => (.ok (some false), .none)
    | ⟨0, some c⟩, .moveNext => (.error (.step c.1), .none)

/-- `bind` or `exec` is called although the last step has failed. -/
def RestartsFailed (s : Statement) : Call → Prop
  | .moveNext => False
  | _ => s.native.failed ≠ .none

instance (s : Statement) : ∀ c, Decidable (RestartsFailed s c)
  | .moveNext => inferInstanceAs (Decidable False)
  | .bind _ | .exec _ => inferInstanceAs (Decidable (_ ≠ _))

/-! ## What the methods do -/

/-- `_reset` of a statement that has not been executed. -/
lemma reset_of_not_needsReset {s : Statement} (h : s.needsReset = false) :
    reset s = (.ok (), s) := by
  rw [reset, bind_ok (get_apply s), h]
  rfl

/-- `_reset` after a last step without an error. -/
lemma reset_of_ok {s : Statement} (hs : s.needsReset = true) (h : s.native.failed = .none) :
    reset s = (.ok (), .init) := by
  rw [reset, bind_ok (get_apply s), hs, when_true]
  simp only [sqlite3Reset, h]
  rfl

/-- **`_reset` after a step that has failed** throws the error of this step. The native statement
has been reset then, but `m_needs_reset` stays. -/
lemma reset_of_failed {s : Statement} {c : ErrorCode} (hs : s.needsReset = true)
    (h : s.native.failed = some c) :
    reset s = (.error (.reset c.1), { s with stepStatus := sqliteDone, native := .reset }) := by
  have hc : (c.1 != sqliteOk) = true := by simpa using c.2.1
  rw [reset, bind_ok (get_apply s), hs, when_true]
  simp only [sqlite3Reset, h, Option.elim]
  rw [bind_ok (modify_apply _ _), hc, when_true, bind_error (bind_ok (modify_apply _ _) _), hs]

/-- `exec` after a reset. -/
lemma subExec_of_reset {s : Statement} (h : reset s = (.ok (), .init)) (o : Outcome) :
    subExec o s =
      (if o.step.1 != sqliteDone && o.step.1 != sqliteRow then .error (.step o.step.1) else .ok (),
        ⟨true, o.step.1, true, o.step.2⟩) := by
  rw [subExec, bind_ok h, bind_ok (get_apply _), bind_ok (modify_apply _ _)]
  show when (o.step.1 != sqliteDone && o.step.1 != sqliteRow) _ _ = _
  cases (o.step.1 != sqliteDone && o.step.1 != sqliteRow) with
  | true => rfl
  | false => rfl

/-- A binding after a reset. -/
lemma subBind_of_reset {s : Statement} (h : reset s = (.ok (), .init)) (status : ℤ) :
    subBind status s =
      (if status = sqliteOk then .ok () else .error (.bind status), .init) := by
  rw [subBind, bind_ok h]
  by_cases hstatus : status = sqliteOk
  · rw [if_pos hstatus, hstatus]
    rfl
  · have hne : (status != sqliteOk) = true := by simpa using hstatus
    rw [if_neg hstatus, hne]
    rfl

/-- `moveNext` after the first row takes a step. -/
lemma subMoveNext_later {s : Statement} (hrow : s.stepStatus = sqliteRow)
    (hfirst : s.atFirstStep = false) :
    subMoveNext s =
      (if (sqlite3Step .none s.native).1 = sqliteDone then .ok false
        else if (sqlite3Step .none s.native).1 = sqliteRow then .ok true
        else .error (.step (sqlite3Step .none s.native).1),
        { s with
          stepStatus := (sqlite3Step .none s.native).1
          native := (sqlite3Step .none s.native).2 }) := by
  have hnot : ¬ s.atFirstStep = true := by simp [hfirst]
  rw [subMoveNext, bind_ok (get_apply _), if_pos hrow, if_neg hnot, bind_ok (modify_apply _ _)]
  split
  · rfl
  · split <;> rfl

/-! ## Comparison -/

/-- The members of the class while `o` is what `moveNext` should still return. -/
inductive Shows : Statement → Outcome → Prop
  | fresh : Shows .init .none
  | first (n : ℕ) (e : Option ErrorCode) :
      Shows ⟨true, sqliteRow, true, .active ⟨n, e⟩ .none⟩ ⟨n + 1, e⟩
  | later (o : Outcome) : Shows ⟨true, sqliteRow, false, .active o .none⟩ o
  | ended (b : Bool) : Shows ⟨true, sqliteDone, b, .active .none .none⟩ .none
  | failed (b : Bool) (c : ErrorCode) :
      Shows ⟨true, c.1, b, .active ⟨0, some c⟩ (some c)⟩ .none

/-- A statement whose last step has not failed is reset to the beginning. -/
lemma Shows.reset_ok {s : Statement} {o : Outcome} (h : Shows s o) (hs : s.native.failed = .none) :
    reset s = (.ok (), .init) := by
  cases h with
  | fresh => exact reset_of_not_needsReset rfl
  | first n e => exact reset_of_ok rfl rfl
  | later o => exact reset_of_ok rfl rfl
  | ended b => exact reset_of_ok rfl rfl
  | failed b c => cases hs

/-- A statement whose last step has failed needs a reset. -/
lemma Shows.needsReset {s : Statement} {o : Outcome} (h : Shows s o) {c : ErrorCode}
    (hs : s.native.failed = some c) : s.needsReset = true := by
  cases h with
  | fresh => cases hs
  | first n e => rfl
  | later o => rfl
  | ended b => rfl
  | failed b c => rfl

/-- After a step, the class shows what is left of the outcome. -/
lemma shows_of_step (o : Outcome) :
    ∃ o', (cursor.step .none (.exec o)) =
        ((if o.step.1 != sqliteDone && o.step.1 != sqliteRow then .error (.step o.step.1)
          else .ok .none), o') ∧
      Shows ⟨true, o.step.1, true, o.step.2⟩ o' := by
  obtain ⟨_ | n, e⟩ := o
  · cases e with
    | none => exact ⟨_, rfl, .ended true⟩
    | some c =>
      have hc : (c.1 != sqliteDone && c.1 != sqliteRow) = true := by simpa using c.2.2.symm
      refine ⟨.none, ?_, .failed true c⟩
      simp only [cursor, Outcome.step, hc, if_true]
  · exact ⟨_, rfl, .first n e⟩

/-- **`moveNext`** returns what it should.

**Proof sketch.** One case for what the statement shows. It answers from the row that it holds,
takes the next one, or reports the end or the error. -/
lemma Shows.moveNext {s : Statement} {o : Outcome} (h : Shows s o) :
    (call s .moveNext).1 = (cursor.step o .moveNext).1 ∧
      Shows (call s .moveNext).2 (cursor.step o .moveNext).2 := by
  cases h with
  | fresh => exact ⟨rfl, .fresh⟩
  | first n e => exact ⟨rfl, .later ⟨n, e⟩⟩
  | later o =>
    obtain ⟨_ | n, e⟩ := o
    · cases e with
      | none => exact ⟨rfl, .ended false⟩
      | some c =>
        have hmove : subMoveNext ⟨true, sqliteRow, false, .active ⟨0, some c⟩ .none⟩ =
            (.error (.step c.1), ⟨true, c.1, false, .active ⟨0, some c⟩ (some c)⟩) := by
          rw [subMoveNext_later rfl rfl]
          simp [sqlite3Step, Outcome.step, c.2.2.1, c.2.2.2]
        rw [call, hmove]
        exact ⟨rfl, .failed false c⟩
    · exact ⟨rfl, .later ⟨n, e⟩⟩
  | ended b => exact ⟨rfl, .ended b⟩
  | failed b c =>
    have hmove : subMoveNext ⟨true, c.1, b, .active ⟨0, some c⟩ (some c)⟩ =
        (.ok false, ⟨true, c.1, b, .active ⟨0, some c⟩ (some c)⟩) := by
      rw [subMoveNext, bind_ok (get_apply _)]
      simp only [if_neg c.2.2.1]
      rfl
    rw [call, hmove]
    exact ⟨rfl, .failed b c⟩

/-- A call that is not made on a failed statement answers as it should.

**Proof sketch.** One case for each call. `bind` and `exec` reset the statement first, which
succeeds since it has not failed. -/
lemma Shows.call {s : Statement} {o : Outcome} (h : Shows s o) {c : Call}
    (hc : ¬ RestartsFailed s c) :
    (call s c).1 = (cursor.step o c).1 ∧ Shows (call s c).2 (cursor.step o c).2 := by
  cases c with
  | moveNext => exact h.moveNext
  | bind status =>
    have hreset := h.reset_ok (Decidable.not_not.mp hc)
    rw [SQLiteStatement.call, subBind_of_reset hreset]
    refine ⟨?_, .fresh⟩
    by_cases hstatus : status = sqliteOk
    · simp only [cursor, if_pos hstatus]
      rfl
    · simp only [cursor, if_neg hstatus]
      rfl
  | exec o' =>
    have hreset := h.reset_ok (Decidable.not_not.mp hc)
    obtain ⟨left, hcursor, hshows⟩ := shows_of_step o'
    have hsame : cursor.step o (.exec o') = cursor.step .none (.exec o') := by
      obtain ⟨_ | n, _ | e⟩ := o' <;> rfl
    rw [SQLiteStatement.call, subExec_of_reset hreset, hsame, hcursor]
    refine ⟨?_, hshows⟩
    split <;> rfl

/-- A call on a failed statement throws the old error. -/
lemma Shows.call_failed {s : Statement} {o : Outcome} (h : Shows s o) {c : Call}
    (hc : RestartsFailed s c) : (SQLiteStatement.call s c).1 ≠ (cursor.step o c).1 := by
  cases c with
  | moveNext => exact hc.elim
  | bind status =>
    obtain ⟨code, hcode⟩ := Option.ne_none_iff_exists'.mp hc
    have hreset := reset_of_failed (h.needsReset hcode) hcode
    rw [SQLiteStatement.call, subBind, bind_error hreset]
    simp only [cursor, Except.map]
    split <;> simp
  | exec o' =>
    obtain ⟨code, hcode⟩ := Option.ne_none_iff_exists'.mp hc
    have hreset := reset_of_failed (h.needsReset hcode) hcode
    rw [SQLiteStatement.call, subExec, bind_error hreset]
    obtain ⟨_ | n, _ | e⟩ := o' <;> simp [cursor, Except.map]

/-- **Using a statement again.** It answers some calls as it should exactly if it is never bound or
executed after a step that has failed.

**Proof sketch.** A statement shows the outcome of its last execution. A call that meets the
condition is answered as it should be and keeps this, and one that does not is answered
otherwise. -/
theorem outputs_eq_iff_noFailure (cs : List Call) :
    statements.outputs cs = cursor.outputs cs ↔
      statements.Along (fun s c => ¬ RestartsFailed s c) cs :=
  Machine.outputs_eq_iff (R := Shows) .fresh (fun _ _ _ h hc => h.call hc)
    (fun _ _ _ h hc => h.call_failed (Decidable.not_not.mp hc)) cs

/-- **The rows.** A statement that returns `k` rows should answer `true` as often, and then
`false`.

**Proof sketch.** By induction on the number of calls, with the number of rows left. -/
theorem outputs_exec_moveNext (o : Outcome) (k m : ℕ) :
    cursor.outputsFrom o (.exec ⟨k, .none⟩ :: List.replicate m .moveNext) =
      .ok .none :: (List.replicate (min k m) (.ok (some true)) ++
        List.replicate (m - k) (.ok (some false))) := by
  have hrest : ∀ k m : ℕ, cursor.outputsFrom ⟨k, .none⟩ (List.replicate m .moveNext) =
      List.replicate (min k m) (.ok (some true)) ++
        List.replicate (m - k) (.ok (some false)) := by
    intro k m
    induction m generalizing k with
    | zero => simp
    | succ m ih =>
      cases k with
      | zero =>
        rw [List.replicate_succ, Machine.outputsFrom_cons]
        show _ :: cursor.outputsFrom ⟨0, .none⟩ _ = _
        rw [ih 0]
        simp [cursor, List.replicate_succ]
      | succ k =>
        rw [List.replicate_succ, Machine.outputsFrom_cons]
        show _ :: cursor.outputsFrom ⟨k, .none⟩ _ = _
        rw [ih k]
        simp [cursor, List.replicate_succ, Nat.succ_min_succ]
  rw [Machine.outputsFrom_cons]
  cases k with
  | zero => exact congrArg _ (hrest 0 m)
  | succ k => exact congrArg _ (hrest (k + 1) m)

/-- `SQLITE_CONSTRAINT`. -/
def sqliteConstraint : ErrorCode := ⟨19, by decide⟩

/-- An insertion violates a constraint; the statement is then bound to other values, which are never
inserted: the binding throws the old error. -/
theorem outputs_after_constraint :
    statements.outputs [.exec ⟨0, some sqliteConstraint⟩, .bind sqliteOk] =
        [.error (.step 19), .error (.reset 19)] ∧
      cursor.outputs [.exec ⟨0, some sqliteConstraint⟩, .bind sqliteOk] =
        [.error (.step 19), .ok .none] := by
  decide

end HkuUtils.SQLiteStatement
