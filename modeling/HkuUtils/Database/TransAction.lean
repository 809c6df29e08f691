import HkuUtils.Database.Connect

set_option relaxedAutoImplicit false
set_option autoImplicit false

/-!
# Transactions that are begun and ended by hand

The class `TransAction` of `AutoTransAction.h`: it starts a transaction in its constructor, `begin`
starts another one after `end` has committed the last, and its destructor rolls back what was not
committed.

## Main definitions

* `HkuUtils.Database.TransAction` — the two flags of an object.
* `HkuUtils.Database.TransAction.construct`, `begin`, `end_`, `destroy` — its functions.
* `HkuUtils.Database.TransAction.driverRollback` — a rollback that may fail without an exception.
* `HkuUtils.Database.TransAction.Action`, `act` — what is done with an object.
* `HkuUtils.Database.Trace.Closed` — every transaction of a trace is ended once.

## Main results

* `HkuUtils.Database.Trace.Follows.closed` — the protocol of a trace without an open transaction.
* `HkuUtils.Database.TransAction.act_consistent` — the flags agree with the trace and the session.
* `HkuUtils.Database.TransAction.transAction_protocol`, `statement_kept` — the life of an object,
  and a statement outside of a transaction.

## Design

The driver is a session, and the trace has its calls with their success. A call that throws is
followed by the next one or by the destructor: an exception that nobody catches is a sequence that
ends there. Statements are executed on the driver directly, and change the data. The function
`rollback` of a driver is `noexcept`: it catches the exception of its statement, and the transaction
stays open then.
-/

namespace HkuUtils.Database

open Fallible Transaction

variable {D : Type}

/-! ## Traces -/

/-- The calls of a driver that concern a transaction, with their success, the last one at the
end. -/
abbrev Trace := List (Command × Bool)

namespace Trace

/-- The call ends a transaction: a successful `COMMIT`, or a `ROLLBACK`. -/
def ends : Command × Bool → Bool
  | (.commit, ok) => ok
  | (.rollback, _) => true
  | (.start, _) => false

/-- The call is not a `BEGIN`. -/
def notStart : Command × Bool → Bool
  | (.start, _) => false
  | (.commit, _) => true
  | (.rollback, _) => true

/-- Every successful `BEGIN` is followed by exactly one call that ends the transaction before the
next `BEGIN`. -/
def Closed (tr : Trace) : Prop :=
  ∀ before after, tr = before ++ (.start, true) :: after →
    (after.takeWhile notStart).countP ends = 1

/-- The traces in which a transaction is open or not at the end, if a `BEGIN` is called only when
none is open, and a `COMMIT` or `ROLLBACK` only when one is. -/
inductive Follows : Trace → Bool → Prop where
  | nil : Follows [] false
  | start (tr : Trace) (ok : Bool) (h : Follows tr false) : Follows (tr ++ [(.start, ok)]) ok
  | commit (tr : Trace) (ok : Bool) (h : Follows tr true) : Follows (tr ++ [(.commit, ok)]) !ok
  | rollback (tr : Trace) (ok : Bool) (h : Follows tr true) :
    Follows (tr ++ [(.rollback, ok)]) false

/-- The calls up to the next `BEGIN`, when one more call is made. -/
lemma takeWhile_concat (after : Trace) (c : Command × Bool) :
    (after ++ [c]).takeWhile notStart =
      if after.all notStart && notStart c then after ++ [c] else after.takeWhile notStart := by
  induction after with
  | nil => cases h : notStart c <;> simp [h]
  | cons b after ih =>
    cases hb : notStart b with
    | false => simp [hb]
    | true =>
      simp only [List.cons_append, List.takeWhile_cons, List.all_cons, hb, if_true, Bool.true_and]
      rw [ih]
      split <;> rfl

/-- The calls are those up to the next `BEGIN` if there is none. -/
lemma takeWhile_of_all {after : Trace} (h : after.all notStart = true) :
    after.takeWhile notStart = after := by
  induction after with
  | nil => rfl
  | cons b after ih =>
    rw [List.all_cons, Bool.and_eq_true] at h
    rw [List.takeWhile_cons, if_pos h.1, ih h.2]

/-- How often a transaction is ended before the next `BEGIN`, after one more call that is none. -/
lemma countP_takeWhile_concat {after : Trace} {c : Command × Bool} (hc : notStart c = true)
    (h : (after.takeWhile notStart).countP ends = if after.all notStart then 0 else 1) :
    ((after ++ [c]).takeWhile notStart).countP ends =
      if !ends c && (after ++ [c]).all notStart then 0 else 1 := by
  rw [takeWhile_concat after c, List.all_append, List.all_cons, List.all_nil, hc]
  cases hall : after.all notStart with
  | true =>
    rw [takeWhile_of_all hall, hall] at h
    cases hends : ends c <;> simp [hends, h]
  | false =>
    rw [hall] at h
    simpa using h

/-- **The protocol**: each transaction of a trace is ended once before the next `BEGIN`, but the
last one if it is open.

**Proof sketch.** By induction on the trace. A call at the end comes behind the transaction that is
looked at, or is its `BEGIN`; the next `BEGIN` comes only after the end of the one that was open. -/
lemma Follows.countP {tr : Trace} {b : Bool} (h : Follows tr b) {before after : Trace}
    (htr : tr = before ++ (.start, true) :: after) :
    (after.takeWhile notStart).countP ends = if b && after.all notStart then 0 else 1 := by
  -- the last call is the `BEGIN` itself, or the last one after it
  have hsplit {tr : Trace} {c : Command × Bool} {after : Trace}
      (h : tr ++ [c] = before ++ (.start, true) :: after) :
      (after = [] ∧ c = (.start, true)) ∨
        ∃ after', after = after' ++ [c] ∧ tr = before ++ (.start, true) :: after' := by
    rcases List.eq_nil_or_concat after with rfl | ⟨after', d, rfl⟩
    · exact Or.inl ⟨rfl, List.head_eq_of_cons_eq (List.append_inj' h rfl).2⟩
    · rw [List.concat_eq_append, ← List.cons_append, ← List.append_assoc] at h
      obtain ⟨htr, hc⟩ := List.append_inj' h rfl
      exact Or.inr ⟨after', by rw [List.concat_eq_append, List.head_eq_of_cons_eq hc], htr⟩
  induction h generalizing after with
  | nil => simp at htr
  | start tr ok h ih =>
    rcases hsplit htr with ⟨rfl, hc⟩ | ⟨after', rfl, htr'⟩
    · obtain rfl : ok = true := congrArg Prod.snd hc
      rfl
    · have hend := ih htr'
      rw [takeWhile_concat]
      simpa [notStart] using hend
  | commit tr ok h ih =>
    rcases hsplit htr with ⟨rfl, hc⟩ | ⟨after', rfl, htr'⟩
    · cases hc
    · exact countP_takeWhile_concat rfl (ih htr')
  | rollback tr ok h ih =>
    rcases hsplit htr with ⟨rfl, hc⟩ | ⟨after', rfl, htr'⟩
    · cases hc
    · exact countP_takeWhile_concat rfl (ih htr')

/-- Without an open transaction every transaction was ended once. -/
lemma Follows.closed {tr : Trace} (h : Follows tr false) : Closed tr :=
  fun _ _ htr => h.countP htr

end Trace

/-! ## The class -/

/-- The flags of an object. -/
structure TransAction where
  /-- `m_committed`. -/
  committed : Bool
  /-- `m_started`. -/
  started : Bool
  deriving DecidableEq, Repr

namespace TransAction

/-- A driver with an object. -/
abbrev State (D : Type) := (Session D × Trace) × TransAction

/-- Programs with a reference to an object. -/
abbrev OnTransAction (D α : Type) := Fallible (State D) Error α

/-- A call of the driver goes to the trace. -/
def traced (c : Command) (p : Fallible (Session D) Error Unit) :
    Fallible (Session D × Trace) Error Unit := fun s =>
  match p s.1 with
  | (.ok u, t) => (.ok u, (t, s.2 ++ [(c, true)]))
  | (.error e, t) => (.error e, (t, s.2 ++ [(c, false)]))

variable (E : Engine Error)

/-- `TransAction(driver)`. -/
def construct : Fallible (Session D × Trace) Error TransAction := do
  traced .start (start E)
  return ⟨false, true⟩

/-- `begin`. -/
def begin : OnTransAction D Unit := do
  let s ← get
  if !s.2.started then
    lift (traced .start (start E))
    modify fun s => (s.1, ⟨false, true⟩)
  else return ()

/-- `end`. -/
def end_ : OnTransAction D Unit := do
  let s ← get
  if !s.2.started then throw (.std "No transaction has started!")
  else if !s.2.committed then
    lift (traced .commit (commit E))
    modify fun s => (s.1, ⟨true, false⟩)
  else return ()

/-- The statement `ROLLBACK`. If it fails, the transaction stays open. -/
def execRollback : Fallible (Session D) Error Unit := do
  modify (·.note .rollback)
  attempt E
  modify fun s => { s with data := s.saved.getD s.data, saved := none }

/-- `rollback` of the driver, which catches the exception of the statement. -/
def driverRollback : Fallible (Session D × Trace) Error Unit :=
  tryCatch (traced .rollback (execRollback E)) fun _ => return ()

/-- `~TransAction`. -/
def destroy (s : State D) : Session D × Trace :=
  if s.2.started && !s.2.committed then (driverRollback E s.1).2 else s.1

/-- What is done with an object, or with its driver. -/
inductive Action (D : Type) where
  | begin
  | end_
  /-- `connect()->exec()` of a statement. -/
  | exec (f : D → D)

/-- The state after an action, whether it throws or not. -/
def act (s : State D) : Action D → State D
  | .begin => (begin E s).2
  | .end_ => (end_ E s).2
  | .exec f => ((lift (lift (perform E f)) : OnTransAction D Unit) s).2

/-- The state after some actions. -/
def acts (s : State D) (as : List (Action D)) : State D := as.foldl (act E) s

/-! ## The flags -/

/-- The flags agree with the trace and the session: a transaction is started if and only if it is
open and not committed. -/
structure Consistent (s : State D) : Prop where
  follows : Trace.Follows s.1.2 s.2.started
  saved : s.1.1.saved.isSome = s.2.started
  committed : s.2.committed = !s.2.started

variable {E}

/-- A call of the driver that succeeds. -/
lemma traced_ok {c : Command} {p : Fallible (Session D) Error Unit} {s : Session D × Trace}
    {t : Session D} (h : p s.1 = (.ok (), t)) :
    traced c p s = (.ok (), (t, s.2 ++ [(c, true)])) := by
  rw [traced, h]

/-- A call of the driver that throws. -/
lemma traced_error {c : Command} {p : Fallible (Session D) Error Unit} {s : Session D × Trace}
    {t : Session D} {e : Error} (h : p s.1 = (.error e, t)) :
    traced c p s = (.error e, (t, s.2 ++ [(c, false)])) := by
  rw [traced, h]

/-- `begin` in a transaction does nothing. -/
lemma begin_started {s : State D} (h : s.2.started = true) : begin E s = (.ok (), s) := by
  rw [begin, bind_ok (get_apply s), h]
  rfl

/-- `begin` outside of one starts it. -/
lemma begin_idle {s : State D} (h : s.2.started = false) :
    begin E s = (lift (traced .start (start E)) >>= fun _ =>
      modify fun s => (s.1, ⟨false, true⟩) : OnTransAction D Unit) s := by
  rw [begin, bind_ok (get_apply s), h]
  rfl

/-- `end` outside of a transaction throws. -/
lemma end_idle {s : State D} (h : s.2.started = false) :
    end_ E s = (.error (.std "No transaction has started!"), s) := by
  rw [end_, bind_ok (get_apply s), h]
  rfl

/-- `end` in a transaction that is not committed commits it. -/
lemma end_started {s : State D} (h : s.2.started = true) (hc : s.2.committed = false) :
    end_ E s = (lift (traced .commit (commit E)) >>= fun _ =>
      modify fun s => (s.1, ⟨true, false⟩) : OnTransAction D Unit) s := by
  rw [end_, bind_ok (get_apply s), h, hc]
  rfl

/-- **What an action can do**: nothing to the transaction, a call that throws, a start or a commit.

**Proof sketch.** One case for each action. A start in a transaction and a commit outside of one do
nothing; otherwise the command is accepted, or it throws and changes nothing. -/
lemma act_cases {s : State D} (hs : Consistent s) (a : Action D) :
    ((act E s a).2 = s.2 ∧ (act E s a).1.2 = s.1.2 ∧ (act E s a).1.1.saved = s.1.1.saved) ∨
    (∃ c, (c = .start ∧ s.2.started = false ∨ c = .commit ∧ s.2.started = true) ∧
      (act E s a).2 = s.2 ∧ (act E s a).1.2 = s.1.2 ++ [(c, false)] ∧
      (act E s a).1.1.saved = s.1.1.saved) ∨
    (s.2.started = false ∧
      act E s a = ((s.1.1.started, s.1.2 ++ [(.start, true)]), ⟨false, true⟩)) ∨
    (s.2.started = true ∧
      act E s a = ((s.1.1.committed, s.1.2 ++ [(.commit, true)]), ⟨true, false⟩)) := by
  cases a with
  | begin =>
    cases hstarted : s.2.started with
    | true =>
      rw [act, begin_started hstarted]
      exact Or.inl ⟨rfl, rfl, rfl⟩
    | false =>
      have hnone : s.1.1.saved = none := by
        rw [← Option.not_isSome_iff_eq_none, hs.saved, hstarted]
        exact Bool.false_ne_true
      rw [act, begin_idle hstarted]
      by_cases hok : E.fault s.1.1.clock = none
      · have hcall : lift (traced .start (start E)) s =
            (.ok (), ((s.1.1.started, s.1.2 ++ [(.start, true)]), s.2)) := by
          rw [lift_apply, traced_ok (start_ok hok hnone)]
        rw [bind_ok hcall]
        exact Or.inr (Or.inr (Or.inl ⟨rfl, rfl⟩))
      · obtain ⟨e, he⟩ := start_error (E := E) (s := s.1.1) fun h => hok h.1
        have hcall : lift (traced .start (start E)) s =
            (.error e, (((s.1.1.note .start).tick, s.1.2 ++ [(.start, false)]), s.2)) := by
          rw [lift_apply, traced_error he]
        rw [bind_error hcall]
        exact Or.inr (Or.inl ⟨.start, Or.inl ⟨rfl, rfl⟩, rfl, rfl, rfl⟩)
  | end_ =>
    cases hstarted : s.2.started with
    | false =>
      rw [act, end_idle hstarted]
      exact Or.inl ⟨rfl, rfl, rfl⟩
    | true =>
      have hsome : s.1.1.saved.isSome = true := hs.saved.trans hstarted
      rw [act, end_started hstarted (by rw [hs.committed, hstarted]; rfl)]
      cases hf : E.fault s.1.1.clock with
      | none =>
        have hcall : lift (traced .commit (commit E)) s =
            (.ok (), ((s.1.1.committed, s.1.2 ++ [(.commit, true)]), s.2)) := by
          rw [lift_apply, traced_ok (commit_ok hf hsome)]
        rw [bind_ok hcall]
        exact Or.inr (Or.inr (Or.inr ⟨rfl, rfl⟩))
      | some e =>
        have hcall : lift (traced .commit (commit E)) s =
            (.error e, (((s.1.1.note .commit).tick, s.1.2 ++ [(.commit, false)]), s.2)) := by
          rw [lift_apply, traced_error (commit_error hf)]
        rw [bind_error hcall]
        exact Or.inr (Or.inl ⟨.commit, Or.inr ⟨rfl, rfl⟩, rfl, rfl, rfl⟩)
  | exec f =>
    exact Or.inl ⟨rfl, rfl, keeps_saved_perform f s.1.1⟩

/-- **Step**: an action keeps the flags in agreement.

**Proof sketch.** By the inversion of an action: one that changes nothing, one whose command fails,
a start when there is no transaction, and a commit when there is one. -/
lemma act_consistent {s : State D} (hs : Consistent s) (a : Action D) :
    Consistent (act E s a) := by
  rcases act_cases (E := E) hs a with ⟨hflags, htr, hsaved⟩ | ⟨c, hc, hflags, htr, hsaved⟩ |
    ⟨hidle, hact⟩ | ⟨hopen, hact⟩
  · exact ⟨by rw [htr, hflags]; exact hs.follows, by rw [hsaved, hflags, hs.saved],
      by rw [hflags, hs.committed]⟩
  · refine ⟨?_, by rw [hsaved, hflags, hs.saved], by rw [hflags, hs.committed]⟩
    rw [htr, hflags]
    have hfollows := hs.follows
    rcases hc with ⟨rfl, hstarted⟩ | ⟨rfl, hstarted⟩
    · rw [hstarted] at hfollows ⊢
      exact .start _ false hfollows
    · rw [hstarted] at hfollows ⊢
      exact .commit _ false hfollows
  · rw [hact]
    exact ⟨.start _ true (hidle ▸ hs.follows), rfl, rfl⟩
  · rw [hact]
    exact ⟨.commit _ true (hopen ▸ hs.follows), rfl, rfl⟩

/-- **Run**: so do actions. -/
lemma acts_consistent {s : State D} (hs : Consistent s) (as : List (Action D)) :
    Consistent (acts E s as) := by
  induction as generalizing s with
  | nil => exact hs
  | cons a as ih => exact ih (act_consistent hs a)

/-- The constructor returns an object whose flags agree. -/
lemma construct_consistent {s : Session D} {t : TransAction} {r : Session D × Trace}
    (h : construct E (s, []) = (.ok t, r)) : Consistent (r, t) := by
  by_cases hstart : E.fault s.clock = none ∧ s.saved = none
  · have hcall : traced .start (start E) (s, []) = (.ok (), (s.started, [(.start, true)])) :=
      traced_ok (start_ok hstart.1 hstart.2)
    rw [construct, bind_ok hcall] at h
    cases h
    exact ⟨.start [] true .nil, rfl, rfl⟩
  · obtain ⟨e, he⟩ := start_error hstart
    have hcall : traced .start (start E) (s, []) =
        (.error e, ((s.note .start).tick, [(.start, false)])) := traced_error he
    rw [construct, bind_error hcall] at h
    cases h

/-! ## The open transaction -/

/-- An action goes on with the trace. -/
lemma act_trace {s : State D} (hs : Consistent s) (a : Action D) :
    ∃ tr, (act E s a).1.2 = s.1.2 ++ tr := by
  rcases act_cases (E := E) hs a with ⟨-, h, -⟩ | ⟨c, -, -, h, -⟩ | ⟨-, h⟩ | ⟨-, h⟩
  · exact ⟨[], h.trans (List.append_nil _).symm⟩
  · exact ⟨_, h⟩
  · exact ⟨_, congrArg (fun s => s.1.2) h⟩
  · exact ⟨_, congrArg (fun s => s.1.2) h⟩

/-- An action without a successful `COMMIT` leaves the open transaction open. -/
lemma act_saved {s : State D} (hs : Consistent s) (a : Action D) {d : D}
    (hd : s.1.1.saved = some d) {tr : Trace} (htr : (act E s a).1.2 = s.1.2 ++ tr)
    (hcommit : (.commit, true) ∉ tr) : (act E s a).1.1.saved = some d := by
  rcases act_cases (E := E) hs a with ⟨-, -, hsaved⟩ | ⟨c, -, -, -, hsaved⟩ | ⟨hidle, -⟩ | ⟨-, hact⟩
  · exact hsaved.trans hd
  · exact hsaved.trans hd
  · have hsaved := hs.saved
    rw [hidle, hd] at hsaved
    cases hsaved
  · rw [hact] at htr
    have hlast : [(Command.commit, true)] = tr := List.append_cancel_left htr
    rw [← hlast] at hcommit
    exact absurd (List.mem_singleton.mpr rfl) hcommit

/-- Actions go on with the trace. -/
lemma acts_trace {s : State D} (hs : Consistent s) (as : List (Action D)) :
    ∃ tr, (acts E s as).1.2 = s.1.2 ++ tr := by
  induction as generalizing s with
  | nil => exact ⟨[], (List.append_nil _).symm⟩
  | cons a as ih =>
    obtain ⟨tr, htr⟩ := act_trace (E := E) hs a
    obtain ⟨tr', htr'⟩ := ih (act_consistent (E := E) hs a)
    exact ⟨tr ++ tr', htr'.trans (by rw [htr, List.append_assoc])⟩

/-- Actions without a successful `COMMIT` leave the open transaction open. -/
lemma acts_saved {s : State D} (hs : Consistent s) (as : List (Action D)) {d : D}
    (hd : s.1.1.saved = some d) {tr : Trace} (htr : (acts E s as).1.2 = s.1.2 ++ tr)
    (hcommit : (.commit, true) ∉ tr) : (acts E s as).1.1.saved = some d := by
  induction as generalizing s tr with
  | nil => exact hd
  | cons a as ih =>
    obtain ⟨tr₁, htr₁⟩ := act_trace (E := E) hs a
    obtain ⟨tr₂, htr₂⟩ := acts_trace (E := E) (act_consistent hs a) as
    have hsplit : tr = tr₁ ++ tr₂ := by
      have hboth : s.1.2 ++ tr = s.1.2 ++ (tr₁ ++ tr₂) := by
        rw [← htr, ← List.append_assoc, ← htr₁]
        exact htr₂
      exact List.append_cancel_left hboth
    rw [hsplit, List.mem_append, not_or] at hcommit
    exact ih (act_consistent hs a) (act_saved hs a hd htr₁ hcommit.1) htr₂ hcommit.2

/-! ## The destructor -/

/-- A rollback of the driver that succeeds. -/
lemma driverRollback_ok {s : Session D × Trace} (h : E.fault s.1.clock = none) :
    driverRollback E s = (.ok (), (s.1.tick.rolledBack, s.2 ++ [(.rollback, true)])) := by
  have hexec : execRollback E s.1 = (.ok (), s.1.tick.rolledBack) := by
    rw [execRollback, bind_ok (modify_apply _ s.1),
      bind_ok (attempt_ok (s := s.1.note .rollback) h)]
    rfl
  rw [driverRollback, tryCatch_ok (traced_ok hexec)]

/-- A rollback of the driver that fails leaves data and transaction as they are. -/
lemma driverRollback_failed {s : Session D × Trace} {e : Error} (h : E.fault s.1.clock = some e) :
    driverRollback E s =
      (.ok (), ((s.1.note .rollback).tick, s.2 ++ [(.rollback, false)])) := by
  have hexec : execRollback E s.1 = (.error e, (s.1.note .rollback).tick) := by
    rw [execRollback, bind_ok (modify_apply _ s.1),
      bind_error (attempt_error (s := s.1.note .rollback) h)]
  rw [driverRollback, tryCatch_error (traced_error hexec)]
  rfl

/-- The destructor rolls back if a transaction is open. -/
lemma destroy_started {s : State D} (hs : Consistent s) (h : s.2.started = true) :
    destroy E s = (driverRollback E s.1).2 := by
  have hcond : (s.2.started && !s.2.committed) = true := by
    rw [hs.committed, h]
    rfl
  rw [destroy, if_pos hcond]

/-- Without one it does nothing. -/
lemma destroy_idle {s : State D} (h : s.2.started = false) : destroy E s = s.1 := by
  rw [destroy, h]
  rfl

/-- **What the destructor does to the trace**: nothing without an open transaction, or one
`ROLLBACK`. -/
lemma destroy_trace {s : State D} (hs : Consistent s) :
    (destroy E s).2.Closed ∧ ∃ tr, (tr = [] ∨ ∃ ok, tr = [(.rollback, ok)]) ∧
      (destroy E s).2 = s.1.2 ++ tr := by
  have hfollows := hs.follows
  cases hstarted : s.2.started with
  | true =>
    rw [hstarted] at hfollows
    rw [destroy_started hs hstarted]
    cases hfault : E.fault s.1.1.clock with
    | none =>
      rw [driverRollback_ok hfault]
      exact ⟨(Trace.Follows.rollback _ true hfollows).closed, _, Or.inr ⟨true, rfl⟩, rfl⟩
    | some e =>
      rw [driverRollback_failed hfault]
      exact ⟨(Trace.Follows.rollback _ false hfollows).closed, _, Or.inr ⟨false, rfl⟩, rfl⟩
  | false =>
    rw [hstarted] at hfollows
    rw [destroy_idle hstarted]
    exact ⟨hfollows.closed, [], Or.inl rfl, (List.append_nil _).symm⟩

/-- **What it does to the session**: no transaction is open any more, and an open one is undone,
unless the `ROLLBACK` fails.

**Proof sketch.** By cases on whether a transaction was started. If so, the `ROLLBACK` puts back
what was saved at its beginning. -/
lemma destroy_session {s : State D} (hs : Consistent s)
    (hrollback : s.2.started = true → E.fault s.1.1.clock = none) :
    (destroy E s).1.saved = none ∧
      (s.1.1.saved.isSome = true → s.1.1.saved = some (destroy E s).1.data) := by
  cases hstarted : s.2.started with
  | true =>
    rw [destroy_started hs hstarted, driverRollback_ok (hrollback hstarted)]
    refine ⟨rfl, fun hsome => ?_⟩
    obtain ⟨d, hd⟩ := Option.isSome_iff_exists.mp hsome
    show s.1.1.saved = some (s.1.1.saved.getD s.1.1.data)
    rw [hd, Option.getD_some]
  | false =>
    have hnone : s.1.1.saved = none := by
      rw [← Option.not_isSome_iff_eq_none, hs.saved, hstarted]
      exact Bool.false_ne_true
    rw [destroy_idle hstarted]
    refine ⟨hnone, fun hsome => ?_⟩
    rw [hnone] at hsome
    cases hsome

/-- **The life of an object**, whichever calls of the driver throw: in the trace each transaction is
ended once before the next `BEGIN`, and the destructor adds nothing but a `ROLLBACK`. If the
`ROLLBACK` of the destructor does not fail, no transaction is open in the end, and what was done in
a transaction after which no `COMMIT` succeeded is gone.

**Proof sketch.** The flags agree with the trace and the session after the constructor, and every
action keeps that: a transaction is open exactly if it is started and not committed. So the
destructor calls `ROLLBACK` exactly if one is open. What it goes back to are the data at the last
successful `BEGIN`, which only a successful `COMMIT` lets go. -/
theorem transAction_protocol {s : Session D} {t : TransAction} {r : Session D × Trace}
    (h : construct E (s, []) = (.ok t, r)) (as : List (Action D)) :
    (destroy E (acts E (r, t) as)).2.Closed ∧
    (∃ tr, (tr = [] ∨ ∃ ok, tr = [(.rollback, ok)]) ∧
      (destroy E (acts E (r, t) as)).2 = (acts E (r, t) as).1.2 ++ tr) ∧
    (E.fault (acts E (r, t) as).1.1.clock = none →
      (destroy E (acts E (r, t) as)).1.saved = none ∧
      ∀ bs cs d tr, as = bs ++ cs → (acts E (r, t) bs).1.1.saved = some d →
        (acts E (r, t) as).1.2 = (acts E (r, t) bs).1.2 ++ tr → (.commit, true) ∉ tr →
        (destroy E (acts E (r, t) as)).1.data = d) := by
  have hs : Consistent (r, t) := construct_consistent h
  have hlast : Consistent (acts E (r, t) as) := acts_consistent hs as
  obtain ⟨hclosed, htrace⟩ := destroy_trace (E := E) hlast
  refine ⟨hclosed, htrace, fun hrollback => ?_⟩
  obtain ⟨hnone, hback⟩ := destroy_session hlast fun _ => hrollback
  refine ⟨hnone, fun bs cs d tr has hd htr hcommit => ?_⟩
  have hsaved : (acts E (r, t) as).1.1.saved = some d := by
    subst has
    have happend : acts E (r, t) (bs ++ cs) = acts E (acts E (r, t) bs) cs := List.foldl_append
    rw [happend] at htr ⊢
    exact acts_saved (acts_consistent hs bs) cs hd htr hcommit
  have hdata := hback (by rw [hsaved]; rfl)
  rw [hsaved] at hdata
  exact (Option.some.inj hdata).symm

/-- An engine without faults. -/
def sound : Engine Error where
  fault _ := none
  nested := .sql 1 "cannot start a transaction within a transaction"
  idle := .sql 1 "cannot commit - no transaction is active"

/-- An engine whose third attempt fails. -/
def faulty : Engine Error :=
  { sound with fault := fun n => if n = 2 then some (.sql 5 "database is locked") else none }

/-- A transaction whose commit fails, and a second attempt to begin. -/
theorem transAction_protocol_faulty :
    (destroy faulty (acts faulty (((⟨0, some 0, 1, [.start]⟩, [(.start, true)]) :
      Session ℕ × Trace), (⟨false, true⟩ : TransAction))
        [.exec (· + 1), .end_, .begin])).1.data = 0 :=
  ((transAction_protocol (E := faulty) (s := ⟨0, none, 0, []⟩) rfl _).2.2 rfl).2 [.exec (· + 1)]
    [.end_, .begin] 0 [(.commit, false)] rfl rfl rfl (by decide)

/-- A statement after a successful `end` is not in a transaction, and the destructor leaves it. -/
theorem statement_kept :
    ∃ (r : Session ℕ × Trace) (u : State ℕ),
      construct sound (⟨0, none, 0, []⟩, []) = (.ok ⟨false, true⟩, r) ∧
      end_ sound (r, ⟨false, true⟩) = (.ok (), u) ∧ u.1.1.data = 0 ∧
      (destroy sound (acts sound u [.exec (· + 1)])).1.data = 1 :=
  ⟨_, _, rfl, rfl, rfl, rfl⟩

end TransAction

end HkuUtils.Database
