import HkuUtils.TimerManager.Model
import Mathlib.Tactic.Tauto

set_option relaxedAutoImplicit false
set_option autoImplicit false

/-!
# What has happened to a timer

Ids are used again, so a timer is an id from its allocation to the next one. What has happened to it
is read off the log, and what holds between a timer of the table and the log needs to be checked for
the four steps that concern the timer.

## Main definitions

* `HkuUtils.TimerManager.maker`, `spent` — the call that created the timer of an id, and how often
  its function was submitted.
* `HkuUtils.TimerManager.OfTable` — a property of every timer in the table.

## Main results

* `HkuUtils.TimerManager.step_ofTable`, `ofTable_of_run` — the rule for such a property.
* `HkuUtils.TimerManager.step_log` — the rule for a property of the log.
* `HkuUtils.TimerManager.made_of_run` — a timer is what its call has made it, up to the repeat
  number.
-/

namespace HkuUtils.TimerManager

open Transition

variable {F : Arith} {extended : Bool}

/-! ## The log -/

/-- The id that a record is about. -/
def Record.id : Record → ℤ
  | .allocated id _ _ => id
  | .removed id => id
  | .submitted id _ => id

/-- The call that the id was last allocated for, and the function it gave. -/
def maker (id : ℤ) : List Record → Option (AddCall × ℕ)
  | [] => none
  | .allocated id' call f :: log => if id' = id then some (call, f) else maker id log
  | .removed _ :: log => maker id log
  | .submitted _ _ :: log => maker id log

/-- How often a function was submitted for the id since it was last allocated. -/
def spent (id : ℤ) : List Record → ℕ
  | [] => 0
  | .allocated id' _ _ :: log => if id' = id then 0 else spent id log
  | .removed _ :: log => spent id log
  | .submitted id' _ :: log => if id' = id then spent id log + 1 else spent id log

/-- Records about other ids do not matter. -/
lemma maker_cons_of_ne {id : ℤ} {r : Record} (h : r.id ≠ id) (log : List Record) :
    maker id (r :: log) = maker id log := by
  cases r with
  | allocated id' call f => exact if_neg h
  | removed id' => rfl
  | submitted id' f => rfl

/-- Records about other ids do not matter. -/
lemma spent_cons_of_ne {id : ℤ} {r : Record} (h : r.id ≠ id) (log : List Record) :
    spent id (r :: log) = spent id log := by
  cases r with
  | allocated id' call f => exact if_neg h
  | removed id' => rfl
  | submitted id' f => exact if_neg h

/-- A timer was made by the call that was given its id last. -/
@[simp] lemma maker_allocated (id : ℤ) (call : AddCall) (f : ℕ) (log : List Record) :
    maker id (.allocated id call f :: log) = some (call, f) := if_pos rfl

/-- A new timer has not been submitted. -/
@[simp] lemma spent_allocated (id : ℤ) (call : AddCall) (f : ℕ) (log : List Record) :
    spent id (.allocated id call f :: log) = 0 := if_pos rfl

/-- A submission is counted. -/
@[simp] lemma spent_submitted (id : ℤ) (f : ℕ) (log : List Record) :
    spent id (.submitted id f :: log) = spent id log + 1 := if_pos rfl

/-! ## The table -/

/-- Erasing several ids leaves the timers of the others. -/
lemma lookup_foldl_erase {timers : Timers} {ids : List ℤ} {id : ℤ} {timer : Timer}
    (h : (ids.foldl (fun timers id => timers.erase id) timers).lookup id = some timer) :
    id ∉ ids ∧ timers.lookup id = some timer := by
  induction ids generalizing timers with
  | nil => exact ⟨List.not_mem_nil, h⟩
  | cons id' ids ih =>
    obtain ⟨hnot, h⟩ := ih h
    by_cases hid : id = id'
    · subst hid
      simp [AList.lookup_erase] at h
    · rw [AList.lookup_erase_ne hid] at h
      exact ⟨by simp [hid, hnot], h⟩

/-- Erasing several ids leaves the others. -/
lemma mem_foldl_erase {timers : Timers} {ids : List ℤ} {id : ℤ} :
    id ∈ ids.foldl (fun timers id => timers.erase id) timers ↔ id ∉ ids ∧ id ∈ timers := by
  induction ids generalizing timers with
  | nil => simp
  | cons id' ids ih =>
    rw [List.foldl_cons, ih, AList.mem_erase, List.mem_cons, not_or]
    tauto

/-- A property that every timer in the table has, with its id and the log. -/
def OfTable (R : ℤ → Timer → List Record → Prop) (s : State) : Prop :=
  ∀ id timer, s.timers.lookup id = some timer → R id timer s.log

/-- **What holds of every timer.** A property that does not depend on records about other ids has
to hold of a new timer, and to be kept when the timer is removed and when it has run. -/
structure Kept (R : ℤ → Timer → List Record → Prop) : Prop where
  frame : ∀ {id timer log} {r : Record}, r.id ≠ id → R id timer log → R id timer (r :: log)
  add : ∀ {call : AddCall} {f before timer} {id log}, call.timer f before = some timer →
    R id timer (.allocated id call f :: log)
  remove : ∀ {id timer log}, R id timer log →
    R id { timer with repeatNum := 0 } (.removed id :: log)
  spend : ∀ {id timer log}, R id timer log → 0 < timer.spend.repeatNum →
    R id timer.spend (.submitted id timer.func :: log)

section Rule

variable {R : ℤ → Timer → List Record → Prop}

/-- When the timer of one id is replaced, the record of that is only about this id. -/
lemma OfTable.insert (hR : Kept R) {s t : State} {id : ℤ} {timer : Timer} {r : Record}
    (h : OfTable R s) (htimers : t.timers = s.timers.insert id timer) (hlog : t.log = r :: s.log)
    (hid : r.id = id) (htimer : R id timer (r :: s.log)) : OfTable R t := by
  intro id' timer' h'
  rw [htimers] at h'
  rw [hlog]
  by_cases heq : id' = id
  · subst heq
    rw [AList.lookup_insert, Option.some.injEq] at h'
    exact h' ▸ htimer
  · rw [AList.lookup_insert_ne heq] at h'
    exact hR.frame (hid.trans_ne (Ne.symm heq)) (h id' timer' h')

/-- When the timer of one id is erased, the others stay. -/
lemma OfTable.erase (hR : Kept R) {s t : State} {id : ℤ} {r : Record} (h : OfTable R s)
    (htimers : t.timers = s.timers.erase id) (hlog : t.log = r :: s.log) (hid : r.id = id) :
    OfTable R t := by
  intro id' timer' h'
  rw [htimers] at h'
  rw [hlog]
  by_cases heq : id' = id
  · subst heq
    simp [AList.lookup_erase] at h'
  · rw [AList.lookup_erase_ne heq] at h'
    exact hR.frame (hid.trans_ne (Ne.symm heq)) (h id' timer' h')

/-- Steps that do not concern the timers. -/
lemma OfTable.same {s t : State} (h : OfTable R s) (htimers : t.timers = s.timers)
    (hlog : t.log = s.log) : OfTable R t := by
  intro id timer ht
  rw [hlog]
  exact h id timer (htimers ▸ ht)

/-- A dispatch. -/
lemma OfTable.dispatch (hR : Kept R) {s t : State} {e : IntervalS} {now : Clock}
    (h : OfTable R s) (hd : Dispatches s e now t) : OfTable R t := by
  cases hd with
  | orphan _ => exact h.same rfl rfl
  | last ht _ => exact h.erase hR rfl rfl rfl
  | again ht hpos _ => exact h.insert hR rfl rfl rfl (hR.spend (h _ _ ht) hpos)

/-- The locked section of the detection thread. -/
lemma OfTable.examine (hR : Kept R) {s t : State} {now again : Clock} {i : ℕ}
    (h : OfTable R s) (hex : Examines s now i again t) : OfTable R t := by
  cases hex with
  | wait _ => exact h.same rfl rfl
  | finish _ _ => exact h.same rfl rfl
  | sleep _ _ => exact h.same rfl rfl
  | due _ _ _ hd =>
    have hpop : OfTable R { s with queue := s.queue.eraseIdx i } := h.same rfl rfl
    exact hpop.dispatch hR hd

/-- **One step keeps what holds of every timer.**

**Proof sketch.** One case for each move. A call that adds, removes or submits a timer changes the
table at one id and records it there, and the rebuilding only takes timers away; all others leave
table and log. -/
theorem step_ofTable (hR : Kept R) {s t : State} {e : Event} (h : OfTable R s)
    (hstep : step F extended s e = some t) : OfTable R t := by
  cases moves_of_step hstep with
  | add ht _ _ => exact h.insert hR rfl rfl rfl (hR.add ht)
  | remove =>
    rw [removeTimer]
    split
    · next ht => exact h.insert hR rfl rfl rfl (hR.remove (h _ _ ht))
    · next ht =>
      intro id' timer' h'
      refine hR.frame ?_ (h id' timer' h')
      rintro rfl
      simp only [Record.id] at h'
      simp [ht] at h'
  | examine _ hex => exact h.examine hR hex
  | rebuild _ =>
    rw [restart]
    split
    · intro id timer ht
      exact h id timer (lookup_foldl_erase ht).2
    · exact h.same rfl rfl
  | addNotify _ => exact h.same s.notify_timers s.notify_log
  | announce _ => exact h.same s.notify_timers s.notify_log
  | wake _ => exact h.same s.notify_timers s.notify_log
  | test _ => exact h.same rfl rfl
  | wakeup _ => exact h.same rfl rfl
  | started _ _ => exact h
  | start _ _ => exact h.same rfl rfl
  | spawn _ => exact h.same rfl rfl
  | stop _ => exact h.same rfl rfl
  | clear _ => exact h.same rfl rfl
  | join _ _ => exact h.same rfl rfl

/-- **One step keeps a property of the log** that allocations, removals and submissions keep, if
what holds of every timer allows its submission.

**Proof sketch.** One case for each move. Only additions, removals and submissions are recorded,
and what is submitted is a timer of the table, of which `R` holds. -/
theorem step_log {P : List Record → Prop}
    (hadd : ∀ {id : ℤ} {call : AddCall} {f : ℕ} {log}, 0 < call.repeatNum → P log →
      P (.allocated id call f :: log))
    (hremove : ∀ {id : ℤ} {log}, P log → P (.removed id :: log))
    (hsubmit : ∀ {id : ℤ} {timer : Timer} {log}, R id timer log → P log →
      P (.submitted id timer.func :: log)) {s t : State} {e : Event} (hR : OfTable R s)
    (h : P s.log) (hstep : step F extended s e = some t) : P t.log := by
  cases moves_of_step hstep with
  | add ht _ _ => exact hadd (AddCall.repeatNum_of_timer ht).2.1 h
  | remove =>
    rw [removeTimer]
    split <;> exact hremove h
  | examine _ hex =>
    cases hex with
    | wait _ => exact h
    | finish _ _ => exact h
    | sleep _ _ => exact h
    | due _ _ _ hd =>
      cases hd with
      | orphan _ => exact h
      | last ht _ => exact hsubmit (hR _ _ ht) h
      | again ht _ _ => exact hsubmit (hR _ _ ht) h
  | rebuild _ =>
    rw [restart]
    split <;> exact h
  | addNotify _ => exact s.notify_log.symm ▸ h
  | announce _ => exact s.notify_log.symm ▸ h
  | wake _ => exact s.notify_log.symm ▸ h
  | test _ => exact h
  | wakeup _ => exact h
  | started _ _ => exact h
  | start _ _ => exact h
  | spawn _ => exact h
  | stop _ => exact h
  | clear _ => exact h
  | join _ _ => exact h

/-- At first the table is empty. -/
lemma ofTable_init (extended : Bool) : OfTable R (init extended) :=
  fun _ _ h => by simp [init] at h

/-- What holds of every timer holds after every run. -/
theorem ofTable_of_run (hR : Kept R) {s : State} {es : List Event}
    (hrun : (system F extended).run es = some s) : OfTable R s :=
  System.run_invariant (I := OfTable R) (ofTable_init extended)
    (fun _ _ _ h hstep => step_ofTable hR h hstep) hrun

end Rule

/-! ## Timers and their calls -/

/-- The timer is what its call has made it, up to the repeat number. -/
def Made (id : ℤ) (timer : Timer) (log : List Record) : Prop :=
  ∃ call f before made, maker id log = some (call, f) ∧ call.timer f before = some made ∧
    timer = { made with repeatNum := timer.repeatNum }

/-- A run changes only the repeat number. -/
lemma Timer.spend_eq (timer : Timer) :
    timer.spend = { timer with repeatNum := timer.spend.repeatNum } := by
  rw [Timer.spend]
  split <;> rfl

/-- A run does not give a timer anything. -/
lemma Timer.spend_le (timer : Timer) : timer.spend.repeatNum ≤ timer.repeatNum := by
  rw [Timer.spend]
  split
  · exact le_rfl
  · dsimp only
    omega

/-- What a timer was made with stays. -/
lemma kept_made : Kept Made where
  frame hne h := by
    obtain ⟨call, f, before, made, hm, hmade, heq⟩ := h
    exact ⟨call, f, before, made, (maker_cons_of_ne hne _).trans hm, hmade, heq⟩
  add h := ⟨_, _, _, _, maker_allocated _ _ _ _, h, rfl⟩
  remove h := by
    obtain ⟨call, f, before, made, hm, hmade, heq⟩ := h
    refine ⟨call, f, before, made, hm, hmade, ?_⟩
    rw [heq]
  spend {id timer log} h _ := by
    obtain ⟨call, f, before, made, hm, hmade, heq⟩ := h
    refine ⟨call, f, before, made, hm, hmade, ?_⟩
    rw [timer.spend_eq, heq]

/-- After every run, each timer is what its call has made it, up to the repeat number. -/
theorem made_of_run {s : State} {es : List Event} (hrun : (system F extended).run es = some s) :
    OfTable Made s := ofTable_of_run kept_made hrun

end HkuUtils.TimerManager
