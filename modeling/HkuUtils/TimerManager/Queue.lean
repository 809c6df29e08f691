import HkuUtils.TimerManager.Ledger
import HkuUtils.TimerManager.Stop

set_option relaxedAutoImplicit false
set_option autoImplicit false

/-!
# The queue and the table of the timer manager

While the manager is running, every timer of the table has exactly one entry in the queue, and a
timer with a finite repeat number runs at most so often, also when the manager is stopped and
started again in between.

## Main definitions

* `HkuUtils.TimerManager.Running` — from when `start` has built the queue until `stop` clears it.
* `HkuUtils.TimerManager.InOrder` — where the callers and the detection thread are.
* `HkuUtils.TimerManager.Queued` — what the queue has to do with the table.
* `HkuUtils.TimerManager.Funded` — what a timer has left to spend.

## Main results

* `HkuUtils.TimerManager.step_inOrder`, `step_queued`, `kept_funded` — the step lemmas.
* `HkuUtils.TimerManager.queue_matches_table` — what holds after every run.

## Design

* An exception in the loop of `start` leaves `m_stop` cleared, but there is no detection thread
  then, and the manager is not running.
-/

namespace HkuUtils.TimerManager

open Transition

variable {F : Arith} {extended : Bool}

/-! ## When the manager runs -/

/-- `start` has built the queue, and `stop` has not cleared it. -/
def Running (s : State) : Prop :=
  s.control = .announcing ∨ s.control = .spawning ∨ (s.detect ≠ .absent ∧ s.stop = false)

instance (s : State) : Decidable (Running s) := inferInstanceAs (Decidable (_ ∨ _ ∨ _ ∧ _))

/-- What the position of the callers says about the detection thread and the flag. -/
structure InOrder (s : State) : Prop where
  launching : s.control = .starting ∨ s.control = .announcing ∨ s.control = .spawning →
    s.detect = .absent ∧ s.stop = false
  resting : s.control = .idle → s.stop = true → s.detect = .absent
  stopped : s.control = .waking ∨ s.control = .joining → s.stop = true
  /-- The detection thread can use the pool. -/
  pool : s.control = .announcing ∨ s.control = .spawning ∨ s.detect ≠ .absent → s.pool = true

/-- Steps that neither start nor end the detection thread, and leave the callers where they are. -/
lemma InOrder.same {s t : State} (h : InOrder s) (hc : t.control = s.control)
    (hs : t.stop = s.stop) (hd : t.detect = .absent ↔ s.detect = .absent)
    (hp : t.pool = s.pool) : InOrder t where
  launching := by
    rw [hc, hs, hd]
    exact h.launching
  resting := by
    rw [hc, hs, hd]
    exact h.resting
  stopped := by
    rw [hc, hs]
    exact h.stopped
  pool := by
    rw [hc, hp, Ne, hd]
    exact h.pool

/-- A dispatch leaves the callers where they are. -/
lemma Dispatches.same {s t : State} {e : IntervalS} {now : Clock} (h : Dispatches s e now t) :
    t.control = s.control ∧ t.stop = s.stop ∧ t.pool = s.pool := by
  cases h <;> exact ⟨rfl, rfl, rfl⟩

/-- The locked section of the detection thread leaves the callers where they are. -/
lemma Examines.same {s t : State} {now again : Clock} {i : ℕ} (h : Examines s now i again t) :
    t.control = s.control ∧ t.stop = s.stop ∧ t.pool = s.pool ∧ t.detect ≠ .absent := by
  cases h with
  | wait _ => exact ⟨rfl, rfl, rfl, by simp⟩
  | finish _ _ => exact ⟨rfl, rfl, rfl, by simp⟩
  | sleep _ _ => exact ⟨rfl, rfl, rfl, by simp⟩
  | due _ _ _ hd =>
    obtain ⟨hc, hs, hp⟩ := hd.same
    exact ⟨hc, hs, hp, by simp [hd.detect]⟩

/-- **One step keeps the order of the threads.**

**Proof sketch.** One case for each step. A step that neither starts nor ends a thread keeps what
the order is about. -/
theorem step_inOrder {s t : State} {e : Event} (h : InOrder s)
    (hstep : step F extended s e = some t) : InOrder t := by
  cases moves_of_step hstep with
  | add _ _ _ => exact h.same rfl rfl Iff.rfl rfl
  | addNotify _ => exact h.same s.notify_control s.notify_stop s.notify_absent s.notify_pool
  | remove =>
    obtain ⟨hd, hs, hc, -, -, hp⟩ := removeTimer_same s _
    exact h.same hc hs (by rw [hd]) hp
  | test hd =>
    refine h.same rfl rfl (iff_of_false ?_ (by simp [hd])) rfl
    dsimp only
    split <;> simp
  | examine hd hex =>
    obtain ⟨hc, hs, hp, hd'⟩ := hex.same
    exact h.same hc hs (iff_of_false hd' (by simp [hd])) hp
  | wakeup hd =>
    refine h.same rfl rfl (iff_of_false (by simp) ?_) rfl
    rcases hd with hd | hd <;> simp [hd]
  | started _ _ => exact h
  | start hc hs =>
    have habsent := h.resting hc hs
    exact ⟨fun _ => ⟨habsent, rfl⟩, by simp, by simp, by simp [habsent]⟩
  | rebuild hc =>
    obtain ⟨hd, hs⟩ := h.launching (.inl hc)
    rw [restart]
    split
    · exact ⟨fun _ => ⟨hd, hs⟩, by simp, by simp, fun _ => rfl⟩
    · exact ⟨by simp, fun _ _ => hd, by simp, fun _ => rfl⟩
  | announce hc =>
    obtain ⟨hd, hs⟩ := h.launching (.inr (.inl hc))
    have hpool := h.pool (.inl hc)
    exact ⟨fun _ => ⟨s.notify_absent.2 hd, s.notify_stop.trans hs⟩, by simp, by simp,
      fun _ => s.notify_pool.trans hpool⟩
  | spawn hc =>
    obtain ⟨-, hs⟩ := h.launching (.inr (.inr hc))
    have hpool := h.pool (.inr (.inl hc))
    exact ⟨by simp, by simp [hs], by simp, fun _ => hpool⟩
  | stop hc =>
    have hrest := h.resting hc
    have hpool := fun hd => h.pool (.inr (.inr hd))
    cases hs : s.stop with
    | false => exact ⟨by simp, by simp, by simp, by simpa using hpool⟩
    | true => exact ⟨by simp, by simp, fun _ => rfl, by simpa using hpool⟩
  | clear _ =>
    have hpool := fun hd => h.pool (.inr (.inr hd))
    exact ⟨by simp, by simp, fun _ => rfl, by simpa using hpool⟩
  | wake hc =>
    have hs := h.stopped (.inl hc)
    have hpool := fun hd => h.pool (.inr (.inr hd))
    exact ⟨by simp, by simp, fun _ => s.notify_stop.trans hs,
      by simpa [s.notify_absent] using hpool⟩
  | join _ _ => exact ⟨by simp, by simp, by simp, by simp⟩

/-- At first nothing runs. -/
lemma inOrder_init (extended : Bool) : InOrder (init extended) :=
  ⟨by simp [init], fun _ _ => rfl, by simp [init], by simp [init]⟩

/-! ## The queue -/

/-- The ids in the queue. -/
def State.ids (s : State) : List ℤ := s.queue.map IntervalS.timerId

/-- What the queue has to do with the table. -/
structure Queued (s : State) : Prop where
  nodup : s.ids.Nodup
  known : ∀ id ∈ s.ids, id ∈ s.timers
  all : Running s → ∀ id ∈ s.timers, id ∈ s.ids

/-- Steps that leave the queue and the ids of the table. -/
lemma Queued.same {s t : State} (h : Queued s) (hq : t.queue = s.queue)
    (ht : ∀ id, id ∈ t.timers ↔ id ∈ s.timers) (hrun : Running t → Running s) : Queued t := by
  have hids : t.ids = s.ids := congrArg (List.map IntervalS.timerId) hq
  refine ⟨hids ▸ h.nodup, fun id hid => (ht id).2 (h.known id (hids ▸ hid)), fun hr id hid => ?_⟩
  exact hids ▸ h.all (hrun hr) id ((ht id).1 hid)

/-- A dispatch takes an entry out of the queue, and puts it back if the timer stays in the table.

**Proof sketch.** One case for how the entry was dispatched. The entry that is taken out was the
only one of its timer; it comes back, or its timer leaves the table as well. -/
lemma Queued.dispatch {s t : State} {e : IntervalS} {rest : List IntervalS} {now : Clock}
    (h : Queued s) (hperm : (e :: rest).Perm s.queue) (hdetect : s.detect ≠ .absent)
    (hd : Dispatches { s with queue := rest } e now t) : Queued t := by
  have hids : (e.timerId :: rest.map IntervalS.timerId).Perm s.ids :=
    hperm.map IntervalS.timerId
  obtain ⟨hfresh, hnodup⟩ := List.nodup_cons.1 (hids.nodup_iff.2 h.nodup)
  have hknown : e.timerId ∈ s.timers := h.known _ (hids.mem_iff.1 List.mem_cons_self)
  have hrest : ∀ id ∈ rest.map IntervalS.timerId, id ∈ s.timers := fun id hid =>
    h.known id (hids.mem_iff.1 (List.mem_cons_of_mem _ hid))
  have hrunning : Running t → Running s := by
    obtain ⟨hc, hs, -⟩ := hd.same
    rintro (hr | hr | hr)
    · exact .inl (hc.symm.trans hr)
    · exact .inr (.inl (hc.symm.trans hr))
    · exact .inr (.inr ⟨hdetect, hs.symm.trans hr.2⟩)
  have hall : Running t → ∀ id ∈ s.timers, id = e.timerId ∨ id ∈ rest.map IntervalS.timerId :=
    fun hr id hid => List.mem_cons.1 (hids.mem_iff.2 (h.all (hrunning hr) id hid))
  cases hd with
  | orphan hnone => exact absurd hknown (AList.lookup_eq_none.1 hnone)
  | last _ _ =>
    refine ⟨hnodup, fun id hid => AList.mem_erase.2 ⟨?_, hrest id hid⟩, fun hr id hid => ?_⟩
    · rintro rfl
      exact hfresh hid
    · obtain ⟨hne, hid⟩ := AList.mem_erase.1 hid
      exact (hall hr id hid).resolve_left hne
  | again _ _ _ =>
    refine ⟨List.nodup_cons.2 ⟨hfresh, hnodup⟩, fun id hid => ?_, fun hr id hid => ?_⟩
    · refine (AList.mem_insert _).2 ?_
      rcases List.mem_cons.1 hid with rfl | hid
      · exact .inl rfl
      · exact .inr (hrest id hid)
    · refine List.mem_cons.2 ?_
      rcases (AList.mem_insert _).1 hid with rfl | hid
      · exact .inl rfl
      · exact hall hr id hid

/-- An entry and the rest of a list. -/
lemma cons_eraseIdx_perm {α : Type} {l : List α} {i : ℕ} {a : α} (h : l[i]? = some a) :
    (a :: l.eraseIdx i).Perm l := by
  obtain ⟨hi, rfl⟩ := List.getElem?_eq_some_iff.1 h
  exact List.getElem_cons_eraseIdx_perm hi

/-- The locked section of the detection thread. -/
lemma Queued.examine {s t : State} {now again : Clock} {i : ℕ} (h : Queued s)
    (hdetect : s.detect ≠ .absent) (hex : Examines s now i again t) : Queued t := by
  have hsame : ∀ d, Queued { s with detect := d } := fun d =>
    h.same rfl (fun _ => Iff.rfl) fun hr =>
      hr.imp_right fun hr => hr.imp_right fun hr => ⟨hdetect, hr.2⟩
  cases hex with
  | wait _ => exact hsame _
  | finish _ _ => exact hsame _
  | sleep _ _ => exact hsame _
  | due hi _ _ hd => exact h.dispatch (cons_eraseIdx_perm hi) hdetect hd

/-- What the loop of `start` puts into the queue are ids of the table, in its order. -/
lemma rebuild_sublist (clock : ℤ → Clock) (xs : List ((_ : ℤ) × Timer)) :
    ((rebuild F clock xs).queue.map IntervalS.timerId).Sublist (xs.map Sigma.fst) := by
  induction xs with
  | nil => exact List.Sublist.refl _
  | cons x xs ih =>
    rw [rebuild]
    split
    · exact List.nil_sublist _
    · exact ih.cons _
    · exact ih.cons_cons _

/-- A loop that comes to its end has put each timer into the queue or marked it invalid. -/
lemma rebuild_perm (clock : ℤ → Clock) {xs : List ((_ : ℤ) × Timer)}
    (h : (rebuild F clock xs).complete = true) :
    ((rebuild F clock xs).queue.map IntervalS.timerId ++ (rebuild F clock xs).invalid).Perm
      (xs.map Sigma.fst) := by
  induction xs with
  | nil => exact List.Perm.refl _
  | cons x xs ih =>
    rw [rebuild] at h ⊢
    split
    · next hthrow => simp [hthrow] at h
    · next hinvalid =>
      rw [hinvalid] at h
      exact List.perm_middle.trans ((ih h).cons _)
    · next hpoint =>
      rw [hpoint] at h
      exact (ih h).cons _

/-- The locked section of `start`.

**Proof sketch.** The queue is made from the table, one entry for each timer that has a point, and
the timers without one leave the table. -/
lemma Queued.restart {s : State} (ho : InOrder s) (hc : s.control = .starting)
    (clock : ℤ → Clock) : Queued (restart F s clock) := by
  have hsub := rebuild_sublist (F := F) clock s.timers.entries
  have hnodup : (s.timers.entries.map Sigma.fst).Nodup := s.timers.keys_nodup
  rw [TimerManager.restart]
  split
  · next hcomplete =>
    have hperm := rebuild_perm clock hcomplete
    have hdisjoint := List.disjoint_of_nodup_append (hperm.nodup_iff.2 hnodup)
    refine ⟨hsub.nodup hnodup, fun id hid => ?_, fun _ id hid => ?_⟩
    · refine mem_foldl_erase.2 ⟨fun hinv => hdisjoint hid hinv, ?_⟩
      exact AList.mem_keys.2 (hsub.subset hid)
    · obtain ⟨hvalid, hid⟩ := mem_foldl_erase.1 hid
      have hmem := hperm.mem_iff.2 (AList.mem_keys.1 hid)
      exact (List.mem_append.1 hmem).resolve_right hvalid
  · refine ⟨hsub.nodup hnodup, fun id hid => AList.mem_keys.2 (hsub.subset hid), ?_⟩
    rintro (hr | hr | hr)
    · simp at hr
    · simp at hr
    · exact absurd (ho.launching (.inl hc)).1 hr.1

/-- **One step keeps the queue and the table together.**

*Proof sketch.* A new id is in neither; a dispatch takes out an entry and either puts it back or
erases the timer; `start` keeps the timers that it puts into the queue; and `stop`, which empties
the queue, ends the run of the manager. -/
theorem step_queued {s t : State} {e : Event} (ho : InOrder s) (h : Queued s)
    (hstep : step F extended s e = some t) : Queued t := by
  cases moves_of_step hstep with
  | add _ _ hid =>
    have hnew := getNewTimerId_notMem hid
    refine ⟨List.nodup_cons.2 ⟨fun hmem => hnew (h.known _ hmem), h.nodup⟩, ?_, ?_⟩
    · intro id' hid'
      refine (AList.mem_insert _).2 ?_
      rcases List.mem_cons.1 hid' with rfl | hid'
      · exact .inl rfl
      · exact .inr (h.known id' hid')
    · intro hr id' hid'
      refine List.mem_cons.2 ?_
      rcases (AList.mem_insert _).1 hid' with rfl | hid'
      · exact .inl rfl
      · exact .inr (h.all hr id' hid')
  | addNotify _ =>
    refine h.same s.notify_queue (fun id => by simp) fun hr => ?_
    simpa [Running, s.notify_absent] using hr
  | remove =>
    rw [removeTimer]
    split
    · next ht =>
      refine h.same rfl (fun id' => (AList.mem_insert _).trans (or_iff_right_of_imp ?_)) id
      rintro rfl
      exact AList.lookup_isSome.1 (by rw [ht]; rfl)
    · exact h.same rfl (fun _ => Iff.rfl) id
  | test hd =>
    refine h.same rfl (fun _ => Iff.rfl) fun hr => ?_
    exact hr.imp_right fun hr => hr.imp_right fun hr => ⟨by simp [hd], hr.2⟩
  | examine hd hex => exact h.examine (by simp [hd]) hex
  | wakeup hd =>
    refine h.same rfl (fun _ => Iff.rfl) fun hr => ?_
    refine hr.imp_right fun hr => hr.imp_right fun hr => ⟨?_, hr.2⟩
    rcases hd with hd | hd <;> simp [hd]
  | started _ _ => exact h
  | start hc hs =>
    refine h.same rfl (fun _ => Iff.rfl) fun hr => ?_
    simp [Running, ho.resting hc hs] at hr
  | rebuild hc => exact Queued.restart ho hc _
  | announce hc => exact h.same s.notify_queue (fun id => by simp) fun _ => .inl hc
  | spawn hc => exact h.same rfl (fun _ => Iff.rfl) fun _ => .inr (.inl hc)
  | stop hc =>
    refine h.same rfl (fun _ => Iff.rfl) fun hr => .inr (.inr ?_)
    rcases hr with hr | hr | hr
    · dsimp only at hr
      split at hr <;> simp at hr
    · dsimp only at hr
      split at hr <;> simp at hr
    · exact hr
  | clear _ => exact ⟨List.nodup_nil, by simp [State.ids], by simp [Running]⟩
  | wake hc =>
    refine h.same s.notify_queue (fun id => by simp) fun hr => ?_
    simp [Running, ho.stopped (.inl hc)] at hr
  | join _ _ => exact h.same rfl (fun _ => Iff.rfl) fun hr => by simp [Running] at hr

/-! ## The repeat number -/

/-- A timer with a finite repeat number has spent what it has not left, and it has something left
unless it was removed. -/
def Funded (id : ℤ) (timer : Timer) (log : List Record) : Prop :=
  ∃ call f, maker id log = some (call, f) ∧
    (call.repeatNum = maxInt ∨
      timer.repeatNum < maxInt ∧ spent id log + max 1 timer.repeatNum ≤ call.repeatNum)

/-- What a timer has left goes down with each run.

**Proof sketch.** One case for each entry of the log. A run takes one from what the timer has left
and adds one to what it has spent. -/
lemma kept_funded : Kept Funded where
  frame hne h := by
    obtain ⟨call, f, hm, h⟩ := h
    refine ⟨call, f, (maker_cons_of_ne hne _).trans hm, ?_⟩
    rwa [spent_cons_of_ne hne]
  add {call f before timer id log} h := by
    obtain ⟨hn, hpos, hle⟩ := AddCall.repeatNum_of_timer h
    refine ⟨call, f, maker_allocated _ _ _ _, ?_⟩
    rw [spent_allocated, hn]
    rcases eq_or_ne call.repeatNum maxInt with heq | hne
    · exact .inl heq
    · exact .inr ⟨lt_of_le_of_ne hle hne, by omega⟩
  remove {id timer log} h := by
    obtain ⟨call, f, hm, h⟩ := h
    refine ⟨call, f, hm, h.imp_right fun ⟨_, hle⟩ => ⟨(by decide : (0 : ℤ) < maxInt), ?_⟩⟩
    rw [spent]
    dsimp only
    omega
  spend {id timer log} h hpos := by
    obtain ⟨call, f, hm, h⟩ := h
    refine ⟨call, f, hm, h.imp_right fun ⟨hlt, hle⟩ => ?_⟩
    have hspend : timer.spend.repeatNum = timer.repeatNum - 1 := by
      rw [Timer.spend, if_neg hlt.ne]
    rw [hspend] at hpos ⊢
    rw [spent_submitted]
    push_cast
    omega

/-- A timer with a finite repeat number was not submitted more often. -/
def WithinBudget (log : List Record) : Prop :=
  ∀ id call f, maker id log = some (call, f) → call.repeatNum ≠ maxInt →
    (spent id log : ℤ) ≤ call.repeatNum

/-- A record that is no submission keeps the budgets. -/
lemma WithinBudget.removed {log : List Record} (h : WithinBudget log) (id : ℤ) :
    WithinBudget (.removed id :: log) := h

/-- A new timer has spent nothing. -/
lemma WithinBudget.allocated {log : List Record} (h : WithinBudget log) {id : ℤ} {call : AddCall}
    {f : ℕ} (hpos : 0 < call.repeatNum) : WithinBudget (.allocated id call f :: log) := by
  intro id' call' f' hm hne
  by_cases hid : id = id'
  · subst hid
    rw [maker_allocated, Option.some.injEq, Prod.mk.injEq] at hm
    rw [spent_allocated, ← hm.1]
    omega
  · rw [maker_cons_of_ne (r := .allocated id call f) hid] at hm
    rw [spent_cons_of_ne (r := .allocated id call f) hid]
    exact h id' call' f' hm hne

/-- A timer that has something left can be submitted. -/
lemma WithinBudget.submitted {log : List Record} (h : WithinBudget log) {id : ℤ} {timer : Timer}
    (hfund : Funded id timer log) (f : ℕ) : WithinBudget (.submitted id f :: log) := by
  intro id' call' f' hm hne
  by_cases hid : id = id'
  · subst hid
    obtain ⟨call, f'', hm', h'⟩ := hfund
    rw [maker, hm', Option.some.injEq, Prod.mk.injEq] at hm
    obtain ⟨rfl, -⟩ := hm
    obtain ⟨-, hle⟩ := h'.resolve_left hne
    rw [spent_submitted]
    push_cast
    omega
  · rw [spent_cons_of_ne (r := .submitted id f) hid]
    exact h id' call' f' hm hne

/-- **One step stays within the budget.** -/
theorem step_withinBudget {s t : State} {e : Event} (hfund : OfTable Funded s)
    (h : WithinBudget s.log) (hstep : step F extended s e = some t) : WithinBudget t.log :=
  step_log (fun hpos h => h.allocated hpos) (fun h => h.removed _)
    (fun hfund h => h.submitted hfund _) hfund h hstep

/-! ## Runs -/

/-- What holds after every run. -/
structure Sound (s : State) : Prop where
  inOrder : InOrder s
  queued : Queued s
  funded : OfTable Funded s
  withinBudget : WithinBudget s.log

/-- At first there is nothing. -/
lemma sound_init (extended : Bool) : Sound (init extended) where
  inOrder := inOrder_init extended
  queued := ⟨List.nodup_nil, by simp [init, State.ids], by simp [init]⟩
  funded := ofTable_init extended
  withinBudget := fun id call f h => by simp [init, maker] at h

/-- One step keeps the invariants. -/
theorem step_sound {s t : State} {e : Event} (h : Sound s)
    (hstep : step F extended s e = some t) : Sound t :=
  ⟨step_inOrder h.inOrder hstep, step_queued h.inOrder h.queued hstep,
    step_ofTable kept_funded h.funded hstep, step_withinBudget h.funded h.withinBudget hstep⟩

/-- The invariants hold after every run. -/
theorem sound_of_run {s : State} {es : List Event} (hrun : (system F extended).run es = some s) :
    Sound s :=
  System.run_invariant (S := system F extended) (sound_init extended)
    (fun _ _ _ h hstep => step_sound h hstep) hrun

/-- **The queue and the table.** While the manager is running, the ids in the queue are distinct
and are the ids of the table; and at any time, a timer that was created with a finite repeat number
was submitted at most that often.

**Proof sketch.** The queue has the timers of the table, and each timer what it has left, in every
state that a run comes to. -/
theorem queue_matches_table {s : State} {es : List Event}
    (hrun : (system F extended).run es = some s) :
    (Running s → s.ids.Nodup ∧ ∀ id, id ∈ s.ids ↔ id ∈ s.timers) ∧
      ∀ id call f, maker id s.log = some (call, f) → call.repeatNum ≠ maxInt →
        (spent id s.log : ℤ) ≤ call.repeatNum := by
  have h := sound_of_run hrun
  refine ⟨fun hr => ⟨h.queued.nodup, fun id => ?_⟩, h.withinBudget⟩
  exact ⟨h.queued.known id, h.queued.all hr id⟩

/-- A tick after midnight. -/
def tickLater : Clock := ⟨228277 * day + 1, by decide, by decide⟩

/-- A timer that runs twice, and has run once. -/
theorem queue_matches_table_twice :
    ∃ s, (system exactArith false).run
        [.start, .rebuild fun _ => newYear, .announce, .spawn,
          .add (.addDurationFunc ⟨2, by decide⟩ 1) 7 newYear newYear, .addNotify,
          .test tickLater, .examine 0 tickLater] = some s ∧
      Running s ∧ (s.ids.Nodup ∧ ∀ id, id ∈ s.ids ↔ id ∈ s.timers) ∧ (spent 0 s.log : ℤ) ≤ 2 := by
  obtain ⟨s, hs⟩ : ∃ s, (system exactArith false).run
      [.start, .rebuild fun _ => newYear, .announce, .spawn,
        .add (.addDurationFunc ⟨2, by decide⟩ 1) 7 newYear newYear, .addNotify,
        .test tickLater, .examine 0 tickLater] = some s := ⟨_, rfl⟩
  have h := queue_matches_table hs
  obtain rfl := Option.some.inj hs
  exact ⟨_, rfl, by decide, h.1 (by decide), h.2 0 _ 7 rfl (by decide)⟩

end HkuUtils.TimerManager
