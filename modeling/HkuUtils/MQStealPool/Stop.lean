import Mathlib.Algebra.Order.BigOperators.Group.List
import Mathlib.Algebra.Order.Group.Nat
import HkuUtils.MQStealPool.Model

set_option relaxedAutoImplicit false
set_option autoImplicit false

/-!
# What `stop` leaves undone

`stop` puts a null task behind the tasks of every queue, and it sets `m_done` when all workers have
ended. Until then the workers go on with the tasks of their queues, and new tasks are accepted.

## Main definitions

* `HkuUtils.MQStealPool.Abandons` — from a state on no task is started and none is accepted.
* `HkuUtils.MQStealPool.Settled` — the condition on a state.
* `HkuUtils.MQStealPool.Stage.stops` — a call of `stop` that has not set `m_done`.

## Main results

* `HkuUtils.MQStealPool.step_settled` — one step of a pool that is settled.
* `HkuUtils.MQStealPool.exists_admits`, `exists_takes` — how a pool that is not done goes on.
* `HkuUtils.MQStealPool.step_stops`, `done_of_one_stop` — what a single call of `stop` has done
  while it waits.
* `HkuUtils.MQStealPool.stop_abandons`, `stop_drains` — when `stop` abandons the queued tasks, and a
  run in which it does not.
-/

namespace HkuUtils.MQStealPool

open Threads Transition

variable {p : Pool} {m m' : Memory}

/-! ## What a stopped pool should do -/

/-- From this state on no worker takes a task from a queue, and every call of `submit` is
refused. -/
def Abandons (p : Pool) (s : State Memory Stage) : Prop :=
  ∀ es t, (system p).runFrom s es = some t →
    t.shared.taken = s.shared.taken ∧ t.shared.admitted = s.shared.admitted

/-- The worker is in the body of its loop, before it has a task. -/
def Worker.seeks : Worker → Bool
  | .popLocal | .steal _ | .waiting => true
  | _ => false

/-- The pool is done, and no worker looks for a task. -/
def Settled (p : Pool) (m : Memory) : Prop :=
  m.done = true ∧ ∀ i < p.workerNum, (m.worker i).seeks = false

/-- A pool where nothing was started or accepted since `m`. -/
structure Quiet (p : Pool) (m m' : Memory) : Prop where
  settled : Settled p m'
  taken : m'.taken = m.taken
  admitted : m'.admitted = m.admitted

/-- A worker goes on, and does not look for a task. -/
lemma Settled.setWorker (h : Settled p m) {i : ℕ} {w : Worker} (hdone : m'.done = m.done)
    (hworker : m'.worker = Function.update m.worker i w) (hw : w.seeks = false) :
    Settled p m' := by
  refine ⟨hdone.trans h.1, fun j hj => ?_⟩
  rw [hworker]
  by_cases hji : j = i
  · rw [hji, Function.update_self]
    exact hw
  · rw [Function.update_of_ne hji]
    exact h.2 j hj

/-- A step of `submit` in a pool that is done. -/
lemma submits_of_done {who : Option ℕ} {c : Submit} {c' : Option Submit}
    (hs : Submits p m who c m' c') (hd : m.done = true) :
    m'.done = m.done ∧ m'.worker = m.worker ∧ m'.taken = m.taken ∧ m'.admitted = m.admitted := by
  cases hs with
  | goOn hd' => exact absurd (hd'.symm.trans hd) Bool.false_ne_true
  | _ => exact ⟨rfl, rfl, rfl, rfl⟩

/-- A step of a worker.

**Proof sketch.** One case for each step. No worker looks for a task any more, so none takes one,
and what is left is to execute and to leave. -/
lemma Settled.works (h : Settled p m) {i : ℕ} (hw : Works p m i m') : Quiet p m m' := by
  cases hw with
  | test hi hold hf => exact ⟨h.setWorker rfl rfl rfl, rfl, rfl⟩
  | leave hi hold => exact ⟨h.setWorker rfl rfl rfl, rfl, rfl⟩
  | enter hi hold hd => exact absurd (hd.symm.trans h.1) Bool.false_ne_true
  | search hi hold =>
    have hseeks := h.2 i hi
    rcases hold with hold | ⟨k, hold⟩ <;> rw [hold] at hseeks <;>
      exact absurd hseeks.symm Bool.false_ne_true
  | pop hi hold =>
    have hseeks := h.2 i hi
    rcases hold with hold | hold <;> rw [hold] at hseeks <;>
      exact absurd hseeks.symm Bool.false_ne_true
  | stolen hi hold =>
    have hseeks := h.2 i hi
    rw [hold] at hseeks
    exact absurd hseeks.symm Bool.false_ne_true
  | execute hi hold => exact ⟨h.setWorker rfl rfl rfl, rfl, rfl⟩
  | @submit t c m₁ c' hi hold hs =>
    obtain ⟨hdone, hworker, htaken, hadmitted⟩ := submits_of_done hs h.1
    refine ⟨h.setWorker (i := i) (w := .running t c') hdone ?_ rfl, htaken, hadmitted⟩
    rw [← hworker]
    rfl
  | ending hi hold => exact ⟨h.setWorker rfl rfl rfl, rfl, rfl⟩

/-- A step of a call.

**Proof sketch.** One case for each step of a call. After `stop` no task is accepted, and neither
filling with null tasks nor waiting for a worker takes or accepts one. -/
lemma Settled.acts (h : Settled p m) {l l' : Stage} {a : Action} (ha : Acts p m l a m' l') :
    Quiet p m m' := by
  have hsame : Quiet p m m := ⟨h, rfl, rfl⟩
  cases ha with
  | callSubmit | callStop | callJoin | stop | join | filled | skip | awaited | finished =>
    exact hsame
  | submit hs =>
    obtain ⟨hdone, hworker, htaken, hadmitted⟩ := submits_of_done hs h.1
    refine ⟨⟨hdone.trans h.1, ?_⟩, htaken, hadmitted⟩
    rw [hworker]
    exact h.2
  | joinMark => exact ⟨⟨rfl, h.2⟩, rfl, rfl⟩
  | await => exact ⟨h, rfl, rfl⟩
  | fill how x todo =>
    cases x with
    | flag i =>
      rw [Fill.run]
      split
      · exact ⟨h, rfl, rfl⟩
      · exact hsame
    | push i => exact ⟨h, rfl, rfl⟩
  | finish how x todo =>
    cases x with
    | setDone => exact ⟨⟨rfl, h.2⟩, rfl, rfl⟩
    | clear i => exact ⟨h, rfl, rfl⟩

/-- **One step of a pool that is settled** starts no task and accepts none. -/
theorem step_settled {s t : State Memory Stage} {e : Event Action Tick}
    (h : Settled p s.shared) (hstep : (system p).step s e = some t) :
    Quiet p s.shared t.shared := by
  cases Program.steps_of_step hstep with
  | spawn => exact ⟨h, rfl, rfl⟩
  | act hl ha => exact h.acts (acts_of_act ha)
  | env he =>
    cases ticks_of_tick he with
    | work hw => exact h.works hw
    | submit => exact ⟨h.setWorker rfl rfl rfl, rfl, rfl⟩

/-- A pool that is settled abandons the queued tasks. -/
theorem abandons_of_settled {s : State Memory Stage} (h : Settled p s.shared) : Abandons p s := by
  intro es t hrun
  have hquiet : Quiet p s.shared t.shared := by
    refine System.runFrom_invariant_along (C := fun _ _ => True)
      (I := fun u => Quiet p s.shared u.shared) ?_ ⟨h, rfl, rfl⟩ (System.alongFrom_true _ s es) hrun
    intro u e v hu _ hstep
    have hv := step_settled hu.settled hstep
    exact ⟨hv.settled, hv.taken.trans hu.taken, hv.admitted.trans hu.admitted⟩
  exact ⟨hquiet.taken, hquiet.admitted⟩

/-! ## A pool that is not done -/

/-- A pool that is not done accepts a call of `submit`.

**Proof sketch.** The run is given: a call is started, begins with `submit`, and finds the pool not
done. -/
theorem exists_admits {s : State Memory Stage} (hd : s.shared.done = false) :
    ∃ es t, (system p).runFrom s es = some t ∧ t.shared.admitted ≠ s.shared.admitted := by
  let started : State Memory Stage := ⟨s.shared, s.threads ++ [.start]⟩
  let called : State Memory Stage :=
    ⟨s.shared, started.threads.set s.threads.length (.submit .done)⟩
  have hspawn : (system p).step s .spawn = some started := rfl
  have hcall : (system p).step started (.act s.threads.length .submit) = some called :=
    Program.step_act List.getElem?_concat_length rfl
  have hdone : called.threads[s.threads.length]? = some (.submit .done) := by
    simp [called, started]
  have haccept : (program p).act called.shared (.submit .done) .go =
      some (s.shared.accept, .submit .push) := by
    show act p s.shared (.submit .done) .go = _
    rw [act, submit, hd]
    rfl
  have htest : (system p).step called (.act s.threads.length .go) =
      some ⟨s.shared.accept, called.threads.set s.threads.length (.submit .push)⟩ :=
    Program.step_act hdone haccept
  refine ⟨[.spawn, .act s.threads.length .submit, .act s.threads.length .go],
    ⟨s.shared.accept, called.threads.set s.threads.length (.submit .push)⟩, ?_,
    Nat.succ_ne_self s.shared.admitted⟩
  rw [System.runFrom_cons, hspawn, Option.bind_some, System.runFrom_cons, hcall, Option.bind_some,
    System.runFrom_cons, htest]
  rfl

/-! ### A worker that takes a task -/

/-- Worker `i` alone comes to a state in which it has taken a task from a queue. -/
def Takes (p : Pool) (i : ℕ) (s : State Memory Stage) : Prop :=
  ∃ k t, (system p).runFrom s (works i k) = some t ∧
    s.shared.taken.length < t.shared.taken.length

/-- A worker that takes a step and comes to such a state. -/
lemma Takes.of_work {i : ℕ} {ls : List Stage} (hw : work p m i = some m')
    (htaken : m'.taken = m.taken) (h : Takes p i ⟨m', ls⟩) : Takes p i ⟨m, ls⟩ := by
  obtain ⟨k, t, hrun, hlt⟩ := h
  have hstep : (system p).step ⟨m, ls⟩ (.env (.work i)) = some ⟨m', ls⟩ :=
    Program.step_env (s := (⟨m, ls⟩ : State Memory Stage)) hw
  refine ⟨k + 1, t, ?_, htaken ▸ hlt⟩
  rw [works, List.replicate_succ, System.runFrom_cons, hstep, Option.bind_some, ← works, hrun]

/-- A worker that takes a task with its next step. -/
lemma takes_of_pop {i q u : ℕ} {r : List (Option ℕ)} (ls : List Stage)
    (hw : work p m i = some (pop m i q (some u) r)) : Takes p i ⟨m, ls⟩ := by
  have hstep : (system p).step ⟨m, ls⟩ (.env (.work i)) =
      some ⟨pop m i q (some u) r, ls⟩ :=
    Program.step_env (s := (⟨m, ls⟩ : State Memory Stage)) hw
  refine ⟨1, ⟨pop m i q (some u) r, ls⟩, ?_, ?_⟩
  · rw [works, List.replicate_succ, System.runFrom_cons, hstep, Option.bind_some]
    rfl
  · show m.taken.length < (m.taken ++ [u]).length
    rw [List.length_append]
    exact Nat.lt_succ_self _

section Worker

variable {i t : ℕ} {rest : List (Option ℕ)} (hi : i < p.workerNum)
include hi

/-- A worker that waits at a queue with a task. -/
lemma takes_of_waiting (ls : List Stage) (hold : m.worker i = .waiting)
    (hq : m.queue i = some t :: rest) : Takes p i ⟨m, ls⟩ := by
  refine takes_of_pop (r := rest) (u := t) (q := i) ls ?_
  rw [work, if_neg (not_le.2 hi), hold]
  simp only [hq]

/-- A worker that looks at such a queue. -/
lemma takes_of_popLocal (ls : List Stage) (hold : m.worker i = .popLocal)
    (hq : m.queue i = some t :: rest) : Takes p i ⟨m, ls⟩ := by
  refine takes_of_pop (r := rest) (u := t) (q := i) ls ?_
  rw [work, if_neg (not_le.2 hi), hold]
  simp only [hq]

/-- A worker in the loop over the other queues takes a task from one of them or comes back to its
own.

**Proof sketch.** By induction on how many queues are left. It skips its own, takes the task it
finds in another, or goes on with the next; behind the last one it comes back to its own queue,
where a task is waiting. -/
lemma takes_of_steal (ls : List Stage) {n k : ℕ} (hn : p.workerNum - k = n)
    (hold : m.worker i = .steal k) (hq : m.queue i = some t :: rest) : Takes p i ⟨m, ls⟩ := by
  have hself : ∀ w : Worker, (m.setWorker i w).worker i = w := fun w => Function.update_self ..
  induction n generalizing m k with
  | zero =>
    have hw : work p m i = some (m.setWorker i .waiting) := by
      rw [work, if_neg (not_le.2 hi), hold]
      exact if_pos (by omega)
    exact .of_work hw rfl (takes_of_waiting hi ls (hself _) hq)
  | succ n ih =>
    have hk : ¬ p.workerNum ≤ k := by omega
    have hnext : work p m i = some (m.setWorker i (.steal (k + 1))) → Takes p i ⟨m, ls⟩ := fun hw =>
      .of_work hw rfl (ih (k := k + 1) (by omega) (hself _) hq fun w => Function.update_self ..)
    by_cases hpos : position p i k = i
    · refine hnext ?_
      rw [work, if_neg (not_le.2 hi), hold]
      simp only [if_neg hk, if_pos hpos]
    · cases hsteal : trySteal (m.queue (position p i k)) with
      | none =>
        refine hnext ?_
        rw [work, if_neg (not_le.2 hi), hold]
        simp only [if_neg hk, if_neg hpos, hsteal]
      | some u =>
        refine takes_of_pop (q := position p i k) (u := u)
          (r := (m.queue (position p i k)).dropLast) ls ?_
        rw [work, if_neg (not_le.2 hi), hold]
        simp only [if_neg hk, if_neg hpos, hsteal]

/-- **A worker of a pool that is not done takes a task**, if there is one in front of its queue, it
has taken no null task and is in no call of `submit`.

**Proof sketch.** From each place in the loop, the way to the front of the own queue is short: it
tests its flag and `m_done`, which are not set, and takes the task. A worker on its round through
the other queues is the lemma above. -/
theorem takes_of_queue (ls : List Stage) (hd : m.done = false) (hf : m.flag i = false)
    (hold : m.worker i ≠ .ending ∧ m.worker i ≠ .exited ∧ ∀ u c, m.worker i ≠ .running u (some c))
    (hq : m.queue i = some t :: rest) : Takes p i ⟨m, ls⟩ := by
  have hself : ∀ (n : Memory) (w : Worker), (n.setWorker i w).worker i = w := fun n w =>
    Function.update_self ..
  have hsecond : ∀ n : Memory, n.done = false → n.queue i = some t :: rest →
      n.worker i = .second → Takes p i ⟨n, ls⟩ := by
    intro n hd hq hw
    have hstep : work p n i = some (n.setWorker i .popLocal) := by
      rw [work, if_neg (not_le.2 hi), hw]
      simp [hd]
    exact .of_work hstep rfl (takes_of_popLocal hi ls (hself _ _) hq)
  have htop : ∀ n : Memory, n.done = false → n.flag i = false → n.queue i = some t :: rest →
      n.worker i = .top → Takes p i ⟨n, ls⟩ := by
    intro n hd hf hq hw
    have hstep : work p n i = some (n.setWorker i .second) := by
      rw [work, if_neg (not_le.2 hi), hw]
      simp [hf]
    exact .of_work hstep rfl (hsecond _ hd hq (hself _ _))
  obtain ⟨hending, hexited, hcall⟩ := hold
  cases hw : m.worker i with
  | top => exact htop m hd hf hq hw
  | second => exact hsecond m hd hq hw
  | popLocal => exact takes_of_popLocal hi ls hw hq
  | steal k => exact takes_of_steal hi ls rfl hw hq
  | waiting => exact takes_of_waiting hi ls hw hq
  | running u call =>
    cases call with
    | some c => exact absurd hw (hcall u c)
    | none =>
      have hstep : work p m i = some ((m.execute u).setWorker i .top) := by
        rw [work, if_neg (not_le.2 hi), hw]
      exact .of_work hstep rfl (htop _ hd hf hq (hself _ _))
  | ending => exact absurd hw hending
  | exited => exact absurd hw hexited

end Worker

/-! ## A single call of `stop` -/

/-- How often a call of `stop` will still set `m_done`. -/
def Stage.stops : Stage → ℕ
  | .stop | .fill .stop _ | .await .stop _ => 1
  | .finish .stop todo => todo.count .setDone
  | _ => 0

/-- The call is one of `join`. -/
def Stage.joins : Stage → Bool
  | .join | .poll _ | .joinMark | .fill .join _ | .await .join _ | .finish .join _ => true
  | _ => false

/-- The event is a call of `stop`. -/
def isStop : Event Action Tick → Bool
  | .act _ .stop => true
  | _ => false

/-- The event is not a call of `join`. -/
def NoJoin (_ : State Memory Stage) : Event Action Tick → Prop
  | .act _ .join => False
  | _ => True

instance (s : State Memory Stage) : ∀ e, Decidable (NoJoin s e)
  | .act _ .join => inferInstanceAs (Decidable False)
  | .spawn | .act _ .submit | .act _ .stop | .act _ .go | .env _ =>
    inferInstanceAs (Decidable True)

/-- After `n` calls of `stop` and none of `join`: the calls that have not set `m_done`, and the one
that has. -/
structure Stops (n : ℕ) (s : State Memory Stage) : Prop where
  noJoin : ∀ l ∈ s.threads, l.joins = false
  count : (s.threads.map Stage.stops).sum + (if s.shared.done then 1 else 0) ≤ n

/-- A call goes on. -/
lemma Stops.set {n n' : ℕ} {s : State Memory Stage} (h : Stops n s) {i : ℕ} {l l' : Stage}
    (hl : s.threads[i]? = some l) (hjoins : l'.joins = false)
    (hcount : l'.stops + (if m'.done then 1 else 0) + n ≤
      l.stops + (if s.shared.done then 1 else 0) + n') : Stops n' ⟨m', s.threads.set i l'⟩ := by
  refine ⟨fun k hk => ?_, ?_⟩
  · rcases List.mem_or_eq_of_mem_set hk with hk | rfl
    · exact h.noJoin k hk
    · exact hjoins
  · have hsum := sum_map_set_add Stage.stops hl l'
    have hold := h.count
    show ((s.threads.set i l').map Stage.stops).sum + (if m'.done then 1 else 0) ≤ n'
    omega

/-- A step of the workers, or of `submit`, leaves `m_done`. -/
lemma submits_done {who : Option ℕ} {c : Submit} {c' : Option Submit}
    (hs : Submits p m who c m' c') : m'.done = m.done := by
  cases hs <;> rfl

/-- So does a step of a worker. -/
lemma works_done {i : ℕ} (hw : Works p m i m') : m'.done = m.done := by
  cases hw with
  | @submit t c m₁ c' hi hold hs => exact (submits_done hs : m₁.done = m.done)
  | _ => rfl

/-- A call that closes the pool and is not one of `join` is one of `stop`. -/
lemma eq_stop_of_joins {how : Close} {l : Stage} (hl : l.joins = false)
    (hclose : (∃ todo, l = .fill how todo) ∨ (∃ i, l = .await how i) ∨
      ∃ todo, l = .finish how todo) : how = .stop := by
  cases how with
  | stop => rfl
  | join => rcases hclose with ⟨_, rfl⟩ | ⟨_, rfl⟩ | ⟨_, rfl⟩ <;> cases hl

/-- A step of a call that is not one of `join`: only a call of `stop` adds to what there is.

**Proof sketch.** One case for each step. A call of `stop` counts once, first as a call and then,
when it has set `m_done`, as the mark. -/
lemma act_stops_le {i : ℕ} {l l' : Stage} {a : Action} (hjoins : l.joins = false) (ha : a ≠ .join)
    (hact : Acts p m l a m' l') : l'.joins = false ∧
      l'.stops + (if m'.done then 1 else 0) ≤
        l.stops + (if m.done then 1 else 0) + if isStop (.act i a) then 1 else 0 := by
  cases hact with
  | callSubmit => exact ⟨rfl, le_rfl⟩
  | callStop =>
    refine ⟨rfl, ?_⟩
    simp only [Stage.stops, isStop, if_true]
    omega
  | callJoin => exact absurd rfl ha
  | @submit c m₁ c' hs =>
    rw [submits_done hs]
    cases c' with
    | none => exact ⟨rfl, le_rfl⟩
    | some c' => exact ⟨rfl, le_rfl⟩
  | stop hl' =>
    rcases hl' with rfl | rfl
    · refine ⟨rfl, ?_⟩
      simp only [Stage.stops, isStop]
      omega
    · exact ⟨rfl, le_rfl⟩
  | join hl' =>
    rcases hl' with rfl | ⟨k, rfl⟩
    · cases hjoins
    · cases hjoins
  | joinMark => cases hjoins
  | fill how x todo =>
    obtain rfl := eq_stop_of_joins hjoins (.inl ⟨_, rfl⟩)
    refine ⟨rfl, ?_⟩
    cases x with
    | flag j =>
      rw [Fill.run]
      split <;> exact le_rfl
    | push j => exact le_rfl
  | filled how =>
    obtain rfl := eq_stop_of_joins hjoins (.inl ⟨_, rfl⟩)
    exact ⟨rfl, le_rfl⟩
  | skip how hj =>
    obtain rfl := eq_stop_of_joins hjoins (.inr (.inl ⟨_, rfl⟩))
    exact ⟨rfl, le_rfl⟩
  | await how hw =>
    obtain rfl := eq_stop_of_joins hjoins (.inr (.inl ⟨_, rfl⟩))
    exact ⟨rfl, le_rfl⟩
  | awaited how hi =>
    obtain rfl := eq_stop_of_joins hjoins (.inr (.inl ⟨_, rfl⟩))
    refine ⟨rfl, ?_⟩
    have hone : (finishing p).count .setDone = 1 := by
      rw [finishing, List.count_cons_self, List.count_eq_zero.2]
      simp
    simp only [Stage.stops, isStop, hone]
    exact le_rfl
  | finish how x todo =>
    obtain rfl := eq_stop_of_joins hjoins (.inr (.inr ⟨_, rfl⟩))
    refine ⟨rfl, ?_⟩
    cases x with
    | setDone =>
      simp only [Stage.stops, isStop, Finish.run, Memory.setDone, List.count_cons_self, if_true]
      omega
    | clear j =>
      simp only [Stage.stops, isStop, Finish.run, Memory.setQueue]
      rw [List.count_cons_of_ne (by simp)]
      exact le_rfl
  | finished how =>
    obtain rfl := eq_stop_of_joins hjoins (.inr (.inr ⟨_, rfl⟩))
    exact ⟨rfl, le_rfl⟩

/-- **One step** of a pool without calls of `join`.

**Proof sketch.** The calls are counted one by one, and only the one that moves changes its count,
by `act_stops_le`; a worker changes nothing of it. -/
theorem step_stops {n : ℕ} {s t : State Memory Stage} {e : Event Action Tick} (h : Stops n s)
    (hC : NoJoin s e) (hstep : (system p).step s e = some t) :
    Stops (n + if isStop e then 1 else 0) t := by
  cases Program.steps_of_step hstep with
  | spawn =>
    refine ⟨fun l hl => ?_, ?_⟩
    · rcases List.mem_append.1 hl with hl | hl
      · exact h.noJoin l hl
      · obtain rfl := List.mem_singleton.1 hl
        rfl
    · have hcount := h.count
      have hstart : (program p).start.stops = 0 := rfl
      simp only [isStop, List.map_append, List.sum_append, List.map_singleton, List.sum_singleton,
        hstart]
      exact hcount
  | @act i a l l' m' hl ha =>
    have hnot : a ≠ .join := by
      rintro rfl
      exact hC
    obtain ⟨hjoins, hle⟩ :=
      act_stops_le (i := i) (h.noJoin l (List.mem_of_getElem? hl)) hnot (acts_of_act ha)
    refine h.set hl hjoins ?_
    omega
  | env he =>
    refine ⟨h.noJoin, ?_⟩
    have hcount := h.count
    cases ticks_of_tick he with
    | work hw =>
      have hdone := works_done hw
      simp only [isStop, hdone]
      exact hcount
    | submit => exact hcount

/-- A single call of `stop` has not set `m_done` while it waits for the workers. -/
theorem done_of_one_stop {s : State Memory Stage} {es : List (Event Action Tick)}
    (hrun : (system p).run es = some s) (hjoin : (system p).Along NoJoin es)
    (hstop : es.countP isStop ≤ 1) {i k : ℕ} (hi : s.threads[i]? = some (.await .stop k)) :
    s.shared.done = false := by
  have hstops : Stops (es.countP isStop) s :=
    System.run_invariant_countP isStop ⟨List.forall_mem_nil _, le_rfl⟩
      (fun _ _ _ _ h hC hstep => step_stops h hC hstep) hjoin hrun
  have hone : 1 ≤ (s.threads.map Stage.stops).sum :=
    List.single_le_sum (fun _ _ => Nat.zero_le _) _
      (List.mem_map.2 ⟨_, List.mem_of_getElem? hi, rfl⟩)
  by_contra hdone
  have hcount := hstops.count
  rw [if_pos (Bool.not_eq_false _ ▸ hdone)] at hcount
  omega

/-! ## When `stop` abandons the queued tasks -/

/-- **When `stop` abandons the queued tasks.** Let a call of `stop` have marked a pool with any
number of workers and any contents of the queues, in any run. It is enough that the pool is done and
no worker looks for a task; and the pool has to be done. If `stop` is called once, and `join` never,
then the pool is not done, and both halves fail: there is a schedule in which a call of `submit` is
accepted, and for every worker with a task in front of its queue there is one in which this worker
starts a task.

**Proof sketch.** `m_done` is set only when all workers were joined (`Stops`), and a worker that is
not flagged and finds `m_done` not set takes what is in front of its queue; the null task is behind
it. -/
theorem stop_abandons (p : Pool) {s : State Memory Stage} {es : List (Event Action Tick)}
    (hrun : (system p).run es = some s) {i k : ℕ} (hi : s.threads[i]? = some (.await .stop k)) :
    (Settled p s.shared → Abandons p s) ∧ (Abandons p s → s.shared.done = true) ∧
    ((system p).Along NoJoin es → es.countP isStop ≤ 1 →
      (∃ fs t, (system p).runFrom s fs = some t ∧ t.shared.admitted ≠ s.shared.admitted) ∧
      ∀ j < p.workerNum, s.shared.flag j = false → s.shared.worker j ≠ .ending →
        s.shared.worker j ≠ .exited → (∀ u c, s.shared.worker j ≠ .running u (some c)) →
        ∀ t rest, s.shared.queue j = some t :: rest → Takes p j s) := by
  refine ⟨abandons_of_settled, fun h => ?_, fun hjoin hstop => ?_⟩
  · by_contra hdone
    obtain ⟨fs, t, hfs, hne⟩ := exists_admits (p := p) (Bool.eq_false_iff.2 hdone)
    exact hne (h fs t hfs).2
  · have hdone := done_of_one_stop hrun hjoin hstop hi
    refine ⟨exists_admits hdone, fun j hj hf hending hexited hcall t rest hq => ?_⟩
    exact takes_of_queue hj s.threads hdone hf ⟨hending, hexited, hcall⟩ hq

/-- Two tasks are submitted, the worker takes the first one, and `stop` marks the pool. -/
def markedRun : List (Event Action Tick) :=
  [.spawn, .act 0 .submit] ++ steps 0 5 ++ [.spawn, .act 1 .submit] ++ steps 1 5 ++ works 0 3 ++
    [.spawn, .act 2 .stop] ++ steps 2 4

/-- After this run the second task can be started. -/
theorem stop_abandons_two : ∃ s, (system ⟨1, true⟩).run markedRun = some s ∧
    Takes ⟨1, true⟩ 0 s := by
  refine ⟨_, rfl, ?_⟩
  have h := (stop_abandons (i := 2) (k := 0) ⟨1, true⟩
    (show (system ⟨1, true⟩).run markedRun = some _ from rfl) rfl).2.2 (by decide) (by decide)
  exact h.2 0 Nat.one_pos rfl nofun nofun nofun 1 [none] rfl

/-- **The queued task is started and a new one is accepted** after `stop` has marked the pool. -/
theorem stop_drains : ∃ s t, (system ⟨1, true⟩).run markedRun = some s ∧
    s.threads[2]? = some (.await .stop 0) ∧ s.shared.taken = [0] ∧ s.shared.admitted = 2 ∧
    (system ⟨1, true⟩).runFrom s ([.spawn, .act 3 .submit] ++ steps 3 5 ++ works 0 5) = some t ∧
    t.shared.executed = [0, 1] ∧ t.shared.admitted = 3 ∧ ¬ Abandons ⟨1, true⟩ s := by
  refine ⟨_, _, rfl, rfl, rfl, rfl, rfl, rfl, rfl, fun h => ?_⟩
  have htaken := (h ([.spawn, .act 3 .submit] ++ steps 3 5 ++ works 0 5) _ rfl).1
  exact absurd htaken (by decide)

end HkuUtils.MQStealPool
