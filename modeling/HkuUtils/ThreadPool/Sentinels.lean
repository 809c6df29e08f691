import Mathlib.Algebra.Order.BigOperators.Group.Finset
import HkuUtils.ThreadPool.Model

set_option relaxedAutoImplicit false
set_option autoImplicit false

/-!
# Sentinels against workers

In every interleaving there are enough null tasks for the workers of each queue, and a task is at
one place at most.

## Main definitions

* `HkuUtils.ThreadPool.live`, `nulls` — the workers of a queue, and the sentinels in it.
* `HkuUtils.ThreadPool.places` — at how many places a task is.
* `HkuUtils.ThreadPool.Sound`, `Knows`, `Rely` — what holds of a pool, what a call knows of it, and
  what no step takes away.

## Main results

* `HkuUtils.ThreadPool.act_sound`, `work_sound` — one step.
* `HkuUtils.ThreadPool.sound` — every run.
-/

namespace HkuUtils.ThreadPool

open Threads Transition

/-! ## Sums over the workers -/

/-- How many workers of a queue have not left the loop. -/
def live (p : Pool) (m : Memory) (q : ℕ) : ℕ :=
  ∑ i ∈ Finset.range p.workerNum, if p.queueOf i = q ∧ (m.worker i).isLive then 1 else 0

/-- How many sentinels are in a queue. -/
def nulls (m : Memory) (q : ℕ) : ℕ := (m.queue q).count none

/-- In how many queues a task is, counted with its repetitions. -/
def queued (p : Pool) (m : Memory) (t : ℕ) : ℕ :=
  ∑ q ∈ Finset.range p.workerNum, (m.queue q).count (some t)

/-- How many workers execute a task. -/
def atWork (p : Pool) (m : Memory) (t : ℕ) : ℕ :=
  ∑ i ∈ Finset.range p.workerNum, if m.worker i = .running t then 1 else 0

/-- At how many places a task is. -/
def places (p : Pool) (m : Memory) (t : ℕ) : ℕ :=
  queued p m t + atWork p m t + m.executed.count t

variable {p : Pool} {m : Memory}

/-- A worker that goes on. -/
lemma live_setWorker {i : ℕ} (hi : i < p.workerNum) (w : Worker) (q : ℕ) :
    live p (m.setWorker i w) q + (if p.queueOf i = q ∧ (m.worker i).isLive then 1 else 0) =
      live p m q + if p.queueOf i = q ∧ w.isLive then 1 else 0 :=
  sum_update (fun i w => if p.queueOf i = q ∧ Worker.isLive w then 1 else 0) m.worker hi w

/-- A worker that goes on, and the task that it executes. -/
lemma atWork_setWorker {i : ℕ} (hi : i < p.workerNum) (w : Worker) (t : ℕ) :
    atWork p (m.setWorker i w) t + (if m.worker i = .running t then 1 else 0) =
      atWork p m t + if w = .running t then 1 else 0 :=
  sum_update (fun _ w => if w = Worker.running t then 1 else 0) m.worker hi w

/-- A queue that changes. -/
lemma queued_setQueue {q : ℕ} (hq : q < p.workerNum) (items : List (Option ℕ)) (t : ℕ) :
    queued p (m.setQueue q items) t + (m.queue q).count (some t) =
      queued p m t + items.count (some t) :=
  sum_update (fun _ items => List.count (some t) items) m.queue hq items

/-- A live worker is counted. -/
lemma live_pos {i : ℕ} (hi : i < p.workerNum) (h : (m.worker i).isLive = true) :
    0 < live p m (p.queueOf i) := by
  refine Finset.sum_pos' (fun _ _ => Nat.zero_le _) ⟨i, Finset.mem_range.2 hi, ?_⟩
  rw [if_pos ⟨rfl, h⟩]
  exact Nat.one_pos

/-- If all workers have exited, none is live. -/
lemma live_eq_zero (h : ∀ i < p.workerNum, m.worker i = .exited) (q : ℕ) : live p m q = 0 := by
  refine Finset.sum_eq_zero fun i hi => ?_
  rw [h i (Finset.mem_range.1 hi)]
  exact if_neg fun hlive => Bool.false_ne_true hlive.2

/-- There are at most as many live workers as there are workers. -/
lemma live_le (q : ℕ) :
    live p m q ≤ ∑ i ∈ Finset.range p.workerNum, if p.queueOf i = q then 1 else 0 := by
  refine Finset.sum_le_sum fun i _ => ?_
  split
  · rw [if_pos (by tauto)]
  · exact Nat.zero_le _

/-- The queue of a worker is one of the queues. -/
lemma queueOf_lt {i : ℕ} (hi : i < p.workerNum) : p.queueOf i < p.workerNum := by
  unfold Pool.queueOf
  split
  · exact p.workerNum_pos
  · exact hi

/-- A queue that loses items, or gets others. -/
lemma queued_setQueue_le (q : ℕ) {items : List (Option ℕ)} {t c : ℕ}
    (h : items.count (some t) ≤ (m.queue q).count (some t) + c) :
    queued p (m.setQueue q items) t ≤ queued p m t + c := by
  by_cases hq : q < p.workerNum
  · have := queued_setQueue (p := p) (m := m) hq items t
    omega
  · have := sum_update_of_le (fun _ items => List.count (some t) items) m.queue (not_lt.1 hq) items
    exact this.le.trans (Nat.le_add_right _ _)

/-! ## What holds of a pool -/

/-- A thread that was joined has exited, and each submitted task is at one place at most. -/
structure Sound (p : Pool) (m : Memory) : Prop where
  joined : ∀ i, m.joined i = true → m.worker i = .exited
  promised : m.promised ≤ m.submitted
  once : ∀ t, places p m t ≤ if t < m.submitted then 1 else 0

/-- What a call knows: there are enough sentinels, in the queues or still to be pushed, and later
that workers have exited. -/
def Knows (p : Pool) (m : Memory) : Stage → Prop
  | .mark _ => p.untilEmpty = false
  | .fill _ todo => ∀ q, live p m q ≤ nulls m q + todo.count (.pushNull q)
  | .lock _ => ∀ q, live p m q ≤ nulls m q + 0
  | .await _ k =>
    (∀ q, live p m q ≤ nulls m q + 0) ∧ ∀ i < k, i < p.workerNum → m.worker i = .exited
  | .finish _ _ => ∀ i < p.workerNum, m.worker i = .exited
  | _ => True

/-- What no step takes away. -/
structure Rely (p : Pool) (m m' : Memory) : Prop where
  exited : ∀ i, m.worker i = .exited → m'.worker i = .exited
  nulls : ∀ q k, live p m q ≤ nulls m q + k → live p m' q ≤ nulls m' q + k
  executed : ∀ t ∈ m.executed, t ∈ m'.executed
  promised : m.promised ≤ m'.promised

/-- Without a step nothing changes. -/
lemma Rely.refl (p : Pool) (m : Memory) : Rely p m m :=
  ⟨fun _ h => h, fun _ _ h => h, fun _ h => h, le_rfl⟩

/-- A call keeps what it knows when others take steps. -/
lemma Rely.knows {m' : Memory} (h : Rely p m m') {l : Stage} (hl : Knows p m l) :
    Knows p m' l := by
  cases l with
  | mark k => exact hl
  | fill how todo => exact fun q => h.nulls q _ (hl q)
  | lock how => exact fun q => h.nulls q _ (hl q)
  | await how k =>
    exact ⟨fun q => h.nulls q _ (hl.1 q), fun i hi hn => h.exited i (hl.2 i hi hn)⟩
  | finish how todo => exact fun i hi => h.exited i (hl i hi)
  | start | submit | scan | size | push | stop | join | returned => trivial

/-! ### Steps of the calls -/

/-- A submission keeps the invariant: the new task is at one place, and every other one at as many
as before. -/
lemma Sound.submit (h : Sound p m) (q : ℕ) : Sound p (m.submit q) := by
  refine ⟨h.joined, h.promised.trans (Nat.le_succ _), fun t => ?_⟩
  have hold := h.once t
  have hqueued : queued p (m.submit q) t ≤ queued p m t + if t = m.submitted then 1 else 0 := by
    refine queued_setQueue_le q ?_
    rw [List.count_append, List.count_singleton]
    by_cases ht : t = m.submitted
    · simp [ht]
    · have hne : m.submitted ≠ t := fun heq => ht heq.symm
      simp [ht, hne]
  have hplaces : places p (m.submit q) t ≤ places p m t + if t = m.submitted then 1 else 0 := by
    have hrest : places p (m.submit q) t =
        queued p (m.submit q) t + atWork p m t + m.executed.count t := rfl
    rw [hrest, places]
    omega
  show places p (m.submit q) t ≤ if t < m.submitted + 1 then 1 else 0
  split at hold <;> split at hplaces <;> split <;> omega

/-- A queue gets sentinels or loses items. -/
lemma Sound.setQueue (h : Sound p m) (q : ℕ) {items : List (Option ℕ)}
    (hitems : ∀ t, items.count (some t) ≤ (m.queue q).count (some t)) :
    Sound p (m.setQueue q items) := by
  refine ⟨h.joined, h.promised, fun t => ?_⟩
  have hqueued : queued p (m.setQueue q items) t ≤ queued p m t + 0 :=
    queued_setQueue_le q (hitems t)
  have hrest : places p (m.setQueue q items) t =
      queued p (m.setQueue q items) t + atWork p m t + m.executed.count t := rfl
  have hold := h.once t
  show places p (m.setQueue q items) t ≤ if t < m.submitted then 1 else 0
  rw [hrest]
  rw [places] at hold
  omega

/-- A push takes no sentinel away. -/
lemma rely_push (q : ℕ) (item : Option ℕ) : Rely p m (m.push q item) := by
  refine ⟨fun _ h => h, fun r k h => ?_, fun _ h => h, le_rfl⟩
  have hnulls : nulls m r ≤ nulls (m.push q item) r := by
    by_cases hr : r = q
    · subst hr
      simp [nulls, Memory.push, Memory.setQueue]
    · simp [nulls, Memory.push, Memory.setQueue, hr]
  have hlive : live p (m.push q item) r = live p m r := rfl
  omega

/-- What leaves the workers, the queues and the tasks as they are. -/
lemma quiet_sound (h : Sound p m) (done : Bool) (flag : ℕ → Bool) (locked : Bool) :
    Sound p { m with done := done, flag := flag, locked := locked } ∧
      Rely p m { m with done := done, flag := flag, locked := locked } :=
  ⟨⟨h.joined, h.promised, h.once⟩, ⟨fun _ h => h, fun _ _ h => h, fun _ h => h, le_rfl⟩⟩

/-- A step of the first part of `stop` or `join`. -/
lemma fill_sound (h : Sound p m) (x : Fill) : Sound p (x.run m) ∧ Rely p m (x.run m) := by
  cases x with
  | setFlag i => exact quiet_sound h m.done (Function.update m.flag i true) m.locked
  | pushNull q => exact ⟨h.setQueue q fun t => by simp, rely_push q none⟩

/-- When all workers have exited, nothing that is done to a queue matters. -/
lemma finish_sound (h : Sound p m) (x : Finish)
    (hexited : ∀ i < p.workerNum, m.worker i = .exited) :
    Sound p (x.run m) ∧ Rely p m (x.run m) := by
  cases x with
  | setDone => exact quiet_sound h true m.flag m.locked
  | clear q =>
    refine ⟨h.setQueue q fun t => by simp, fun _ h => h, fun r k _ => ?_, fun _ h => h, le_rfl⟩
    have hlive : live p (m.setQueue q []) r = 0 := live_eq_zero hexited r
    exact hlive ▸ Nat.zero_le _

/-- A pushed sentinel is one less to be pushed, so that those in a queue and those to come are
still enough for its workers. -/
lemma fill_count (x : Fill) {todo : List Fill}
    (h : ∀ q, live p m q ≤ nulls m q + (x :: todo).count (.pushNull q)) (q : ℕ) :
    live p (x.run m) q ≤ nulls (x.run m) q + todo.count (.pushNull q) := by
  have hq := h q
  cases x with
  | setFlag i =>
    show live p m q ≤ nulls m q + todo.count (.pushNull q)
    simpa using hq
  | pushNull r =>
    have hlive : live p (Fill.run m (.pushNull r)) q = live p m q := rfl
    rw [hlive]
    by_cases hr : r = q
    · subst hr
      simp [nulls, Fill.run, Memory.push, Memory.setQueue] at hq ⊢
      omega
    · have hne : q ≠ r := fun heq => hr heq.symm
      simpa [nulls, Fill.run, Memory.push, Memory.setQueue, hr, hne] using hq

/-- `stop` and `join` push a sentinel for each worker.

**Proof sketch.** One case for each kind of pool: with one queue it gets as many sentinels as there
are workers, and otherwise each queue gets one. -/
lemma live_le_fill (q : ℕ) : live p m q ≤ (stopFill p).count (.pushNull q) ∧
    live p m q ≤ (joinFill p).count (.pushNull q) := by
  have hlive := live_le (p := p) (m := m) q
  cases hk : p.kind with
  | central =>
    have hworkers : (∑ i ∈ Finset.range p.workerNum, if p.queueOf i = q then 1 else 0) =
        if q = 0 then p.workerNum else 0 := by
      simp [Pool.queueOf, hk, eq_comm]
    simp only [stopFill, joinFill, hk, List.count_replicate]
    rw [hworkers] at hlive
    by_cases hq : q = 0
    · subst hq
      simp at hlive ⊢
      omega
    · simp [hq] at hlive
      omega
  | multi =>
    have hworkers : (∑ i ∈ Finset.range p.workerNum, if p.queueOf i = q then 1 else 0) =
        if q < p.workerNum then 1 else 0 := by
      simp [Pool.queueOf, hk]
    rw [hworkers] at hlive
    split at hlive
    · rename_i hq
      constructor
      · have hmem : Fill.pushNull q ∈ stopFill p := by
          simpa [stopFill, hk] using hq
        exact hlive.trans (List.count_pos_iff.2 hmem)
      · have hmem : Fill.pushNull q ∈ joinFill p := by
          simp [joinFill, hk, hq]
        exact hlive.trans (List.count_pos_iff.2 hmem)
    · omega

/-- One step of a call.

**Proof sketch.** One case for each action. A call that ends the pool knows that the sentinels that
it still has to push, and those in a queue, are enough for the workers of the queue; it starts with
all of them to push. -/
theorem act_sound {m' : Memory} {l l' : Stage} {a : Action} (h : Sound p m) (hl : Knows p m l)
    (ha : act p m l a = some (m', l')) : Sound p m' ∧ Knows p m' l' ∧ Rely p m m' := by
  cases acts_of_act ha with
  | callSubmit => exact ⟨h, trivial, .refl p m⟩
  | callStop => exact ⟨h, trivial, .refl p m⟩
  | callJoin =>
    exact ⟨⟨h.joined, le_rfl, h.once⟩, trivial, ⟨fun _ h => h, fun _ _ h => h, fun _ h => h,
      h.promised⟩⟩
  | search _ hl' =>
    refine ⟨h, ?_, .refl p m⟩
    rcases hl' with hl' | rfl
    · cases l' <;> trivial
    · trivial
  | push q =>
    have hrely := rely_push (p := p) (m := m) q (some m.submitted)
    exact ⟨h.submit q, trivial, hrely.exited, hrely.nulls, hrely.executed, hrely.promised⟩
  | stopAgain _ => exact ⟨h, trivial, .refl p m⟩
  | stop _ =>
    obtain ⟨hsound, hrely⟩ := quiet_sound h true m.flag m.locked
    exact ⟨hsound, fun q => (live_le_fill q).1.trans (Nat.le_add_left _ _), hrely⟩
  | joinAgain _ k => exact ⟨h, trivial, .refl p m⟩
  | join _ _ k =>
    refine ⟨h, fun q => ?_, .refl p m⟩
    exact (live_le_fill q).2.trans (Nat.le_add_left _ _)
  | hurry hu k => exact ⟨h, hu, .refl p m⟩
  | mark k =>
    obtain ⟨hsound, hrely⟩ := quiet_sound h true m.flag m.locked
    exact ⟨hsound, fun q => (live_le_fill q).2.trans (Nat.le_add_left _ _), hrely⟩
  | fill how x todo =>
    obtain ⟨hsound, hrely⟩ := fill_sound h x
    exact ⟨hsound, fill_count x hl, hrely⟩
  | filled how => exact ⟨h, fun q => hl q, .refl p m⟩
  | lock how =>
    obtain ⟨hsound, hrely⟩ := quiet_sound h m.done m.flag true
    exact ⟨hsound, ⟨hl, fun i hi => absurd hi (Nat.not_lt_zero i)⟩, hrely⟩
  | skip how hj =>
    refine ⟨h, ⟨hl.1, fun i hi hn => ?_⟩, .refl p m⟩
    rcases Nat.lt_succ_iff_lt_or_eq.1 hi with hi | rfl
    · exact hl.2 i hi hn
    · exact h.joined i hj
  | @await how j hw =>
    refine ⟨⟨fun i hi => ?_, h.promised, h.once⟩, ⟨hl.1, fun i hi hn => ?_⟩,
      ⟨fun _ h => h, fun _ _ h => h, fun _ h => h, le_rfl⟩⟩
    · rcases eq_or_ne i j with rfl | hij
      · exact hw
      · have hji : m.joined i = true := by simpa [Memory.join, hij] using hi
        exact h.joined i hji
    · rcases Nat.lt_succ_iff_lt_or_eq.1 hi with hi | rfl
      · exact hl.2 i hi hn
      · exact hw
  | awaited how hi =>
    obtain ⟨hsound, hrely⟩ := quiet_sound h m.done m.flag false
    exact ⟨hsound, fun j hj => hl.2 j (hj.trans_le hi) hj, hrely⟩
  | finish how x todo =>
    obtain ⟨hsound, hrely⟩ := finish_sound h x hl
    exact ⟨hsound, fun i hi => hrely.exited i (hl i hi), hrely⟩
  | finished how => exact ⟨h, trivial, .refl p m⟩

/-! ### Steps of the workers -/

/-- The tasks when a worker goes on. -/
lemma places_setWorker {i : ℕ} (hi : i < p.workerNum) (w : Worker) (t : ℕ) :
    places p (m.setWorker i w) t + (if m.worker i = .running t then 1 else 0) =
      places p m t + if w = .running t then 1 else 0 := by
  have hwork := atWork_setWorker (m := m) hi w t
  have hrest : places p (m.setWorker i w) t =
      queued p m t + atWork p (m.setWorker i w) t + m.executed.count t := rfl
  rw [hrest, places]
  omega

/-- A worker that has not exited can go on, if no task is at more places than before. -/
lemma Sound.setWorker (h : Sound p m) {i : ℕ} (hold : m.worker i ≠ .exited) {w : Worker}
    (honce : ∀ t, places p (m.setWorker i w) t ≤ if t < m.submitted then 1 else 0) :
    Sound p (m.setWorker i w) := by
  refine ⟨fun j hj => ?_, h.promised, honce⟩
  have hexited := h.joined j hj
  have hne : j ≠ i := by
    rintro rfl
    exact hold hexited
  simpa [Memory.setWorker, hne] using hexited

/-- A worker that has not exited can go on, if its queue keeps enough sentinels. -/
lemma rely_setWorker {i : ℕ} (hold : m.worker i ≠ .exited) {w : Worker}
    (hlive : ∀ q, live p (m.setWorker i w) q ≤ live p m q) : Rely p m (m.setWorker i w) := by
  refine ⟨fun j hj => ?_, fun q k h => (hlive q).trans h, fun _ h => h, le_rfl⟩
  have hne : j ≠ i := by
    rintro rfl
    exact hold hj
  simpa [Memory.setWorker, hne] using hj

/-- A worker that stays in the loop without a task, or leaves it. -/
lemma setWorker_sound (h : Sound p m) {i : ℕ} (hi : i < p.workerNum) {w : Worker}
    (hold : m.worker i ≠ .exited) (hlive : w.isLive = true → (m.worker i).isLive = true)
    (hrun : ∀ t, w ≠ .running t) : Sound p (m.setWorker i w) ∧ Rely p m (m.setWorker i w) := by
  constructor
  · refine h.setWorker hold fun t => ?_
    have hplaces := places_setWorker (m := m) hi w t
    rw [if_neg (hrun t)] at hplaces
    have hbound := h.once t
    omega
  · refine rely_setWorker hold fun q => ?_
    have hcount := live_setWorker (m := m) hi w q
    split at hcount <;> split at hcount
    · omega
    · omega
    · rename_i hnot hyes
      exact absurd ⟨hyes.1, hlive hyes.2⟩ hnot
    · omega

/-- The live workers when one of them takes an item. -/
lemma live_pop {i : ℕ} (hi : i < p.workerNum) (hold : m.worker i = .waiting)
    (rest : List (Option ℕ)) (w : Worker) (q : ℕ) :
    live p ((m.setQueue (p.queueOf i) rest).setWorker i w) q +
      (if p.queueOf i = q then 1 else 0) =
      live p m q + if p.queueOf i = q ∧ w.isLive then 1 else 0 := by
  have hset := live_setWorker (m := m.setQueue (p.queueOf i) rest) hi w q
  have hlive : ((m.setQueue (p.queueOf i) rest).worker i).isLive = true := by
    show (m.worker i).isLive = true
    rw [hold]
    rfl
  simp only [hlive, and_true] at hset
  exact hset

/-- A worker takes the first item of its queue: a sentinel less is a worker less.

**Proof sketch.** Only the queue of the worker changes, by its first item, and only this worker
moves. If the item is a sentinel, then the worker does not live any more, so one less is enough. -/
lemma rely_pop {i : ℕ} (hi : i < p.workerNum) (hold : m.worker i = .waiting)
    {x : Option ℕ} {rest : List (Option ℕ)} (hq : m.queue (p.queueOf i) = x :: rest) {w : Worker}
    (hw : x = none → w.isLive = false) :
    Rely p m ((m.setQueue (p.queueOf i) rest).setWorker i w) := by
  refine ⟨fun j hj => ?_, fun q k h => ?_, fun _ h => h, le_rfl⟩
  · have hne : j ≠ i := by
      rintro rfl
      rw [hold] at hj
      cases hj
    simpa [Memory.setWorker, Memory.setQueue, hne] using hj
  · have hcount := live_pop hi hold rest w q
    have hother : q ≠ p.queueOf i →
        nulls ((m.setQueue (p.queueOf i) rest).setWorker i w) q = nulls m q := by
      intro hne
      simp [nulls, Memory.setWorker, Memory.setQueue, hne]
    have hself : nulls ((m.setQueue (p.queueOf i) rest).setWorker i w) (p.queueOf i) +
        (if x = none then 1 else 0) = nulls m (p.queueOf i) := by
      cases x <;> simp [nulls, Memory.setWorker, Memory.setQueue, hq]
    by_cases hqi : p.queueOf i = q
    · subst hqi
      rw [if_pos rfl] at hcount
      by_cases hx : x = none
      · simp [hw hx] at hcount
        rw [if_pos hx] at hself
        omega
      · rw [if_neg hx] at hself
        split at hcount <;> omega
    · have hnulls := hother fun heq => hqi heq.symm
      simp [hqi] at hcount
      omega

/-- A task that is taken from a queue is at another place afterwards, and at no more than before. -/
lemma places_take {i : ℕ} (hi : i < p.workerNum) {x : Option ℕ}
    {rest : List (Option ℕ)} (hq : m.queue (p.queueOf i) = x :: rest) {w : Worker}
    (hw : ∀ t, w = .running t → x = some t) (t : ℕ) :
    places p ((m.setQueue (p.queueOf i) rest).setWorker i w) t ≤ places p m t := by
  have hqueued := queued_setQueue (m := m) (queueOf_lt hi) rest t
  have hplaces := places_setWorker (m := m.setQueue (p.queueOf i) rest) hi w t
  have hrest : places p (m.setQueue (p.queueOf i) rest) t =
      queued p (m.setQueue (p.queueOf i) rest) t + atWork p m t + m.executed.count t := rfl
  have hsum : places p m t = queued p m t + atWork p m t + m.executed.count t := rfl
  rw [hq, List.count_cons] at hqueued
  by_cases hwt : w = .running t
  · have hx := hw t hwt
    rw [if_pos hwt] at hplaces
    simp [hx] at hqueued
    omega
  · rw [if_neg hwt] at hplaces
    omega

/-- One step of a worker.

**Proof sketch.** One case for each step. A task goes from the queue to the worker and from there
to those that were executed; a sentinel ends the worker. -/
theorem work_sound {m' : Memory} {i : ℕ} (h : Sound p m) (hw : work p m i = some m') :
    Sound p m' ∧ Rely p m m' := by
  cases works_of_work hw with
  | move hi hold hnew =>
    refine setWorker_sound h hi ?_ ?_ ?_
    · rcases hold with hold | hold <;> simp [hold]
    · intro _
      rcases hold with hold | hold <;> rw [hold] <;> rfl
    · rcases hnew with rfl | rfl <;> simp
  | leave hi hold _ =>
    refine setWorker_sound h hi ?_ nofun (by simp)
    rcases hold with hold | hold <;> simp [hold]
  | null hi hold hq =>
    have hafter : (afterNull p).isLive = false ∧ ∀ t, afterNull p ≠ .running t := by
      unfold afterNull
      split <;> exact ⟨rfl, nofun⟩
    refine ⟨⟨?_, h.promised, fun t => ?_⟩, rely_pop hi hold hq fun _ => hafter.1⟩
    · intro j hj
      exact (rely_pop hi hold hq fun _ => hafter.1).exited j (h.joined j hj)
    · exact (places_take hi hq (fun t ht => absurd ht (hafter.2 t)) t).trans (h.once t)
  | take hi hold hq =>
    refine ⟨⟨?_, h.promised, fun t => ?_⟩, rely_pop hi hold hq nofun⟩
    · intro j hj
      exact (rely_pop hi hold hq nofun).exited j (h.joined j hj)
    · refine (places_take hi hq (fun t ht => ?_) t).trans (h.once t)
      cases ht
      rfl
  | @execute t hi hold =>
    have hexited : m.worker i ≠ .exited := by rw [hold]; exact nofun
    have hexecute : ∀ u, places p ((m.execute t).setWorker i .top) u = places p m u := by
      intro u
      have hset := places_setWorker (m := m.execute t) hi .top u
      have hrest : places p (m.execute t) u =
          queued p m u + atWork p m u + (m.executed ++ [t]).count u := rfl
      have hsum : places p m u = queued p m u + atWork p m u + m.executed.count u := rfl
      have hworker : (m.execute t).worker i = .running t := hold
      rw [hworker, if_neg (by simp : ¬ Worker.top = .running u)] at hset
      rw [List.count_append, List.count_singleton] at hrest
      by_cases hu : t = u
      · subst hu
        simp at hset hrest
        omega
      · simp [hu] at hset hrest
        omega
    have hrely : Rely p m (m.setWorker i .top) := by
      refine rely_setWorker hexited fun q => ?_
      have hcount := live_setWorker (m := m) hi .top q
      have hlive : (m.worker i).isLive = Worker.top.isLive := by rw [hold]; rfl
      rw [hlive] at hcount
      omega
    refine ⟨⟨fun j hj => hrely.exited j (h.joined j hj), h.promised, fun u => ?_⟩,
      hrely.exited, hrely.nulls, fun u hu => List.mem_append_left _ hu, le_rfl⟩
    exact (hexecute u).trans_le (h.once u)
  | ending hi hold =>
    obtain ⟨hsound, hrely⟩ := setWorker_sound h hi (w := .exited)
      (by rw [hold]; exact nofun) nofun nofun
    exact ⟨⟨hsound.joined, hsound.promised, hsound.once⟩, hrely.exited, hrely.nulls, hrely.executed,
      hrely.promised⟩

/-! ## Every run -/

/-- One step of the whole. -/
theorem step_sound {s t : State Memory Stage} {e : Event Action ℕ}
    (h : Sound p s.shared ∧ ∀ l ∈ s.threads, Knows p s.shared l)
    (hstep : (system p).step s e = some t) :
    Sound p t.shared ∧ ∀ l ∈ t.threads, Knows p t.shared l := by
  refine Program.step_rely (I := Sound p) (Q := Knows p) (R := Rely p) h ?_ ?_ ?_ ?_ hstep
  · trivial
  · intro i a l m l' _ _ hl ha
    exact act_sound h.1 hl ha
  · intro i m _ hw
    exact work_sound h.1 hw
  · intro m l hR hl
    exact hR.knows hl

/-- At the beginning every task is nowhere. -/
lemma sound_init : Sound p Memory.init := by
  refine ⟨nofun, le_rfl, fun t => ?_⟩
  have hzero : places p Memory.init t = 0 := by
    simp [places, queued, atWork, Memory.init]
  rw [hzero]
  exact Nat.zero_le _

/-- What holds of a pool, and what every call knows of it, holds after every run. -/
theorem sound {s : State Memory Stage} {es : List (Event Action ℕ)}
    (hrun : (system p).run es = some s) :
    Sound p s.shared ∧ ∀ l ∈ s.threads, Knows p s.shared l :=
  System.run_invariant (I := fun s => Sound p s.shared ∧ ∀ l ∈ s.threads, Knows p s.shared l)
    ⟨sound_init, List.forall_mem_nil _⟩ (fun _ _ _ => step_sound) hrun

/-! ## No worker is blocked -/

/-- The call is one of `stop` or `join` and has begun to end the pool. -/
def Stage.isClosing : Stage → Bool
  | .fill .. | .lock _ | .await .. | .finish .. => true
  | _ => false

/-- The call waits for the workers. -/
def Stage.isWaiting : Stage → Bool
  | .lock _ | .await .. => true
  | _ => false

/-- The call has still to push a sentinel. -/
def Stage.Pushes : Stage → Prop
  | .fill _ todo => ∃ q, .pushNull q ∈ todo
  | _ => False

/-- Who has begun to end a pool goes on until all workers have exited, and only such a call sets
`m_done`. -/
lemma act_closing {m' : Memory} {l l' : Stage} {a : Action} (hl : Knows p m l)
    (ha : act p m l a = some (m', l')) :
    (m'.done = true → m.done = true ∨ l'.isClosing = true) ∧
      (l.isClosing = true → l'.isClosing = true ∨ ∀ i < p.workerNum, m.worker i = .exited) := by
  cases acts_of_act ha with
  | callSubmit | callStop | callJoin | push q | stopAgain _ | joinAgain _ k | hurry hu k =>
    exact ⟨.inl, nofun⟩
  | search hs _ =>
    refine ⟨.inl, fun hc => ?_⟩
    cases l <;> first | exact absurd hs Bool.false_ne_true | exact absurd hc Bool.false_ne_true
  | stop _ | mark k => exact ⟨fun _ => .inr rfl, nofun⟩
  | join _ _ k => exact ⟨.inl, nofun⟩
  | fill how x todo | filled how | lock how | skip how _ | await how _ | awaited how _
  | finish how x todo => exact ⟨fun _ => .inr rfl, fun _ => .inl rfl⟩
  | finished how => exact ⟨.inl, fun _ => .inr hl⟩

/-- If the pool is done, somebody is still ending it or all workers have exited. -/
def Ended (p : Pool) (s : State Memory Stage) : Prop :=
  s.shared.done = true →
    (∃ l ∈ s.threads, l.isClosing = true) ∨ ∀ i < p.workerNum, s.shared.worker i = .exited

/-- One step of the whole.

**Proof sketch.** A call that sets `m_done` is one that closes the pool from then on. It stays one
until it has joined all workers, and these have exited then. -/
lemma step_ended {s t : State Memory Stage} {e : Event Action ℕ}
    (h : Sound p s.shared ∧ ∀ l ∈ s.threads, Knows p s.shared l) (hended : Ended p s)
    (hstep : (system p).step s e = some t) : Ended p t := by
  intro hdone
  cases Program.steps_of_step hstep with
  | spawn =>
    rcases hended hdone with ⟨l, hl, hclosing⟩ | hexited
    · exact .inl ⟨l, List.mem_append_left _ hl, hclosing⟩
    · exact .inr hexited
  | @act i a l l' m hl ha =>
    have hknows := h.2 l (List.mem_of_getElem? hl)
    obtain ⟨hset, hgoesOn⟩ := act_closing hknows ha
    have hrely := (act_sound h.1 hknows ha).2.2
    have hlt : i < s.threads.length := (List.getElem?_eq_some_iff.1 hl).1
    have hnew : l' ∈ s.threads.set i l' := List.mem_set hlt l'
    rcases hset hdone with hdone | hclosing
    · rcases hended hdone with ⟨l₀, hl₀, hclosing⟩ | hexited
      · obtain ⟨j, hj⟩ := List.mem_iff_getElem?.1 hl₀
        rcases eq_or_ne i j with rfl | hij
        · -- the call that was ending the pool takes the step
          obtain rfl : l = l₀ := Option.some.inj (hl.symm.trans hj)
          rcases hgoesOn hclosing with hclosing | hexited
          · exact .inl ⟨l', hnew, hclosing⟩
          · exact .inr fun k hk => hrely.exited k (hexited k hk)
        · have hmem : l₀ ∈ s.threads.set i l' := by
            refine List.mem_iff_getElem?.2 ⟨j, ?_⟩
            rw [List.getElem?_set_ne hij]
            exact hj
          exact .inl ⟨l₀, hmem, hclosing⟩
      · exact .inr fun k hk => hrely.exited k (hexited k hk)
    · exact .inl ⟨l', hnew, hclosing⟩
  | @env i m he =>
    have hrely := (work_sound h.1 he).2
    have hsame : m.done = s.shared.done := by
      cases works_of_work he <;> rfl
    rcases hended (hsame.symm.trans hdone) with hclosing | hexited
    · exact .inl hclosing
    · exact .inr fun k hk => hrely.exited k (hexited k hk)

/-- If somebody waits for the workers, a worker that waits has something in its queue. -/
lemma queue_ne_nil_of_waiting {l : Stage} (hl : Knows p m l) (hwaiting : l.isWaiting = true)
    {i : ℕ} (hi : i < p.workerNum) (hw : m.worker i = .waiting) : m.queue (p.queueOf i) ≠ [] := by
  have hlive : 0 < live p m (p.queueOf i) := live_pos hi (by rw [hw]; rfl)
  have hnulls : live p m (p.queueOf i) ≤ nulls m (p.queueOf i) + 0 := by
    cases l with
    | lock how => exact hl _
    | await how k => exact hl.1 _
    | start | submit | scan | size | push | stop | join | mark | fill | finish | returned =>
      exact absurd hwaiting Bool.false_ne_true
  intro hq
  rw [nulls, hq, List.count_nil] at hnulls
  omega

/-- If somebody ends the pool and has no sentinel left to push, a worker that waits has something
in its queue.

**Proof sketch.** The queue has as many sentinels as live workers, and the worker that waits is
one. -/
lemma queue_ne_nil_of_closing {l : Stage} (hl : Knows p m l) (hclosing : l.isClosing = true)
    (hpushes : ¬ l.Pushes) {i : ℕ} (hi : i < p.workerNum) (hw : m.worker i = .waiting) :
    m.queue (p.queueOf i) ≠ [] := by
  have hlive : 0 < live p m (p.queueOf i) := live_pos hi (by rw [hw]; rfl)
  cases l with
  | lock | await => exact queue_ne_nil_of_waiting hl rfl hi hw
  | fill how todo =>
    have hnone : todo.count (.pushNull (p.queueOf i)) = 0 :=
      List.count_eq_zero.2 fun hmem => hpushes ⟨_, hmem⟩
    have hnulls := hl (p.queueOf i)
    intro hq
    rw [nulls, hq, List.count_nil] at hnulls
    omega
  | finish how todo =>
    rw [hl i hi] at hw
    cases hw
  | start | submit | scan | size | push | stop | join | mark | returned =>
    exact absurd hclosing Bool.false_ne_true

/-- A worker is blocked: it waits at an empty queue although somebody waits for it, or although the
pool is done and nobody has a sentinel left to push. -/
def Blocked (p : Pool) (s : State Memory Stage) (i : ℕ) : Prop :=
  i < p.workerNum ∧ s.shared.worker i = .waiting ∧ s.shared.queue (p.queueOf i) = [] ∧
    ((∃ l ∈ s.threads, l.isWaiting = true) ∨
      s.shared.done = true ∧ ∀ l ∈ s.threads, ¬ l.Pushes)

/-- In no run a worker is blocked. -/
theorem not_blocked {s : State Memory Stage} {es : List (Event Action ℕ)}
    (hrun : (system p).run es = some s) (i : ℕ) : ¬ Blocked p s i := by
  rintro ⟨hi, hw, hq, hblocked⟩
  have hended : Ended p s := (System.run_invariant
    (I := fun s => (Sound p s.shared ∧ ∀ l ∈ s.threads, Knows p s.shared l) ∧ Ended p s)
    ⟨⟨sound_init, List.forall_mem_nil _⟩, fun h => absurd h Bool.false_ne_true⟩
    (fun s e t h hstep => ⟨step_sound h.1 hstep, step_ended h.1 h.2 hstep⟩) hrun).2
  obtain ⟨-, hknows⟩ := sound hrun
  rcases hblocked with ⟨l, hl, hwaiting⟩ | ⟨hdone, hpushes⟩
  · exact queue_ne_nil_of_waiting (hknows l hl) hwaiting hi hw hq
  · rcases hended hdone with ⟨l, hl, hclosing⟩ | hexited
    · exact queue_ne_nil_of_closing (hknows l hl) hclosing (hpushes l hl) hi hw hq
    · rw [hexited i hi] at hw
      cases hw

/-- In no run a task is executed twice. -/
theorem executed_once {s : State Memory Stage} {es : List (Event Action ℕ)}
    (hrun : (system p).run es = some s) (t : ℕ) :
    s.shared.executed.count t + atWork p s.shared t ≤ 1 := by
  have honce := (sound hrun).1.once t
  rw [places] at honce
  split at honce <;> omega

end HkuUtils.ThreadPool
