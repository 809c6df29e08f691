import Mathlib.Algebra.Order.BigOperators.Group.Finset
import HkuUtils.StealPool.Wakeup

set_option relaxedAutoImplicit false
set_option autoImplicit false

/-!
# The tasks of a work-stealing pool

`join` looks at the queues one after the other, and when it has found each of them empty it sets
`m_done`, which ends the workers. A task that a worker executes is in no queue, and it may submit
other tasks until `m_done` is set. These are lost.

## Main definitions

* `HkuUtils.StealPool.places` — at how many places a task is.
* `HkuUtils.StealPool.Settled` — no task is in a queue or on its way to one.
* `HkuUtils.StealPool.Orderly` — the condition on the steps of a run.
* `HkuUtils.StealPool.Accounted`, `Closed`, `Kept` — what such a run preserves.

## Main results

* `HkuUtils.StealPool.act_accounted`, `tick_accounted` — one step that meets the condition.
* `HkuUtils.StealPool.tasks_executed`, `child_lost` — the tasks of a run, and a task that is lost.
-/

namespace HkuUtils.StealPool

open Threads Transition

variable {p : Pool} {m m' : Memory}

/-! ## The places of a task -/

/-- How often a worker holds a task. -/
def Worker.holds (t : ℕ) : Worker → ℕ
  | .running u _ => if u = t then 1 else 0
  | _ => 0

/-- How often a task is in the queues of the workers. -/
def queued (p : Pool) (m : Memory) (t : ℕ) : ℕ :=
  ∑ i ∈ Finset.range p.workerNum, (m.queue i).count (some t)

/-- How many workers execute a task. -/
def atWork (p : Pool) (m : Memory) (t : ℕ) : ℕ :=
  ∑ i ∈ Finset.range p.workerNum, (m.worker i).holds t

/-- At how many places a task is. -/
def places (p : Pool) (m : Memory) (t : ℕ) : ℕ :=
  m.master.count (some t) + queued p m t + atWork p m t + m.executed.count t

/-- A worker goes on. -/
lemma atWork_setWorker {i : ℕ} (hi : i < p.workerNum) (w : Worker) (t : ℕ) :
    atWork p (m.setWorker i w) t + (m.worker i).holds t = atWork p m t + w.holds t :=
  sum_update (fun _ v => v.holds t) m.worker hi w

/-- The queue of a worker changes. -/
lemma queued_setQueue {i : ℕ} (hi : i < p.workerNum) (items : List (Option ℕ)) (t : ℕ) :
    queued p (m.setQueue i items) t + (m.queue i).count (some t) =
      queued p m t + items.count (some t) :=
  sum_update (fun _ q => q.count (some t)) m.queue hi items

/-- The item that a worker takes is held by it, if it is a task. -/
lemma holds_afterPop (item : Option ℕ) (t : ℕ) :
    (afterPop item).holds t = if item = some t then 1 else 0 := by
  cases item with
  | none => rfl
  | some u =>
    show (if u = t then 1 else 0) = _
    simp only [Option.some.injEq]

/-- The number of places of a task changes with the worker and its queue. -/
lemma places_setWorker {i : ℕ} (hi : i < p.workerNum) (w : Worker) (t : ℕ) :
    places p (m.setWorker i w) t + (m.worker i).holds t = places p m t + w.holds t := by
  have := atWork_setWorker (m := m) hi w t
  show m.master.count (some t) + queued p m t + atWork p (m.setWorker i w) t +
      m.executed.count t + _ = m.master.count (some t) + queued p m t + atWork p m t +
      m.executed.count t + _
  omega

/-- Where a task is when a queue is replaced, and where it was. -/
lemma places_setQueue {i : ℕ} (hi : i < p.workerNum) (items : List (Option ℕ)) (t : ℕ) :
    places p (m.setQueue i items) t + (m.queue i).count (some t) =
      places p m t + items.count (some t) := by
  have := queued_setQueue (m := m) hi items t
  show m.master.count (some t) + queued p (m.setQueue i items) t + atWork p m t +
      m.executed.count t + _ = m.master.count (some t) + queued p m t + atWork p m t +
      m.executed.count t + _
  omega

/-- Where a task is when the master queue is replaced, and where it was. -/
lemma places_setMaster (items : List (Option ℕ)) (t : ℕ) :
    places p (m.setMaster items) t + m.master.count (some t) =
      places p m t + items.count (some t) := by
  show items.count (some t) + queued p m t + atWork p m t + m.executed.count t + _ =
    m.master.count (some t) + queued p m t + atWork p m t + m.executed.count t + _
  omega

/-! ## The condition -/

/-- The call of `submit` has tested `m_done`, and has not pushed its task. -/
def Submit.passing : Submit → Bool
  | .route | .pushFront | .push => true
  | _ => false

/-- The task of the worker is in such a call. -/
def Worker.passing : Worker → Bool
  | .running _ (some s) => s.passing
  | _ => false

/-- The call is such a one. -/
def Stage.passing : Stage → Bool
  | .submit s => s.passing
  | _ => false

/-- No task is in a queue, or will be put there by a task of a worker that has tested `m_done`. -/
def Empty (p : Pool) (m : Memory) : Prop :=
  (∀ item ∈ m.master, item = none) ∧
    ∀ i < p.workerNum, (∀ item ∈ m.queue i, item = none) ∧ (m.worker i).passing = false

/-- No task is in a queue or on its way to one. -/
def Settled (p : Pool) (s : State Memory Stage) : Prop :=
  Empty p s.shared ∧ ∀ l ∈ s.threads, l.passing = false

/-- The worker executes a task. -/
def Worker.executes : Worker → Bool
  | .running _ _ => true
  | _ => false

/-- No worker executes a task. -/
def Idle (p : Pool) (m : Memory) : Prop := ∀ i < p.workerNum, (m.worker i).executes = false

/-- The condition on a step of a call. -/
def Ends (p : Pool) (s : State Memory Stage) : Stage → Prop
  | .joinMark | .stopMark => Settled p s
  | .stop => p.kind = .globalSteal → Settled p s
  | .join => s.shared.done = true → Idle p s.shared
  | _ => True

/-- The condition on a step. When `m_done` is set, no task is in a queue or on its way to one, and
when `join` finds it set, no task is executed. -/
def Orderly (p : Pool) (s : State Memory Stage) : Event Action Tick → Prop
  | .act i (.go _) => ∀ l ∈ s.threads[i]?, Ends p s l
  | _ => True

instance (p : Pool) (m : Memory) : Decidable (Empty p m) :=
  inferInstanceAs (Decidable ((∀ item ∈ m.master, item = none) ∧
    ∀ i < p.workerNum, (∀ item ∈ m.queue i, item = none) ∧ (m.worker i).passing = false))

instance (p : Pool) (s : State Memory Stage) : Decidable (Settled p s) :=
  inferInstanceAs (Decidable (_ ∧ ∀ l ∈ s.threads, l.passing = false))

instance (p : Pool) (m : Memory) : Decidable (Idle p m) :=
  inferInstanceAs (Decidable (∀ i < p.workerNum, (m.worker i).executes = false))

instance (p : Pool) (s : State Memory Stage) (l : Stage) : Decidable (Ends p s l) := by
  unfold Ends
  split <;> infer_instance

instance (p : Pool) (s : State Memory Stage) : ∀ e, Decidable (Orderly p s e)
  | .act _ (.go _) => inferInstanceAs (Decidable (∀ _ ∈ _, _))
  | .spawn | .act _ .submit | .act _ .stop | .act _ .join | .env _ =>
    inferInstanceAs (Decidable True)

/-! ## What a run preserves -/

/-- The task that the worker is about to notify for was pushed. -/
def Announces (submitted : ℕ) (w : Worker) : Prop :=
  ∀ u t, w = .running u (some (.notify t)) → t < submitted

/-- Each task that was pushed is at one place. -/
structure Accounted (p : Pool) (m : Memory) : Prop where
  places : ∀ t, places p m t = if t < m.submitted then 1 else 0
  accepted : ∀ t ∈ m.accepted, t < m.submitted
  workers : ∀ i < p.workerNum, Announces m.submitted (m.worker i)

/-- A pool that is done is settled. -/
def Closed (p : Pool) (s : State Memory Stage) : Prop := s.shared.done = true → Settled p s

/-- What a call knows, in a pool that runs until it is empty. -/
def Kept (m : Memory) : Stage → Prop
  | .submit (.notify t) => t < m.submitted
  | .fill _ _ | .notifyAll _ | .await _ _ | .finish _ _ => m.done = true
  | .joined ts => ∀ t ∈ ts, t ∈ m.executed
  | _ => True

/-- What no step takes away. -/
structure Keeps (m m' : Memory) : Prop where
  done : m.done = true → m'.done = true
  submitted : m.submitted ≤ m'.submitted
  executed : ∀ t ∈ m.executed, t ∈ m'.executed

/-- What a call knows stays true. -/
lemma Keeps.kept (h : Keeps m m') {l : Stage} (hl : Kept m l) : Kept m' l := by
  cases l with
  | submit s =>
    cases s with
    | notify t => exact hl.trans_le h.submitted
    | _ => trivial
  | fill | notifyAll | await | finish => exact h.done hl
  | joined ts => exact fun t ht => h.executed t (hl t ht)
  | _ => trivial

/-- A change that moves no task. -/
lemma Accounted.same (h : Accounted p m)
    (hplaces : ∀ t, StealPool.places p m' t = StealPool.places p m t)
    (hsubmitted : m'.submitted = m.submitted) (haccepted : m'.accepted = m.accepted)
    (hworkers : ∀ i < p.workerNum, Announces m.submitted (m'.worker i)) : Accounted p m' := by
  refine ⟨fun t => ?_, ?_, ?_⟩
  · rw [hplaces, hsubmitted, h.places]
  · rw [haccepted, hsubmitted]
    exact h.accepted
  · rw [hsubmitted]
    exact hworkers

/-- A worker goes on. -/
lemma Accounted.workers_setWorker (h : Accounted p m) {i : ℕ} {w : Worker}
    (hw : Announces m.submitted w) :
    ∀ j < p.workerNum, Announces m.submitted (Function.update m.worker i w j) := by
  intro j hj
  by_cases hji : j = i
  · rw [hji, Function.update_self]
    exact hw
  · rw [Function.update_of_ne hji]
    exact h.workers j hj

/-- A new task has been put into one of the queues. -/
lemma Accounted.push (h : Accounted p m)
    (hplaces : ∀ t, StealPool.places p m' t =
      StealPool.places p m t + if t = m.submitted then 1 else 0)
    (hsubmitted : m'.submitted = m.submitted) (haccepted : m'.accepted = m.accepted)
    (hworker : m'.worker = m.worker) : Accounted p m'.count := by
  refine ⟨fun t => ?_, fun t ht => ?_, fun i hi u t heq => ?_⟩
  · show StealPool.places p m' t = if t < m'.submitted + 1 then 1 else 0
    rw [hplaces, h.places, hsubmitted]
    split <;> split <;> split <;> omega
  · show t < m'.submitted + 1
    rw [hsubmitted]
    exact (h.accepted t (haccepted ▸ ht)).trans (Nat.lt_succ_self _)
  · show t < m'.submitted + 1
    rw [hsubmitted]
    refine (h.workers i hi u t ?_).trans (Nat.lt_succ_self _)
    rw [← hworker]
    exact heq

/-- A call of `submit` returns. -/
lemma Accounted.accept (h : Accounted p m) {t : ℕ} (ht : t < m.submitted) :
    Accounted p (m.accept t) := by
  refine ⟨h.places, fun u hu => ?_, h.workers⟩
  rcases List.mem_append.1 hu with hu | hu
  · exact h.accepted u hu
  · rw [List.mem_singleton.1 hu]
    exact ht

/-- A worker is woken. -/
lemma Accounted.notifyOne (h : Accounted p m) {w : Option ℕ}
    (hm : StealPool.notifyOne p m w = some m') :
    Accounted p m' ∧ m'.submitted = m.submitted ∧ m'.done = m.done ∧ m'.executed = m.executed := by
  rcases notifyOne_cases hm with ⟨j, hj, hasleep, rfl⟩ | ⟨-, rfl⟩
  · refine ⟨h.same (fun t => ?_) rfl rfl (h.workers_setWorker nofun), rfl, rfl, rfl⟩
    have := places_setWorker (m := m) hj .woken t
    rw [hasleep] at this
    exact this
  · exact ⟨h, rfl, rfl, rfl⟩

/-- A queue in which no task has come or gone. -/
lemma places_setQueue_same (i : ℕ) {items : List (Option ℕ)} {t : ℕ}
    (hcount : i < p.workerNum → items.count (some t) = (m.queue i).count (some t)) :
    places p (m.setQueue i items) t = places p m t := by
  have hqueued : queued p (m.setQueue i items) t = queued p m t := by
    refine Finset.sum_congr rfl fun j hj => ?_
    show (Function.update m.queue i items j).count (some t) = _
    by_cases hji : j = i
    · rw [hji, Function.update_self, hcount (hji ▸ Finset.mem_range.1 hj)]
    · rw [Function.update_of_ne hji]
  show m.master.count (some t) + queued p (m.setQueue i items) t + atWork p m t +
    m.executed.count t = _
  rw [hqueued]
  rfl

/-- A list without tasks. -/
lemma count_eq_zero {items : List (Option ℕ)} (h : ∀ item ∈ items, item = none) (t : ℕ) :
    items.count (some t) = 0 :=
  List.count_eq_zero.2 fun hmem => Option.some_ne_none t (h _ hmem)

/-! ## One step of a call -/

/-- A step of the first part of `stop` and `join`. -/
lemma Accounted.fill (h : Accounted p m) (x : Fill) : Accounted p (x.run p m) := by
  cases x with
  | setFlag i =>
    obtain ⟨flag, hflag⟩ := setFlag_eq p m i
    rw [Fill.run, hflag]
    exact h.same (fun _ => rfl) rfl rfl h.workers
  | pushFront i =>
    exact h.same (fun t => places_setQueue_same i fun _ => by simp) rfl rfl h.workers
  | push =>
    refine h.same (fun t => ?_) rfl rfl h.workers
    have := places_setMaster (p := p) (m := m) (m.master ++ [none]) t
    rw [List.count_append, List.count_singleton] at this
    simp only [beq_iff_eq, reduceCtorEq, if_false] at this
    show StealPool.places p (m.setMaster (m.master ++ [none])) t = _
    omega

/-- A step of the last part of `stop` and `join`, in a pool whose queues hold no task. -/
lemma Accounted.finish (h : Accounted p m) (hempty : Empty p m) (x : Finish) :
    Accounted p (x.run m) := by
  cases x with
  | setDone => exact h.same (fun _ => rfl) rfl rfl h.workers
  | clearMaster =>
    refine h.same (fun t => ?_) rfl rfl h.workers
    have := places_setMaster (p := p) (m := m) [] t
    rw [count_eq_zero hempty.1, List.count_nil] at this
    exact this
  | clear i =>
    refine h.same (fun t => places_setQueue_same i fun hi => ?_) rfl rfl h.workers
    rw [count_eq_zero (hempty.2 i hi).1, List.count_nil]

/-- All workers that were blocked are woken.

**Proof sketch.** Only workers that were asleep become woken, and neither of the two has a task. -/
lemma Accounted.wakeAll (h : Accounted p m) : Accounted p (Memory.wakeAll p m) := by
  have hwoken : ∀ i, (Memory.wakeAll p m).worker i = m.worker i ∨
      m.worker i = .asleep ∧ (Memory.wakeAll p m).worker i = .woken := by
    intro i
    show (if _ then _ else _ : Worker) = _ ∨ _ ∧ (if _ then _ else _ : Worker) = _
    split
    · rename_i hi
      exact .inr ⟨hi.2, rfl⟩
    · exact .inl rfl
  refine h.same (fun t => ?_) rfl rfl fun i hi => ?_
  · have hatWork : atWork p (Memory.wakeAll p m) t = atWork p m t := by
      refine Finset.sum_congr rfl fun i _ => ?_
      rcases hwoken i with heq | ⟨hasleep, heq⟩
      · rw [heq]
      · rw [heq, hasleep]
        rfl
    show m.master.count (some t) + queued p m t + atWork p (Memory.wakeAll p m) t +
      m.executed.count t = _
    rw [hatWork]
    rfl
  · rcases hwoken i with heq | ⟨-, heq⟩
    · rw [heq]
      exact h.workers i hi
    · rw [heq]
      exact nofun

/-- When no task is in a queue or with a worker, all tasks have been executed. -/
lemma Accounted.mem_executed (h : Accounted p m) (hempty : Empty p m) (hidle : Idle p m) {t : ℕ}
    (ht : t < m.submitted) : t ∈ m.executed := by
  have hqueued : queued p m t = 0 :=
    Finset.sum_eq_zero fun i hi => count_eq_zero (hempty.2 i (Finset.mem_range.1 hi)).1 t
  have hatWork : atWork p m t = 0 := by
    refine Finset.sum_eq_zero fun i hi => ?_
    have hnot := hidle i (Finset.mem_range.1 hi)
    cases hworker : m.worker i with
    | running u c =>
      rw [hworker] at hnot
      cases hnot
    | _ => rfl
  have hplaces := h.places t
  rw [if_pos ht, StealPool.places, count_eq_zero hempty.1, hqueued, hatWork] at hplaces
  exact List.count_pos_iff.1 (by omega)

/-- Workers that have exited execute nothing. -/
lemma idle_of_exited (h : ∀ i < p.workerNum, m.worker i = .exited) : Idle p m := by
  intro i hi
  rw [h i hi]
  rfl

/-- A step of `submit` from outside.

**Proof sketch.** One case for each stage of the call. The task is new until it is pushed to the
master queue, where it is at one place; the number of tasks grows when a worker is notified of
it. -/
lemma Accounted.submits (h : Accounted p m) {w : Option ℕ} {c : Submit} {c' : Option Submit}
    (hkept : Kept m (.submit c)) (hs : Submits p m none w c m' c') :
    Accounted p m' ∧ Kept m' (afterSubmit c') ∧ Keeps m m' := by
  have hrefl : Keeps m m := ⟨id, le_rfl, fun _ => id⟩
  cases hs with
  | flag hs' =>
    refine ⟨h, ?_, hrefl⟩
    rcases hs' with rfl | rfl <;> trivial
  | throws => exact ⟨h, trivial, hrefl⟩
  | goOn => exact ⟨h, trivial, hrefl⟩
  | route hs' =>
    refine ⟨h, ?_, hrefl⟩
    rcases hs' with rfl | rfl <;> trivial
  | pushFront hwho => cases hwho
  | push =>
    refine ⟨h.push (fun t => ?_) rfl rfl rfl, Nat.lt_succ_self _, id, Nat.le_succ _, fun _ => id⟩
    have := places_setMaster (p := p) (m := m) (m.master ++ [some m.submitted]) t
    rw [List.count_append, List.count_singleton] at this
    simp only [beq_iff_eq, Option.some.injEq] at this
    simp only [eq_comm (a := t)]
    omega
  | @notify m₁ t hm =>
    obtain ⟨haccounted, hsubmitted, hdone, hexecuted⟩ := h.notifyOne hm
    refine ⟨haccounted.accept (hsubmitted ▸ hkept), trivial, ?_, hsubmitted.ge, fun u hu => ?_⟩
    · exact fun hd => hdone.trans hd
    · show u ∈ m₁.executed
      rw [hexecuted]
      exact hu

/-- The steps of the first part of `stop` and `join` submit and run no task. -/
lemma Fill.run_same (x : Fill) (p : Pool) (m : Memory) : (x.run p m).done = m.done ∧
    (x.run p m).submitted = m.submitted ∧ (x.run p m).executed = m.executed := by
  cases x with
  | setFlag k =>
    obtain ⟨flag, hflag⟩ := setFlag_eq p m k
    rw [Fill.run, hflag]
    exact ⟨rfl, rfl, rfl⟩
  | _ => exact ⟨rfl, rfl, rfl⟩

/-- One step of a call that meets the condition.

**Proof sketch.** One case for each action. The calls of `stop` and `join` push null tasks only
and, when no task is left, clear queues that have none; a second `join` of a pool that is done
finds everything executed by the condition. -/
theorem act_accounted {s : State Memory Stage} {i : ℕ} {l l' : Stage} {a : Action} {m' : Memory}
    (hu : p.untilEmpty = true) (h : Accounted p s.shared) (hclosed : Closed p s)
    (hknows : Knows p s.shared l) (hkept : Kept s.shared l) (hC : Orderly p s (.act i a))
    (hl : s.threads[i]? = some l) (ha : act p s.shared l a = some (m', l')) :
    Accounted p m' ∧ Kept m' l' ∧ Keeps s.shared m' := by
  have hrefl : Keeps s.shared s.shared := ⟨id, le_rfl, fun _ => id⟩
  have hset : Accounted p s.shared.setDone ∧ Keeps s.shared s.shared.setDone :=
    ⟨h.same (fun _ => rfl) rfl rfl h.workers, fun _ => rfl, le_rfl, fun _ => id⟩
  cases acts_of_act ha with
  | callSubmit =>
    refine ⟨h, ?_, hrefl⟩
    cases p.kind <;> trivial
  | callStop | callJoin | stopAgain | stopTest | join => exact ⟨h, trivial, hrefl⟩
  | submit hs => exact h.submits hkept hs
  | stop | stopMark | joinMark => exact ⟨hset.1, rfl, hset.2⟩
  | joinAgain hd w =>
    have hidle : Idle p s.shared := hC _ hl hd
    exact ⟨h, fun t ht => h.mem_executed (hclosed hd).1 hidle (h.accepted t ht), hrefl⟩
  | hurry hnot w => exact absurd (hnot.symm.trans hu) Bool.false_ne_true
  | poll hl' w =>
    refine ⟨h, ?_, hrefl⟩
    rcases hl' with rfl | rfl <;> trivial
  | pollQueue k hl' w =>
    refine ⟨h, ?_, hrefl⟩
    rcases hl' with rfl | rfl | rfl <;> trivial
  | fill how x todo w =>
    obtain ⟨hdone, hsubmitted, hexecuted⟩ := x.run_same p s.shared
    refine ⟨h.fill x, hdone.trans hkept, fun hd => hdone.trans hd, hsubmitted.ge, ?_⟩
    rw [hexecuted]
    exact fun _ => id
  | filled how w => exact ⟨h, hkept, hrefl⟩
  | notifyAll how w => exact ⟨h.wakeAll, hkept, id, le_rfl, fun _ => id⟩
  | skip how hj w => exact ⟨h, hkept, hrefl⟩
  | await how hw w =>
    exact ⟨h.same (fun _ => rfl) rfl rfl h.workers, hkept, id, le_rfl, fun _ => id⟩
  | awaited how hi w => exact ⟨h, hkept, hrefl⟩
  | finish how x todo w =>
    refine ⟨h.finish (hclosed hkept).1 x, ?_, fun hd => ?_, ?_, fun t ht => ?_⟩
    · cases x with
      | setDone => rfl
      | _ => exact hkept
    · cases x with
      | setDone => rfl
      | _ => exact hd
    · cases x <;> exact le_rfl
    · cases x <;> exact ht
  | finished how w =>
    refine ⟨h, ?_, hrefl⟩
    cases how with
    | stop => trivial
    | join =>
      exact fun t ht =>
        h.mem_executed (hclosed hkept).1 (idle_of_exited hknows) (h.accepted t ht)

/-! ## One step of the workers -/

/-- A worker takes the first item of a queue, which is counted there no more. -/
lemma Accounted.pop (h : Accounted p m) {i : ℕ} (hi : i < p.workerNum) {item : Option ℕ}
    (hold : ∀ t, (m.worker i).holds t = 0) (hworker : m'.worker = m.worker)
    (hplaces : ∀ t, StealPool.places p m' t + (if item = some t then 1 else 0) =
      StealPool.places p m t)
    (hsubmitted : m'.submitted = m.submitted) (haccepted : m'.accepted = m.accepted) :
    Accounted p (m'.setWorker i (afterPop item)) := by
  refine h.same (fun t => ?_) hsubmitted haccepted ?_
  · have hset := places_setWorker (m := m') hi (afterPop item) t
    rw [hworker, hold t, holds_afterPop] at hset
    have := hplaces t
    omega
  · show ∀ j < p.workerNum, Announces _ (Function.update m'.worker i _ j)
    rw [hworker]
    refine h.workers_setWorker ?_
    cases item <;> exact nofun

/-- A worker goes on without a task. -/
lemma Accounted.setWorker (h : Accounted p m) {i : ℕ} (hi : i < p.workerNum) {w : Worker}
    (hplaces : ∀ t, StealPool.places p m' t = StealPool.places p m t)
    (hworker : m'.worker = m.worker) (hholds : ∀ t, w.holds t = (m.worker i).holds t)
    (hsubmitted : m'.submitted = m.submitted) (haccepted : m'.accepted = m.accepted)
    (hw : Announces m.submitted w) : Accounted p (m'.setWorker i w) := by
  refine h.same (fun t => ?_) hsubmitted haccepted ?_
  · have hset := places_setWorker (m := m') hi w t
    rw [hworker, hholds, hplaces] at hset
    omega
  · show ∀ j < p.workerNum, Announces _ (Function.update m'.worker i _ j)
    rw [hworker]
    exact h.workers_setWorker hw

/-- A worker in a call of `submit` announces no task before it pushed one. -/
lemma announces_running {n u : ℕ} {c : Option Submit} (h : ∀ t, c ≠ some (.notify t)) :
    Announces n (.running u c) := by
  intro v t heq
  injection heq with _ hc
  exact absurd hc (h t)

/-- A step of `submit` in a task.

**Proof sketch.** As for a call from outside, but that the task may go to the front of the queue of
the worker itself, which keeps the task that it is running. -/
lemma Accounted.worker_submits (h : Accounted p m) {i u : ℕ} (hi : i < p.workerNum)
    {w : Option ℕ} {c : Submit} {c' : Option Submit} (hold : m.worker i = .running u (some c))
    (hs : Submits p m (some i) w c m' c') : Accounted p (m'.setWorker i (.running u c')) := by
  have hholds (c' : Option Submit) (t : ℕ) :
      (Worker.running u c').holds t = (m.worker i).holds t := by
    rw [hold]
    rfl
  cases hs with
  | flag hs' =>
    refine h.setWorker hi (fun _ => rfl) rfl (hholds _) rfl rfl ?_
    rcases hs' with rfl | rfl <;> exact announces_running (by simp)
  | throws =>
    exact h.setWorker hi (fun _ => rfl) rfl (hholds _) rfl rfl (announces_running (by simp))
  | goOn =>
    refine h.setWorker hi (fun _ => rfl) rfl (hholds _) rfl rfl ?_
    unfold route
    split
    · exact announces_running (by simp)
    · split <;> exact announces_running (by simp)
  | route hs' =>
    refine h.setWorker hi (fun _ => rfl) rfl (hholds _) rfl rfl ?_
    rcases hs' with rfl | rfl <;> exact announces_running (by simp)
  | pushFront hwho =>
    cases hwho
    have hpush : Accounted p (m.setQueue i (some m.submitted :: m.queue i)).count := by
      refine h.push (fun t => ?_) rfl rfl rfl
      have := places_setQueue (m := m) hi (some m.submitted :: m.queue i) t
      rw [List.count_cons] at this
      simp only [beq_iff_eq, Option.some.injEq] at this
      simp only [eq_comm (a := t)]
      omega
    exact (hpush.accept (Nat.lt_succ_self _)).setWorker hi (fun _ => rfl) rfl (hholds _) rfl rfl
      (announces_running (by simp))
  | push =>
    have hpush : Accounted p (m.setMaster (m.master ++ [some m.submitted])).count := by
      refine h.push (fun t => ?_) rfl rfl rfl
      have := places_setMaster (p := p) (m := m) (m.master ++ [some m.submitted]) t
      rw [List.count_append, List.count_singleton] at this
      simp only [beq_iff_eq, Option.some.injEq] at this
      simp only [eq_comm (a := t)]
      omega
    refine hpush.setWorker hi (fun _ => rfl) rfl (hholds _) rfl rfl ?_
    intro v t heq
    cases heq
    exact Nat.lt_succ_self _
  | @notify m₁ t hm =>
    obtain ⟨haccounted, hsubmitted, -, -⟩ := h.notifyOne hm
    have ht : t < m₁.submitted := hsubmitted ▸ h.workers i hi u t hold
    have hworker : m₁.worker i = m.worker i := by
      rcases notifyOne_cases hm with ⟨j, -, hj, rfl⟩ | ⟨-, rfl⟩
      · have hij : i ≠ j := by
          rintro rfl
          rw [hold] at hj
          cases hj
        exact Function.update_of_ne hij ..
      · rfl
    refine (haccounted.accept ht).setWorker hi (fun _ => rfl) rfl (fun v => ?_) rfl rfl
      (announces_running (by simp))
    show _ = (m₁.worker i).holds v
    rw [hworker]
    exact hholds _ v

/-- A worker without a task goes on without one. -/
lemma Accounted.setIdle (h : Accounted p m) {i : ℕ} (hi : i < p.workerNum) {v w : Worker}
    (hold : m.worker i = v) (hv : ∀ t, v.holds t = 0) (hw : ∀ t, w.holds t = 0)
    (hannounces : Announces m.submitted w) (hplaces : ∀ t, StealPool.places p m' t =
      StealPool.places p m t) (hworker : m'.worker = m.worker)
    (hsubmitted : m'.submitted = m.submitted) (haccepted : m'.accepted = m.accepted) :
    Accounted p (m'.setWorker i w) :=
  h.setWorker hi hplaces hworker (fun t => by rw [hw, hold, hv]) hsubmitted haccepted hannounces

/-- A worker takes the last task of the queue of another one. -/
lemma Accounted.steal (h : Accounted p m) {i k u : ℕ} (hi : i < p.workerNum)
    (hold : m.worker i = .stealFrom k)
    (hq : (m.queue (position p i k)).getLast? = some (some u)) :
    Accounted p ((m.setQueue (position p i k) (m.queue (position p i k)).dropLast).setWorker i
      (afterPop (some u))) := by
  refine h.pop hi (fun t => by rw [hold]; rfl) rfl (fun t => ?_) rfl rfl
  have hlt : position p i k < p.workerNum := Nat.mod_lt _ (by omega)
  have hcount : (m.queue (position p i k)).count (some t) =
      (m.queue (position p i k)).dropLast.count (some t) + if some u = some t then 1 else 0 := by
    have hsplit := List.dropLast_append_getLast? (some u) hq
    rw [← hsplit, List.dropLast_concat, List.count_append, List.count_singleton]
    simp only [beq_iff_eq]
  have := places_setQueue (m := m) hlt (m.queue (position p i k)).dropLast t
  omega

/-- A worker has run its task. -/
lemma Accounted.execute (h : Accounted p m) {i u : ℕ} (hi : i < p.workerNum)
    (hold : m.worker i = .running u none) : Accounted p ((m.execute u).setWorker i .top) := by
  refine h.same (fun t => ?_) rfl rfl (h.workers_setWorker nofun)
  have hset := places_setWorker (m := m.execute u) hi .top t
  have hheld : ((m.execute u).worker i).holds t = if u = t then 1 else 0 := by
    show (m.worker i).holds t = _
    rw [hold]
    rfl
  have hexecute : StealPool.places p (m.execute u) t =
      StealPool.places p m t + if u = t then 1 else 0 := by
    show _ + (m.executed ++ [u]).count t = _
    rw [List.count_append, List.count_singleton]
    simp only [beq_iff_eq, ← Nat.add_assoc]
    rfl
  have hnone : Worker.top.holds t = 0 := rfl
  omega

/-- A worker that looks for a task holds none and announces none. -/
lemma holds_of_looks {v : Worker} (hv : v.looks = true) :
    (∀ t, v.holds t = 0) ∧ ∀ n, Announces n v := by
  cases v with
  | running => cases hv
  | _ => exact ⟨fun _ => rfl, fun _ => nofun⟩

/-- One step of the workers.

**Proof sketch.** One case for each step of a worker. A task that is popped or stolen moves from
the queue to the worker, and one that is executed from the worker to those that were; all other
steps move none. -/
theorem tick_accounted {e : Tick} (h : Accounted p m) (he : tick p m e = some m') :
    Accounted p m' := by
  have hnone (v : Worker) (hv : ∀ t, v.holds t = 0) {i : ℕ} (hold : m.worker i = v) (t : ℕ) :
      (m.worker i).holds t = 0 := hold ▸ hv t
  cases ticks_of_tick he with
  | submit hi hold =>
    refine h.setWorker hi (fun _ => rfl) rfl (fun t => ?_) rfl rfl ?_
    · rw [hold]
      rfl
    · cases p.kind <;> exact nofun
  | spurious hi hold =>
    exact h.setIdle hi hold (fun _ => rfl) (fun _ => rfl) nofun (fun _ => rfl) rfl rfl rfl
  | @work i w _ hw =>
    cases hw with
    | @move v hi hold hv =>
      obtain ⟨hholds, hannounces⟩ : (∀ t, v.holds t = 0) ∧ ∀ n, Announces n v := by
        rcases hv with hv | rfl | rfl
        · exact holds_of_looks hv
        · exact ⟨fun _ => rfl, fun _ => nofun⟩
        · exact ⟨fun _ => rfl, fun _ => nofun⟩
      exact h.setIdle hi rfl (holds_of_looks hold).1 hholds (hannounces _) (fun _ => rfl) rfl rfl
        rfl
    | @popLocal item rest hi hold hq =>
      refine h.pop hi (hnone _ (fun _ => rfl) hold) rfl (fun t => ?_) rfl rfl
      have := places_setQueue (m := m) hi rest t
      rw [hq, List.count_cons] at this
      simp only [beq_iff_eq] at this
      omega
    | @popMaster item rest hi hold hq =>
      refine h.pop hi (hnone _ (fun _ => rfl) hold) rfl (fun t => ?_) rfl rfl
      have := places_setMaster (p := p) (m := m) rest t
      rw [hq, List.count_cons] at this
      simp only [beq_iff_eq] at this
      omega
    | stolen hi hold hq => exact h.steal hi hold hq
    | lock hi hold hl =>
      rcases hold with hold | hold
      · exact h.setIdle hi hold (fun _ => rfl) (fun _ => rfl) nofun (fun _ => rfl) rfl rfl rfl
      · exact h.setIdle hi hold (fun _ => rfl) (fun _ => rfl) nofun (fun _ => rfl) rfl rfl rfl
    | goOn hi hold hready =>
      exact h.setIdle hi hold (fun _ => rfl) (fun _ => rfl) nofun (fun _ => rfl) rfl rfl rfl
    | block hi hold hready =>
      exact h.setIdle hi hold (fun _ => rfl) (fun _ => rfl) nofun (fun _ => rfl) rfl rfl rfl
    | sleep hi hold =>
      exact h.setIdle hi hold (fun _ => rfl) (fun _ => rfl) nofun (fun _ => rfl) rfl rfl rfl
    | execute hi hold => exact h.execute hi hold
    | ending hi hold =>
      obtain ⟨flag, hflag⟩ := setFlag_eq p m i
      rw [hflag]
      exact h.setIdle hi hold (fun _ => rfl) (fun _ => rfl) nofun (fun _ => rfl) rfl rfl rfl
    | submit hi hold hs => exact h.worker_submits hi hold hs

/-- What the workers do not take away.

**Proof sketch.** One case for each step of a worker. -/
lemma tick_keeps {e : Tick} (he : tick p m e = some m') : m'.done = m.done ∧ Keeps m m' := by
  suffices h : m'.done = m.done ∧ m.submitted ≤ m'.submitted ∧
      ∀ t ∈ m.executed, t ∈ m'.executed from
    ⟨h.1, fun hd => h.1.trans hd, h.2.1, h.2.2⟩
  cases ticks_of_tick he with
  | submit | spurious => exact ⟨rfl, le_rfl, fun _ => id⟩
  | @work i w _ hw =>
    cases hw with
    | move | popLocal | popMaster | stolen | lock | goOn | block | sleep =>
      exact ⟨rfl, le_rfl, fun _ => id⟩
    | execute => exact ⟨rfl, le_rfl, fun _ => List.mem_append_left _⟩
    | ending =>
      obtain ⟨flag, hflag⟩ := setFlag_eq p m i
      rw [hflag]
      exact ⟨rfl, le_rfl, fun _ => id⟩
    | submit hi hold hs =>
      cases hs with
      | flag | throws | goOn | route => exact ⟨rfl, le_rfl, fun _ => id⟩
      | pushFront | push => exact ⟨rfl, Nat.le_succ _, fun _ => id⟩
      | notify t hm =>
        rcases notifyOne_cases hm with ⟨j, -, -, rfl⟩ | ⟨-, rfl⟩ <;>
          exact ⟨rfl, le_rfl, fun _ => id⟩

/-! ## A pool that is done -/

/-- Fewer items in the queues, and a worker that does not pass. -/
lemma Empty.setWorker (h : Empty p m) {i : ℕ} {v : Worker}
    (hmaster : ∀ item ∈ m'.master, item ∈ m.master)
    (hqueue : ∀ k, ∀ item ∈ m'.queue k, item ∈ m.queue k) (hworker : m'.worker = m.worker)
    (hv : v.passing = false) : Empty p (m'.setWorker i v) := by
  refine ⟨fun item hitem => h.1 item (hmaster item hitem), fun k hk => ⟨?_, ?_⟩⟩
  · exact fun item hitem => (h.2 k hk).1 item (hqueue k item hitem)
  · show (Function.update m'.worker i v k).passing = false
    by_cases hki : k = i
    · rw [hki, Function.update_self, hv]
    · rw [Function.update_of_ne hki, hworker]
      exact (h.2 k hk).2

/-- A queue whose items are replaced. -/
lemma mem_setQueue {i k : ℕ} {items : List (Option ℕ)} {item : Option ℕ}
    (hsub : ∀ x ∈ items, x ∈ m.queue i) (hitem : item ∈ (m.setQueue i items).queue k) :
    item ∈ m.queue k := by
  by_cases hki : k = i
  · subst hki
    have hqueue : (m.setQueue k items).queue k = items := Function.update_self ..
    rw [hqueue] at hitem
    exact hsub item hitem
  · have hqueue : (m.setQueue i items).queue k = m.queue k := Function.update_of_ne hki ..
    rwa [hqueue] at hitem

/-- `notify_one` moves no task. -/
lemma Empty.notifyOne (h : Empty p m) {w : Option ℕ} (hm : StealPool.notifyOne p m w = some m') :
    Empty p m' := by
  rcases notifyOne_cases hm with ⟨j, -, -, rfl⟩ | ⟨-, rfl⟩
  · exact h.setWorker (fun _ => id) (fun _ _ => id) rfl rfl
  · exact h

/-- A step of the workers of a pool that is done puts no task into a queue.

**Proof sketch.** One case for each step. Workers push only in tasks that submit, and in a pool
that is done `submit` throws. -/
lemma Empty.tick {e : Tick} (h : Empty p m) (hd : m.done = true)
    (he : StealPool.tick p m e = some m') : Empty p m' := by
  cases ticks_of_tick he with
  | submit hi hold =>
    refine h.setWorker (fun _ => id) (fun _ _ => id) rfl ?_
    cases p.kind <;> rfl
  | spurious hi hold => exact h.setWorker (fun _ => id) (fun _ _ => id) rfl rfl
  | @work i w _ hw =>
    cases hw with
    | @move v hi hold hv =>
      refine h.setWorker (fun _ => id) (fun _ _ => id) rfl ?_
      rcases hv with hv | rfl | rfl
      · cases v with
        | running => cases hv
        | _ => rfl
      · rfl
      · rfl
    | @popLocal item rest hi hold hq =>
      refine h.setWorker (fun _ => id) (fun k x => mem_setQueue fun y hy => ?_) rfl ?_
      · rw [hq]
        exact List.mem_cons_of_mem _ hy
      · cases item <;> rfl
    | @popMaster item rest hi hold hq =>
      refine h.setWorker (fun x hx => ?_) (fun _ _ => id) rfl ?_
      · rw [hq]
        exact List.mem_cons_of_mem _ hx
      · cases item <;> rfl
    | stolen hi hold hq =>
      exact h.setWorker (fun _ => id)
        (fun k x => mem_setQueue fun y hy => List.mem_of_mem_dropLast hy) rfl rfl
    | lock | goOn | block | sleep | execute =>
      exact h.setWorker (fun _ => id) (fun _ _ => id) rfl rfl
    | ending =>
      obtain ⟨flag, hflag⟩ := setFlag_eq p m i
      rw [hflag]
      exact h.setWorker (fun _ => id) (fun _ _ => id) rfl rfl
    | @submit t c m₁ c' hi hold hs =>
      have hpassing : c.passing = false := by
        have := (h.2 i hi).2
        rwa [hold] at this
      cases hs with
      | flag hs' =>
        refine h.setWorker (fun _ => id) (fun _ _ => id) rfl ?_
        rcases hs' with rfl | rfl <;> rfl
      | throws => exact h.setWorker (fun _ => id) (fun _ _ => id) rfl rfl
      | goOn hnot => exact absurd (hnot.symm.trans hd) Bool.false_ne_true
      | route | pushFront | push => cases hpassing
      | notify u hm => exact (h.notifyOne hm).setWorker (fun _ => id) (fun _ _ => id) rfl rfl

/-- The first part of `stop` and `join` puts only null tasks into the queues.

**Proof sketch.** The flags are set, and what is pushed are null tasks. -/
lemma Empty.fill (h : Empty p m) (x : Fill) : Empty p (x.run p m) := by
  cases x with
  | setFlag k =>
    obtain ⟨flag, hflag⟩ := setFlag_eq p m k
    rw [Fill.run, hflag]
    exact h
  | pushFront k =>
    refine ⟨h.1, fun j hj => ⟨fun item hitem => ?_, (h.2 j hj).2⟩⟩
    by_cases hjk : j = k
    · subst hjk
      have hqueue : (m.setQueue j (none :: m.queue j)).queue j = none :: m.queue j :=
        Function.update_self ..
      rw [Fill.run, hqueue] at hitem
      rcases List.mem_cons.1 hitem with rfl | hitem
      · rfl
      · exact (h.2 j hj).1 item hitem
    · have hqueue : (m.setQueue k (none :: m.queue k)).queue j = m.queue j :=
        Function.update_of_ne hjk ..
      rw [Fill.run, hqueue] at hitem
      exact (h.2 j hj).1 item hitem
  | push =>
    refine ⟨fun item hitem => ?_, h.2⟩
    rcases List.mem_append.1 hitem with hitem | hitem
    · exact h.1 item hitem
    · exact List.mem_singleton.1 hitem

/-- The last part of `stop` and `join` clears the queues. -/
lemma Empty.finish (h : Empty p m) (x : Finish) : Empty p (x.run m) := by
  cases x with
  | setDone => exact h
  | clearMaster => exact ⟨List.forall_mem_nil _, h.2⟩
  | clear k =>
    refine ⟨h.1, fun j hj => ⟨fun item hitem => ?_, (h.2 j hj).2⟩⟩
    exact (h.2 j hj).1 item (mem_setQueue (fun x hx => by cases hx) hitem)

/-- A step of a call that does not pass, in a pool that is done or that the call ends, puts no task
into a queue.

**Proof sketch.** One case for each action. A call of `submit` that has passed the test of the flag
would push; one that has not finds the pool done and throws, and all others push null tasks at
most. -/
lemma Empty.act {l l' : Stage} {a : Action} (h : Empty p m) (hl : l.passing = false)
    (hd : m.done = true ∨ ∀ s, l ≠ .submit s) (ha : StealPool.act p m l a = some (m', l')) :
    Empty p m' ∧ l'.passing = false := by
  cases acts_of_act ha with
  | callSubmit =>
    refine ⟨h, ?_⟩
    cases p.kind <;> rfl
  | callStop | callJoin | stopAgain | stopTest | joinAgain | join | hurry | filled | skip
  | awaited | stop | stopMark | joinMark | await => exact ⟨h, rfl⟩
  | @submit c w _ c' hs =>
    replace hd := hd.resolve_right fun hnot => hnot _ rfl
    cases hs with
    | flag hs' =>
      refine ⟨h, ?_⟩
      rcases hs' with rfl | rfl <;> rfl
    | throws => exact ⟨h, rfl⟩
    | goOn hnot => exact absurd (hnot.symm.trans hd) Bool.false_ne_true
    | route | pushFront | push => cases hl
    | notify u hm =>
      have hempty := h.notifyOne hm
      exact ⟨hempty, rfl⟩
  | poll hl' w =>
    refine ⟨h, ?_⟩
    rcases hl' with rfl | rfl <;> rfl
  | pollQueue k hl' w =>
    refine ⟨h, ?_⟩
    rcases hl' with rfl | rfl | rfl <;> rfl
  | fill how x todo w => exact ⟨h.fill x, rfl⟩
  | notifyAll how w =>
    refine ⟨⟨h.1, fun k hk => ⟨(h.2 k hk).1, ?_⟩⟩, rfl⟩
    show (if _ then _ else _ : Worker).passing = false
    split
    · rfl
    · exact (h.2 k hk).2
  | finish how x todo w => exact ⟨h.finish x, rfl⟩
  | finished how w =>
    refine ⟨h, ?_⟩
    cases how <;> rfl

/-- A call other than those of `submit` sets `m_done` only when the pool is settled.

**Proof sketch.** One case for each step of a call. Those that set `m_done` come behind the
condition on the order of calls; after them it stays set. -/
lemma settled_of_act {s : State Memory Stage} {i : ℕ} {l l' : Stage} {a : Action}
    (hclosed : Closed p s) (hkept : Kept s.shared l) (hC : Orderly p s (.act i a))
    (hl : s.threads[i]? = some l) (ha : act p s.shared l a = some (m', l'))
    (hd : m'.done = true) :
    Settled p s ∧ (s.shared.done = true ∨ ∀ c, l ≠ .submit c) := by
  by_cases hdone : s.shared.done = true
  · exact ⟨hclosed hdone, .inl hdone⟩
  · cases acts_of_act ha with
    | stop hnot hk w => exact ⟨hC _ hl hk, .inr nofun⟩
    | stopMark | joinMark => exact ⟨hC _ hl, .inr nofun⟩
    | callSubmit | callStop | callJoin | stopAgain | stopTest | joinAgain | join | hurry | filled
    | skip | awaited | await | poll | pollQueue | notifyAll | finished => exact absurd hd hdone
    | fill | finish => exact absurd hkept hdone
    | submit hs =>
      refine absurd ?_ hdone
      cases hs with
      | flag | throws | goOn | route | pushFront | push => exact hd
      | notify u hm => rcases notifyOne_cases hm with ⟨j, -, -, rfl⟩ | ⟨-, rfl⟩ <;> exact hd

/-- One step of the whole that meets the condition leaves a pool that is done settled.

**Proof sketch.** One case for each step. The mark `m_done` is set by a call that has cleared what
there was, or it was set before. -/
theorem step_closed {s t : State Memory Stage} {e : Event Action Tick} (hclosed : Closed p s)
    (hkept : ∀ l ∈ s.threads, Kept s.shared l) (hC : Orderly p s e)
    (hstep : (system p).step s e = some t) : Closed p t := by
  intro hd
  cases Program.steps_of_step hstep with
  | spawn =>
    obtain ⟨hempty, hcalls⟩ := hclosed hd
    refine ⟨hempty, ?_⟩
    rw [List.forall_mem_append, List.forall_mem_singleton]
    exact ⟨hcalls, rfl⟩
  | act hl ha =>
    have hmem := List.mem_of_getElem? hl
    obtain ⟨⟨hempty, hcalls⟩, hcase⟩ := settled_of_act hclosed (hkept _ hmem) hC hl ha hd
    obtain ⟨hempty', hl'⟩ := hempty.act (hcalls _ hmem) hcase ha
    refine ⟨hempty', fun k hk => ?_⟩
    rcases List.mem_or_eq_of_mem_set hk with hk | rfl
    · exact hcalls k hk
    · exact hl'
  | @env e m he =>
    have hdone : s.shared.done = true := (tick_keeps he).1.symm.trans hd
    obtain ⟨hempty, hcalls⟩ := hclosed hdone
    exact ⟨hempty.tick hdone he, hcalls⟩

/-- One step of the whole that meets the condition. -/
theorem step_accounted {s t : State Memory Stage} {e : Event Action Tick}
    (hu : p.untilEmpty = true) (hclosed : Closed p s)
    (hknows : ∀ l ∈ s.threads, Knows p s.shared l)
    (h : Accounted p s.shared ∧ ∀ l ∈ s.threads, Kept s.shared l) (hC : Orderly p s e)
    (hstep : (system p).step s e = some t) :
    Accounted p t.shared ∧ ∀ l ∈ t.threads, Kept t.shared l := by
  refine Program.step_rely (I := Accounted p) (Q := Kept) (R := Keeps) h ?_ ?_ ?_ ?_ hstep
  · trivial
  · rintro i a l m l' rfl hi hkept ha
    exact act_accounted hu h.1 hclosed (hknows l (List.mem_of_getElem? hi)) hkept hC hi ha
  · intro d m _ hd
    exact ⟨tick_accounted h.1 hd, (tick_keeps hd).2⟩
  · exact fun m l hkeeps hl => hkeeps.kept hl

/-- **The tasks of a pool that runs until it is empty.** In every run whose steps meet the
condition, when a call of `join` has returned, each task whose `submit` had returned by then has
been executed exactly once, whether it was submitted from outside or by another task.

**Proof sketch.** Each task that was pushed is at one place: in a queue, with a worker, or executed.
A pool that is done is settled, so that nothing is lost when the queues are cleared; and no worker
holds a task when `join` returns. -/
theorem forest_executed (hu : p.untilEmpty = true) {es : List (Event Action Tick)}
    (hC : (system p).Along (Orderly p) es) :
    (system p).Always (fun s => ∀ ts, .joined ts ∈ s.threads →
      ∀ t ∈ ts, s.shared.executed.count t = 1) es := by
  refine System.always_of_along
    (I := fun s => (Joined s.shared ∧ ∀ l ∈ s.threads, Knows p s.shared l) ∧ Closed p s ∧
      Accounted p s.shared ∧ ∀ l ∈ s.threads, Kept s.shared l) ?_ ?_ ?_ hC
  · refine ⟨⟨fun i hi => ?_, List.forall_mem_nil _⟩, fun hd => ?_, ⟨fun t => ?_, ?_, ?_⟩,
      List.forall_mem_nil _⟩
    · cases hi
    · cases hd
    · show 0 + queued p Memory.init t + atWork p Memory.init t + 0 = if t < 0 then 1 else 0
      simp [queued, atWork, Memory.init, Worker.holds]
    · exact List.forall_mem_nil _
    · exact fun _ _ => nofun
  · rintro s ⟨-, -, haccounted, hkept⟩ ts hts t ht
    have hmem : t ∈ s.shared.executed := hkept _ hts t ht
    have hpos := List.count_pos_iff.2 hmem
    have hplaces := haccounted.places t
    unfold places at hplaces
    split at hplaces <;> omega
  · rintro s e t ⟨hknows, hclosed, haccounted⟩ hC hstep
    exact ⟨step_knows hknows hstep, step_closed hclosed haccounted.2 hC hstep,
      step_accounted hu hclosed hknows.2 haccounted hC hstep⟩

/-- A task submits another one while `join` waits, and `join` finds no task in the queues. -/
def childRun : List (Event Action Tick) :=
  [.spawn, .spawn, .act 0 .submit] ++ steps 0 3 ++ works 0 5 ++ [.act 1 .join] ++ steps 1 2 ++
    [.env (.submit 0)] ++ works 0 11 ++ steps 1 7 ++ works 0 3 ++ steps 1 6

/-- In this run both tasks have been executed when `join` has returned. -/
theorem forest_executed_child : ∃ s, (system (onePool .steal)).run childRun = some s ∧
    .joined [0, 1] ∈ s.threads ∧
    (system (onePool .steal)).Always (fun s => ∀ ts, .joined ts ∈ s.threads →
      ∀ t ∈ ts, s.shared.executed.count t = 1) childRun :=
  ⟨_, rfl, by decide, forest_executed rfl (by decide)⟩

/-- A task submits another one after `join` has found the queues empty, and before it sets
`m_done`. -/
def lateChild : List (Event Action Tick) :=
  [.spawn, .spawn, .act 0 .submit] ++ steps 0 3 ++ works 0 5 ++ [.act 1 .join] ++ steps 1 4 ++
    [.env (.submit 0)] ++ works 0 3 ++ steps 1 5 ++ works 0 2 ++ steps 1 6

/-- In this run `join` has returned and the other task, which was accepted, was not executed. -/
theorem child_lost : ∃ s, (system (onePool .steal)).run lateChild = some s ∧
    s.threads = [.returned, .joined [0, 1]] ∧ s.shared.executed = [0] :=
  ⟨_, rfl, rfl, rfl⟩

end HkuUtils.StealPool
