import HkuUtils.MQStealPool.Stack

set_option relaxedAutoImplicit false
set_option autoImplicit false

/-!
# The tasks of the pool without a master queue

A task is in one queue, with one worker or executed, whoever steals it, until the end of `stop` or
`join` clears the queues. A null task is stolen by nobody, so that each worker which `stop` or
`join` waits for finds its own.

## Main definitions

* `HkuUtils.MQStealPool.places` — at how many places a task is.
* `HkuUtils.MQStealPool.Reached` — a worker that leaves its loop, or finds a null task.

## Main results

* `HkuUtils.MQStealPool.step_places`, `step_reached` — one step.
* `HkuUtils.MQStealPool.tasks_accounted` — **where the tasks are.**
* `HkuUtils.MQStealPool.awaited_not_blocked` — **for which workers `stop` and `join` wait.**
-/

namespace HkuUtils.MQStealPool

open Threads Transition

variable {p : Pool} {m m' : Memory} {s t : State Memory Stage} {es : List (Event Action Tick)}

/-! ## The places of a task -/

/-- How often a worker holds a task. -/
def Worker.holds (k : ℕ) : Worker → ℕ
  | .running u _ => if u = k then 1 else 0
  | _ => 0

/-- At how many places a task is: the queues, the workers and the tasks that were executed. -/
def places (p : Pool) (m : Memory) (k : ℕ) : ℕ :=
  ∑ i ∈ Finset.range p.workerNum, (m.queue i).count (some k) +
    ∑ i ∈ Finset.range p.workerNum, (m.worker i).holds k + m.executed.count k

/-- How often a task is among those that a step has pushed. -/
def new (m m' : Memory) (k : ℕ) : ℕ := if m.submitted ≤ k ∧ k < m'.submitted then 1 else 0

/-- A worker goes on. -/
lemma places_setWorker {i : ℕ} (hi : i < p.workerNum) (w : Worker) (k : ℕ) :
    places p (m.setWorker i w) k + (m.worker i).holds k = places p m k + w.holds k := by
  have hsum := sum_update (fun _ v => v.holds k) m.worker hi w
  simp only [places, Memory.setWorker]
  omega

/-- The queue of a worker changes. -/
lemma places_setQueue {i : ℕ} (hi : i < p.workerNum) (items : List (Option ℕ)) (k : ℕ) :
    places p (m.setQueue i items) k + (m.queue i).count (some k) =
      places p m k + items.count (some k) := by
  have hsum := sum_update (fun _ q => q.count (some k)) m.queue hi items
  simp only [places, Memory.setQueue]
  omega

/-- A queue gets or loses null tasks, whether or not a worker has it. -/
lemma places_setQueue_same (i : ℕ) {items : List (Option ℕ)} {k : ℕ}
    (h : items.count (some k) = (m.queue i).count (some k)) :
    places p (m.setQueue i items) k = places p m k := by
  by_cases hi : i < p.workerNum
  · have := places_setQueue (m := m) hi items k
    omega
  · have hsum := sum_update_of_le (fun _ q => q.count (some k)) m.queue (Nat.le_of_not_lt hi) items
    simp only [places, Memory.setQueue]
    omega

/-- A queue is cleared. -/
lemma places_clear (i k : ℕ) : places p (m.setQueue i []) k ≤ places p m k := by
  by_cases hi : i < p.workerNum
  · have := places_setQueue (m := m) hi [] k
    rw [List.count_nil] at this
    omega
  · have hsum := sum_update_of_le (fun _ q => q.count (some k)) m.queue (Nat.le_of_not_lt hi) []
    simp only [places, Memory.setQueue]
    omega

/-- The item that a worker takes is held by it, if it is a task. -/
lemma holds_afterPop (item : Option ℕ) (k : ℕ) :
    (afterPop item).holds k = if item = some k then 1 else 0 := by
  cases item with
  | none => rfl
  | some u => simp [afterPop, Worker.holds]

/-- A worker that holds nothing takes an item from a queue. -/
lemma places_pop {i q : ℕ} (hi : i < p.workerNum) (hq : q < p.workerNum) {item : Option ℕ}
    {rest : List (Option ℕ)} {k : ℕ} (hold : (m.worker i).holds k = 0)
    (hcount : (m.queue q).count (some k) = rest.count (some k) + if item = some k then 1 else 0) :
    places p (pop m i q item rest) k = places p m k := by
  have hqueue := places_setQueue (m := m) hq rest k
  have hworker := places_setWorker (m := (m.setQueue q rest).take item) hi (afterPop item) k
  have htake : places p ((m.setQueue q rest).take item) k = places p (m.setQueue q rest) k := rfl
  have hsame : ((m.setQueue q rest).take item).worker i = m.worker i := rfl
  rw [hsame, hold, htake, holds_afterPop] at hworker
  rw [pop]
  omega

/-- The task that is stolen was the last item. -/
lemma getLast?_of_trySteal {items : List (Option ℕ)} {u : ℕ} (h : trySteal items = some u) :
    items.getLast? = some (some u) := by
  rw [trySteal] at h
  cases hcase : items.getLast? with
  | none => simp [hcase] at h
  | some item => simpa [hcase] using h

/-- A task is pushed. -/
lemma places_count {q : ℕ} (hq : q < p.workerNum) {items : List (Option ℕ)} (who : Option ℕ) (k : ℕ)
    (hitems : items.count (some k) =
      (m.queue q).count (some k) + if m.submitted = k then 1 else 0) :
    places p ((m.setQueue q items).count who) k =
      places p m k + new m ((m.setQueue q items).count who) k := by
  have hqueue := places_setQueue (m := m) hq items k
  have hcount : places p ((m.setQueue q items).count who) k = places p (m.setQueue q items) k := rfl
  have hnew : new m ((m.setQueue q items).count who) k = if m.submitted = k then 1 else 0 := by
    rw [new]
    congr 1
    simp only [Memory.count, Memory.setQueue, eq_iff_iff]
    omega
  omega

/-- Between two states tasks are pushed, and none is lost. -/
structure Moves (p : Pool) (m m' : Memory) : Prop where
  places : ∀ k, places p m' k = places p m k + new m m' k
  submitted : m.submitted ≤ m'.submitted

/-- Nothing is pushed, and nothing is lost. -/
lemma Moves.of_same (hsubmitted : m'.submitted = m.submitted)
    (hplaces : ∀ k, MQStealPool.places p m' k = MQStealPool.places p m k) : Moves p m m' where
  places k := by
    rw [hplaces, new, hsubmitted, if_neg (by omega), Nat.add_zero]
  submitted := le_of_eq hsubmitted.symm

/-- A step of `submit`. -/
lemma submits_moves {who : Option ℕ} {c : Submit} {c' : Option Submit}
    (hs : Submits p m who c m' c') (hwho : ∀ i ∈ who, i < p.workerNum) : Moves p m m' := by
  cases hs with
  | @pushFront i hi =>
    refine ⟨fun k => places_count (hwho i hi) who k ?_, Nat.le_succ _⟩
    rw [List.count_cons]
    simp
  | push hcurrent =>
    refine ⟨fun k => places_count hcurrent who k ?_, Nat.le_succ _⟩
    rw [List.count_append, List.count_singleton]
    simp
  | _ => exact .of_same rfl fun _ => rfl

/-- A worker that holds nothing goes on without a task. -/
lemma setWorker_moves {i : ℕ} (hi : i < p.workerNum) {w : Worker}
    (hold : ∀ k, (m.worker i).holds k = w.holds k) : Moves p m (m.setWorker i w) := by
  refine .of_same rfl fun k => ?_
  have := places_setWorker (m := m) hi w k
  have := hold k
  omega

/-- A step of a worker.

**Proof sketch.** One case for each step of a worker. What is popped or stolen goes from the queue
to the worker, and what is executed from the worker to those that were. -/
lemma works_moves {i : ℕ} (hw : Works p m i m') : Moves p m m' := by
  cases hw with
  | test hi hold hf | enter hi hold hd => exact setWorker_moves hi fun k => by rw [hold]; rfl
  | leave hi hold =>
    refine setWorker_moves hi fun k => ?_
    rcases hold with hold | hold <;> rw [hold] <;> rfl
  | search hi hold hw =>
    refine setWorker_moves hi fun k => ?_
    rcases hold with hold | ⟨_, hold⟩ <;> rcases hw with rfl | ⟨_, rfl⟩ <;> rw [hold] <;> rfl
  | @pop item rest hi hold hq =>
    refine .of_same rfl fun k => places_pop hi hi ?_ ?_
    · rcases hold with hold | hold <;> rw [hold] <;> rfl
    · rw [hq, List.count_cons]
      simp
  | @stolen j u hi hold hne hq =>
    have hlast := getLast?_of_trySteal hq
    have hposition : position p i j < p.workerNum := Nat.mod_lt _ (Nat.zero_lt_of_lt hi)
    refine .of_same rfl fun k => places_pop hi hposition ?_ ?_
    · rw [hold]
      rfl
    · conv_lhs => rw [← List.dropLast_append_getLast? _ hlast]
      rw [List.count_append, List.count_singleton]
      simp
  | @execute u hi hold =>
    refine .of_same rfl fun k => ?_
    have hworker := places_setWorker (m := m.execute u) hi .top k
    have hsame : ((m.execute u).worker i).holds k = if u = k then 1 else 0 := by
      change (m.worker i).holds k = _
      rw [hold]
      rfl
    have hexecute : places p (m.execute u) k = places p m k + if u = k then 1 else 0 := by
      simp only [places, Memory.execute, List.count_append, List.count_singleton]
      simp
      omega
    have htop : Worker.top.holds k = 0 := rfl
    omega
  | @submit u c m₁ c' hi hold hs =>
    obtain ⟨hplaces, hsubmitted⟩ := submits_moves hs (fun j hj => Option.some.inj hj ▸ hi)
    obtain ⟨hworker, -⟩ := submits_worker hs
    refine ⟨fun k => ?_, hsubmitted⟩
    have hset := places_setWorker (m := m₁) hi (.running u c') k
    rw [hworker, hold] at hset
    have hk := hplaces k
    have hnew : new m (m₁.setWorker i (.running u c')) k = new m m₁ k := rfl
    have hholds : (Worker.running u (some c)).holds k = (Worker.running u c').holds k := rfl
    omega
  | ending hi hold =>
    refine .of_same rfl fun k => ?_
    have hset := places_setWorker (m := m.setFlag i) hi .top k
    have hsame : ((m.setFlag i).worker i).holds k = 0 := by
      change (m.worker i).holds k = 0
      rw [hold]
      rfl
    have hflag : places p (m.setFlag i) k = places p m k := rfl
    have htop : Worker.top.holds k = 0 := rfl
    omega

/-- The end of `stop` or `join`, before a queue is cleared. -/
def Stage.clears : Stage → Bool
  | .finish _ (.clear _ :: _) => true
  | _ => false

/-- The end of `stop` or `join` clears a queue. -/
def clears (s : State Memory Stage) : Event Action Tick → Bool
  | .act i _ => s.threads[i]?.any Stage.clears
  | _ => false

/-- **One step moves the tasks**, if it does not clear a queue, and does not move a task to two
places otherwise.

**Proof sketch.** One case for each step of a call or a worker. A submission puts one new task into
one queue, and only the step that clears a queue takes tasks away without moving them. -/
theorem step_places {e : Event Action Tick} (hstep : (system p).step s e = some t) :
    s.shared.submitted ≤ t.shared.submitted ∧ ∀ k,
      places p t.shared k ≤ places p s.shared k + new s.shared t.shared k ∧ (clears s e = false →
        places p t.shared k = places p s.shared k + new s.shared t.shared k) := by
  have hmoves : Moves p s.shared t.shared → s.shared.submitted ≤ t.shared.submitted ∧ ∀ k,
      places p t.shared k ≤ places p s.shared k + new s.shared t.shared k ∧ (clears s e = false →
        places p t.shared k = places p s.shared k + new s.shared t.shared k) :=
    fun h => ⟨h.submitted, fun k => ⟨le_of_eq (h.places k), fun _ => h.places k⟩⟩
  cases Program.steps_of_step hstep with
  | spawn => exact hmoves (.of_same rfl fun _ => rfl)
  | act hl ha =>
    cases acts_of_act ha with
    | submit hs => exact hmoves (submits_moves hs nofun)
    | fill how x todo =>
      refine hmoves ?_
      change Moves p s.shared (x.run s.shared)
      rcases fill_eq (m := s.shared) x with hx | ⟨i, hx⟩
      · rw [hx]
        exact .of_same rfl fun _ => rfl
      · rw [hx]
        refine .of_same rfl fun k => places_setQueue_same i ?_
        simp
    | finish how x todo =>
      cases x with
      | setDone => exact hmoves (.of_same rfl fun _ => rfl)
      | clear j =>
        refine ⟨le_refl _, fun k => ⟨?_, fun hclears => ?_⟩⟩
        · exact le_trans (places_clear j k) (Nat.le_add_right _ _)
        · rw [clears, hl] at hclears
          exact absurd hclears (by simp [Stage.clears])
    | _ => exact hmoves (.of_same rfl fun _ => rfl)
  | env he =>
    cases ticks_of_tick he with
    | work hw => exact hmoves (works_moves hw)
    | @submit i u hi hold => exact hmoves (setWorker_moves hi fun k => by rw [hold]; rfl)

/-- How often a task was pushed, when `n` were. -/
def pushed (k n : ℕ) : ℕ := if k < n then 1 else 0

/-- The tasks that were pushed and those that are new since. -/
lemma pushed_new (h : m.submitted ≤ m'.submitted) (k : ℕ) :
    pushed k m'.submitted = pushed k m.submitted + new m m' k := by
  rw [pushed, pushed, new]
  split_ifs <;> omega

/-- **Where the tasks are.** In every interleaving of the workers, who steal from each other, and
of any number of calls of `submit`, `stop` and `join`, from outside and by tasks, a task is at no
time at two places, that is in two queues or twice in one, with two workers, or executed twice; and
as long as no call of `stop` or `join` has come to clear the queues, every task that was submitted
is at one.

**Proof sketch.** By induction on the run, with the lemma for one step. A step that clears the
queues takes places away and adds none. -/
theorem tasks_accounted (hrun : (system p).run es = some s) :
    (∀ k, places p s.shared k ≤ pushed k s.shared.submitted) ∧
      ((system p).Along (fun s e => clears s e = false) es →
        ∀ k, places p s.shared k = pushed k s.shared.submitted) := by
  have hinit : ∀ k, places p (system p).init.shared k = 0 := by
    intro k
    simp [places, system, Program.system, Memory.init, Worker.holds]
  constructor
  · refine System.run_invariant
      (I := fun s : State Memory Stage => ∀ k,
        places p s.shared k ≤ pushed k s.shared.submitted)
      (fun k => le_of_eq_of_le (hinit k) (Nat.zero_le _)) (fun s e t h hstep k => ?_) hrun
    obtain ⟨hsubmitted, hplaces⟩ := step_places hstep
    have := (hplaces k).1
    have := h k
    rw [pushed_new hsubmitted]
    omega
  · intro hC
    refine System.run_invariant_along
      (I := fun s : State Memory Stage => ∀ k,
        places p s.shared k = pushed k s.shared.submitted)
      (fun k => (hinit k).trans rfl) (fun s e t h hclears hstep k => ?_) hC hrun
    obtain ⟨hsubmitted, hplaces⟩ := step_places hstep
    rw [pushed_new hsubmitted, (hplaces k).2 hclears, h k]

/-- A task that was submitted to the first worker, and is stolen by the second one. -/
def stealRun : List (Event Action Tick) :=
  [.spawn, .act 0 .submit] ++ steps 0 4 ++ works 1 4

/-- The second worker has the task, and the queues do not. -/
theorem tasks_accounted_stolen : ∃ s, (system ⟨2, true⟩).run stealRun = some s ∧
    s.shared.worker 1 = .running 0 none ∧ places ⟨2, true⟩ s.shared 0 = 1 :=
  ⟨((system ⟨2, true⟩).run stealRun).get (by decide), (Option.some_get _).symm, by decide,
    ((tasks_accounted (Option.some_get _).symm).2 (by decide) 0).trans (by decide)⟩

/-! ## Waiting for a worker -/

/-- A worker that leaves its loop, or finds a null task in its queue. -/
def Reached (m : Memory) (i : ℕ) : Prop :=
  none ∈ m.queue i ∨ m.worker i = .ending ∨ m.flag i = true ∨ m.worker i = .exited

/-- What the steps keep for the calls that wait. -/
def Rely (p : Pool) (m m' : Memory) : Prop :=
  ∀ i < p.workerNum, (Reached m i → Reached m' i) ∧ (m.worker i = .exited → m'.worker i = .exited)

/-- What a call knows of the workers. -/
def Knows (p : Pool) (m : Memory) : Stage → Prop
  | .fill _ todo => ∀ i < p.workerNum, .push i ∈ todo ∨ Reached m i
  | .await _ k => ∀ i < p.workerNum, Reached m i ∧ (i < k → m.worker i = .exited)
  | .finish _ _ => ∀ i < p.workerNum, m.worker i = .exited
  | _ => True

/-- What holds of the members. -/
structure Steady (p : Pool) (m : Memory) : Prop where
  sound : Sound m
  joined : ∀ i < p.workerNum, m.joined i = true → m.worker i = .exited

/-- The workers stay as they are, and the queues keep their null tasks. -/
lemma rely_of_queue (hworker : m'.worker = m.worker) (hflag : m'.flag = m.flag)
    (hqueue : ∀ i < p.workerNum, none ∈ m.queue i → none ∈ m'.queue i) : Rely p m m' := by
  intro i hi
  rw [Reached, Reached, hworker, hflag]
  exact ⟨Or.imp_left (hqueue i hi), id⟩

/-- One worker goes on, and the queues keep their null tasks but for the one it takes.

**Proof sketch.** The other workers are where they were, with their flags and null tasks; the one
that takes a null task is on its way out by that. -/
lemma rely_of_worker {i : ℕ} {w : Worker} (hworker : m'.worker = Function.update m.worker i w)
    (hflag : ∀ j, m.flag j = true → m'.flag j = true)
    (hqueue : ∀ j, none ∈ m.queue j → none ∈ m'.queue j ∨ j = i ∧ w = .ending)
    (hending : m.worker i = .ending → m'.flag i = true)
    (hexited : m.worker i = .exited → w = .exited) : Rely p m m' := by
  intro j hj
  rw [Reached, Reached, hworker]
  by_cases hji : j = i
  · subst hji
    rw [Function.update_self]
    refine ⟨?_, hexited⟩
    rintro (hnull | hw | hf | hw)
    · exact (hqueue j hnull).imp id fun h => .inl h.2
    · exact .inr (.inr (.inl (hending hw)))
    · exact .inr (.inr (.inl (hflag j hf)))
    · exact .inr (.inr (.inr (hexited hw)))
  · rw [Function.update_of_ne hji]
    refine ⟨?_, id⟩
    rintro (hnull | hw | hf | hw)
    · exact .inl ((hqueue j hnull).resolve_right fun h => hji h.1)
    · exact .inr (.inl hw)
    · exact .inr (.inr (.inl (hflag j hf)))
    · exact .inr (.inr (.inr hw))

/-- A worker that is not about to leave goes on, and the queues stay. -/
lemma rely_of_busy {i : ℕ} {w : Worker} (hworker : m'.worker = Function.update m.worker i w)
    (hflag : m'.flag = m.flag) (hqueue : m'.queue = m.queue) (hending : m.worker i ≠ .ending)
    (hexited : m.worker i ≠ .exited) : Rely p m m' :=
  rely_of_worker hworker (fun _ hj => hflag ▸ hj) (fun _ hj => .inl (hqueue ▸ hj))
    (fun h => absurd h hending) fun h => absurd h hexited

/-- What a call knows stays. -/
lemma Knows.mono {l : Stage} (hrely : Rely p m m') (h : Knows p m l) : Knows p m' l := by
  cases l with
  | fill how todo => exact fun i hi => (h i hi).imp id (hrely i hi).1
  | await how k =>
    intro i hi
    obtain ⟨hreached, hexited⟩ := hrely i hi
    exact ⟨hreached (h i hi).1, fun hk => hexited ((h i hi).2 hk)⟩
  | finish how todo => exact fun i hi => (hrely i hi).2 (h i hi)
  | _ => trivial

/-- A step of `submit`. -/
lemma submits_rely {who : Option ℕ} {c : Submit} {c' : Option Submit}
    (hs : Submits p m who c m' c') : Rely p m m' := by
  obtain ⟨hworker, hflag⟩ := submits_worker hs
  refine rely_of_queue hworker hflag fun i hi hnull => ?_
  cases hs with
  | @pushFront j hj =>
    by_cases hij : i = j
    · simp [Memory.pushFront, Memory.count, Memory.setQueue, hij] at hnull ⊢
      exact hij ▸ hnull
    · simpa [Memory.pushFront, Memory.count, Memory.setQueue, hij] using hnull
  | push hcurrent =>
    by_cases hij : i = m.current
    · simpa [Memory.push, Memory.count, Memory.setQueue, hij] using hij ▸ hnull
    · simpa [Memory.push, Memory.count, Memory.setQueue, hij] using hnull
  | _ => exact hnull

/-- A step of a worker.

**Proof sketch.** A worker takes null tasks from its own queue only, and if it takes one it ends; a
thief takes none. A worker that has ended does not move, and one that waits does not end without
its null task. -/
lemma works_rely {i : ℕ} (hw : Works p m i m') : Rely p m m' := by
  cases hw with
  | test hi hold hf =>
    exact rely_of_busy rfl rfl rfl (by simp [hold]) (by simp [hold])
  | leave hi hold =>
    refine rely_of_worker rfl (fun _ => id) (fun _ => .inl) (fun h => ?_) fun _ => rfl
    rcases hold with hold | hold <;> simp [hold] at h
  | enter hi hold hd =>
    exact rely_of_busy rfl rfl rfl (by simp [hold]) (by simp [hold])
  | search hi hold hw =>
    refine rely_of_busy rfl rfl rfl ?_ ?_
    · rcases hold with hold | ⟨_, hold⟩ <;> simp [hold]
    · rcases hold with hold | ⟨_, hold⟩ <;> simp [hold]
  | @pop item rest hi hold hq =>
    refine rely_of_worker (w := afterPop item) rfl (fun _ => id) (fun j hnull => ?_)
      (fun h => ?_) fun h => ?_
    · by_cases hji : j = i
      · subst hji
        rw [hq] at hnull
        rcases List.mem_cons.1 hnull with rfl | hnull
        · exact .inr ⟨rfl, rfl⟩
        · exact .inl (by simpa [MQStealPool.pop, Memory.setWorker, Memory.take, Memory.setQueue])
      · left
        simpa [MQStealPool.pop, Memory.setWorker, Memory.take, Memory.setQueue, hji] using hnull
    · rcases hold with hold | hold <;> simp [hold] at h
    · rcases hold with hold | hold <;> simp [hold] at h
  | @stolen j u hi hold hne hq =>
    refine rely_of_worker (w := afterPop (some u)) rfl (fun _ => id) (fun k hnull => ?_)
      (fun h => by simp [hold] at h) fun h => by simp [hold] at h
    left
    by_cases hk : k = position p i j
    · -- the last item was a task
      have hmem : none ∈ (m.queue k).dropLast := by
        have hlast := getLast?_of_trySteal hq
        rw [← hk] at hlast
        rw [← List.dropLast_append_getLast? _ hlast] at hnull
        simpa using hnull
      simpa [MQStealPool.pop, Memory.setWorker, Memory.take, Memory.setQueue, hk] using hk ▸ hmem
    · simpa [MQStealPool.pop, Memory.setWorker, Memory.take, Memory.setQueue, hk] using hnull
  | execute hi hold =>
    exact rely_of_busy rfl rfl rfl (by simp [hold]) (by simp [hold])
  | @submit u c m₁ c' hi hold hs =>
    obtain ⟨hworker, hflag⟩ := submits_worker hs
    have hrely : Rely p m₁ (m₁.setWorker i (.running u c')) :=
      rely_of_busy rfl rfl rfl (by simp [hworker, hold]) (by simp [hworker, hold])
    intro j hj
    obtain ⟨hreached, hexited⟩ := submits_rely hs j hj
    exact ⟨(hrely j hj).1 ∘ hreached, (hrely j hj).2 ∘ hexited⟩
  | ending hi hold =>
    refine rely_of_worker rfl (fun j hj => ?_) (fun _ => .inl) (fun _ => ?_)
      fun h => by simp [hold] at h
    · by_cases hji : j = i
      · simp [Memory.setFlag, Memory.setWorker, hji]
      · simpa [Memory.setFlag, Memory.setWorker, hji] using hj
    · simp [Memory.setFlag, Memory.setWorker]

/-- A step of a worker joins no thread. -/
lemma works_joined {i : ℕ} (hw : Works p m i m') : m'.joined = m.joined := by
  cases hw with
  | submit hi hold hs => cases hs <;> rfl
  | _ => rfl

/-- The first parts of `stop` and `join` push a null task for each worker. -/
lemma push_mem_stopFill {i : ℕ} (hi : i < p.workerNum) : Fill.push i ∈ stopFill p :=
  List.mem_flatMap.2 ⟨i, List.mem_range.2 hi, by simp⟩

/-- In the course of `join`, a null task is pushed to every queue. -/
lemma push_mem_joinFill {i : ℕ} (hi : i < p.workerNum) : Fill.push i ∈ joinFill p :=
  List.mem_append_right _ (List.mem_map.2 ⟨i, List.mem_range.2 hi, rfl⟩)

/-- A flag is set only if it has been set before. -/
lemma run_flag (m : Memory) (j : ℕ) : (Fill.flag j).run m = m := by
  rw [Fill.run]
  split
  · exact setFlag_of_flag ‹_›
  · rfl

/-- A null task comes to the others. -/
lemma push_rely (m : Memory) (j : ℕ) : Rely p m (m.push j none) := by
  refine rely_of_queue rfl rfl fun i hi hnull => ?_
  by_cases hij : i = j
  · simp [Memory.push, Memory.setQueue, hij]
  · simpa [Memory.push, Memory.setQueue, hij] using hnull

/-- A step of the first part of `stop` and `join`.

**Proof sketch.** A flag is for one worker, and a null task for one queue; what is left to do
covers the other workers. -/
lemma fill_knows (h : Steady p m) (how : Close) (x : Fill) (todo : List Fill)
    (hknows : Knows p m (.fill how (x :: todo))) :
    Steady p (x.run m) ∧ Knows p (x.run m) (.fill how todo) ∧ Rely p m (x.run m) := by
  have hsound : Sound (x.run m) := h.sound.acts (Acts.fill (p := p) how x todo)
  cases x with
  | flag j =>
    rw [run_flag]
    refine ⟨h, fun i hi => (hknows i hi).imp (fun hmem => ?_) id, fun i hi => ⟨id, id⟩⟩
    simpa using hmem
  | push j =>
    have hrely : Rely p m (m.push j none) := push_rely m j
    refine ⟨⟨hsound, h.joined⟩, fun i hi => ?_, hrely⟩
    rcases hknows i hi with hmem | hreached
    · rcases List.mem_cons.1 hmem with hij | hmem
      · obtain rfl := Fill.push.inj hij
        right
        left
        simp [Fill.run, Memory.push, Memory.setQueue]
      · exact .inl hmem
    · exact .inr ((hrely i hi).1 hreached)

/-- A step of a call.

**Proof sketch.** One case for each action. A call that waits for the workers knows that each of
them has ended or has a null task in its queue; it learns this by pushing them, and no other call
takes any away. -/
lemma acts_knows {l l' : Stage} {a : Action} (h : Steady p m) (hknows : Knows p m l)
    (ha : Acts p m l a m' l') : Steady p m' ∧ Knows p m' l' ∧ Rely p m m' := by
  have hrefl : Rely p m m := fun i hi => ⟨id, id⟩
  cases ha with
  | callSubmit | callStop | callJoin | finished => exact ⟨h, trivial, hrefl⟩
  | @submit c m₁ c' hs =>
    obtain ⟨hworker, -⟩ := submits_worker hs
    refine ⟨⟨h.sound.submits hs, fun i hi hjoined => ?_⟩, ?_, submits_rely hs⟩
    · rw [hworker]
      apply h.joined i hi
      cases hs <;> exact hjoined
    · cases c' <;> trivial
  | stop hl' =>
    refine ⟨h, ?_, hrefl⟩
    rcases hl' with rfl | rfl
    · trivial
    · exact fun i hi => .inl (push_mem_stopFill hi)
  | join hl hl' =>
    refine ⟨h, ?_, hrefl⟩
    rcases hl' with rfl | ⟨_, rfl⟩ | rfl | rfl
    · trivial
    · trivial
    · trivial
    · exact fun i hi => .inl (push_mem_joinFill hi)
  | joinMark =>
    exact ⟨⟨⟨h.sound.numbered, h.sound.flagged⟩, h.joined⟩,
      fun i hi => .inl (push_mem_joinFill hi), fun i hi => ⟨id, id⟩⟩
  | fill how x todo => exact fill_knows h how x todo hknows
  | filled how =>
    refine ⟨h, fun i hi => ⟨?_, fun hlt => absurd hlt (Nat.not_lt_zero _)⟩, hrefl⟩
    exact (hknows i hi).resolve_left List.not_mem_nil
  | @skip how j hj =>
    refine ⟨h, fun i hi => ⟨(hknows i hi).1, fun hlt => ?_⟩, hrefl⟩
    rcases Nat.lt_succ_iff_lt_or_eq.1 hlt with hlt | rfl
    · exact (hknows i hi).2 hlt
    · exact h.joined i hi hj
  | @await how j hw =>
    refine ⟨⟨⟨h.sound.numbered, h.sound.flagged⟩, fun i hi hjoined => ?_⟩,
      fun i hi => ⟨(hknows i hi).1, fun hlt => ?_⟩, fun i hi => ⟨id, id⟩⟩
    · by_cases hij : i = j
      · exact hij ▸ hw
      · exact h.joined i hi (by simpa [Memory.join, hij] using hjoined)
    · rcases Nat.lt_succ_iff_lt_or_eq.1 hlt with hlt | rfl
      · exact (hknows i hi).2 hlt
      · exact hw
  | awaited how hj =>
    exact ⟨h, fun i hi => (hknows i hi).2 (Nat.lt_of_lt_of_le hi hj), hrefl⟩
  | finish how x todo =>
    have hsound : Sound (x.run m) := h.sound.acts (Acts.finish (p := p) how x todo)
    cases x with
    | setDone => exact ⟨⟨hsound, h.joined⟩, hknows, fun i hi => ⟨id, id⟩⟩
    | clear j =>
      refine ⟨⟨hsound, h.joined⟩, hknows, fun i hi => ⟨fun _ => ?_, id⟩⟩
      exact .inr (.inr (.inr (hknows i hi)))

/-- **One step keeps what the calls know.** -/
theorem step_reached {e : Event Action Tick}
    (h : Steady p s.shared ∧ ∀ l ∈ s.threads, Knows p s.shared l)
    (hstep : (system p).step s e = some t) :
    Steady p t.shared ∧ ∀ l ∈ t.threads, Knows p t.shared l := by
  refine Program.step_rely (R := Rely p) h (show Knows p s.shared .start from trivial)
    (fun i a l m' l' _ _ hknows ha => acts_knows h.1 hknows (acts_of_act ha))
    (fun d m' _ he => ?_) (fun m' l hrely hknows => Knows.mono hrely hknows) hstep
  have hsound : Sound m' := step_sound (p := p) (t := { s with shared := m' }) h.1.sound
    (e := .env d) (Program.step_env he)
  suffices hmoves : m'.joined = s.shared.joined ∧ Rely p s.shared m' by
    obtain ⟨hjoined, hrely⟩ := hmoves
    exact ⟨⟨hsound, fun i hi hj => (hrely i hi).2 (h.1.joined i hi (hjoined ▸ hj))⟩, hrely⟩
  cases ticks_of_tick he with
  | work hw => exact ⟨works_joined hw, works_rely hw⟩
  | submit hi hold =>
    exact ⟨rfl, rely_of_busy rfl rfl rfl (by simp [hold]) (by simp [hold])⟩

/-- **For which workers `stop` and `join` wait.** In every interleaving, with any number of calls
of `stop` and `join` at once and for both values of `until_empty`, a worker that such a call waits
for is not blocked at an empty queue.

**Proof sketch.** The invariant is that a worker that is waited for has a null task in its queue,
has taken it, or is at its end. Of these a worker at its queue can only be in the first case. -/
theorem awaited_not_blocked (hrun : (system p).run es = some s) {how : Close} {k i : ℕ}
    (hcall : .await how k ∈ s.threads) (hi : i < p.workerNum)
    (hwait : s.shared.worker i = .waiting) : s.shared.queue i ≠ [] := by
  have hinit : Steady p (system p).init.shared ∧
      ∀ l ∈ (system p).init.threads, Knows p (system p).init.shared l :=
    ⟨⟨sound_init, fun _ _ h => absurd h Bool.false_ne_true⟩, fun _ h => absurd h List.not_mem_nil⟩
  obtain ⟨hsteady, hknows⟩ := System.run_invariant
    (I := fun s => Steady p s.shared ∧ ∀ l ∈ s.threads, Knows p s.shared l) hinit
    (fun s e t h hstep => step_reached h hstep) hrun
  have hflagged := hsteady.sound.flagged i
  rcases (hknows _ hcall i hi).1 with hnull | hw | hflag | hw
  · exact List.ne_nil_of_mem hnull
  · rw [hwait] at hw
    exact absurd hw (by decide)
  · rw [hwait] at hflagged
    exact absurd (hflagged hflag) (by decide)
  · rw [hwait] at hw
    exact absurd hw (by decide)

/-- Two workers that found their own queue, the master queue and each other's queue empty and
wait, and a call of `join` on a pool that does not run until it is empty. -/
def waitRun : List (Event Action Tick) :=
  works 0 6 ++ works 1 6 ++ [.spawn, .act 0 .join] ++ steps 0 4

/-- Both workers that `join` waits for sleep, and each finds a null task in its own queue. -/
theorem awaited_not_blocked_two : ∃ s, (system ⟨2, false⟩).run waitRun = some s ∧
    (s.shared.worker 0 = .waiting ∧ s.shared.worker 1 = .waiting) ∧
      s.shared.queue 0 ≠ [] ∧ s.shared.queue 1 ≠ [] := by
  refine ⟨((system ⟨2, false⟩).run waitRun).get (by decide), (Option.some_get _).symm,
    ⟨by decide, by decide⟩, ?_, by decide⟩
  exact awaited_not_blocked (Option.some_get _).symm
    (show Stage.await .join 0 ∈ (((system ⟨2, false⟩).run waitRun).get _).threads by decide)
    (by decide) (by decide)

end HkuUtils.MQStealPool
