import HkuUtils.GlobalMQPool.Model

set_option relaxedAutoImplicit false
set_option autoImplicit false

/-!
# Joining the global pool with several queues

A worker that takes a null task sets its flag and leaves the loop if `m_done` is set as well. If the
pool runs until it is empty, `join` sets `m_done` before it pushes the null tasks, and every worker
leaves. Otherwise `join` sets `m_done` only after it has waited for the workers, and they wait for
ever at their empty queues.

## Main definitions

* `HkuUtils.GlobalMQPool.Stuck` — `join` waits for a worker that waits at its empty queue.
* `HkuUtils.GlobalMQPool.Leaves` — a worker that has taken a null task leaves its loop.
* `HkuUtils.GlobalMQPool.Sound` — what holds of a pool that runs until it is empty.

## Main results

* `HkuUtils.GlobalMQPool.work_sound`, `join_sound`, `act_sound`, `run_sound` — one step, and a run.
* `HkuUtils.GlobalMQPool.Out.exits` — who is on the way out of the loop reaches its end.
* `HkuUtils.GlobalMQPool.queue_ne_nil_of_await` — the worker that `join` waits for has an item.
* `HkuUtils.GlobalMQPool.join_terminates`, `join_stuck` — the pools whose `join` ends, and one whose
  `join` does not.
-/

namespace HkuUtils.GlobalMQPool

open Threads Transition

variable {p : Pool} {m : Memory}

/-! ## What `join` promises -/

/-- `join` waits for a worker, now or in a later round of its loop, that waits at its empty queue,
and there is nothing further to be pushed: no call of `submit` is in progress, and no task runs that
could make one. -/
def Stuck (p : Pool) (s : State Memory Submit) (i : ℕ) : Prop :=
  (∃ k ≤ i, s.shared.join = .await k) ∧ i < p.workerNum ∧ s.shared.worker i = .waiting ∧
    s.shared.queue i = [] ∧ (∀ l ∈ s.threads, l = .start ∨ l = .returned) ∧
    ∀ j < p.workerNum, ∀ t, s.shared.worker j ≠ .running t

/-- How many steps a worker that takes no further item is away from its end. -/
def Worker.left : Worker → ℕ
  | .ending => 4
  | .top => 3
  | .flagged => 2
  | .leaving => 1
  | _ => 0

/-- Some steps of one worker. -/
def alone (i k : ℕ) : List (Event Action Turn) := List.replicate k (.env (.worker i))

/-- A worker that has taken a null task leaves its loop: it waits for nobody on its way, and each of
its steps takes it nearer to the end. -/
def Leaves (p : Pool) (s : State Memory Submit) (i : ℕ) : Prop :=
  s.shared.ended i = true → ∃ t,
    (system p).runFrom s (alone i (s.shared.worker i).left) = some t ∧ t.shared.worker i = .exited

/-! ## What holds of a pool that runs until it is empty -/

/-- A worker on its way out of the loop. -/
def Out (m : Memory) (i : ℕ) : Prop :=
  m.worker i = .ending ∨ m.flag i = true ∧
    (m.worker i = .top ∨ m.worker i = .flagged ∨ m.worker i = .leaving ∨ m.worker i = .exited)

/-- The null task of a worker is in its queue, or was taken. -/
def Reached (m : Memory) (i : ℕ) : Prop := none ∈ m.queue i ∨ m.ended i = true

/-- What is known when `join` is at a place. -/
def Join.Knows (p : Pool) (m : Memory) : Join → Prop
  | .setFlag _ => m.done = true
  | .pushNull k => m.done = true ∧ ∀ i < k, i < p.workerNum → Reached m i
  | .await _ => m.done = true ∧ ∀ i < p.workerNum, Reached m i
  | _ => True

/-- Null tasks are pushed after `m_done` was set, and who takes one leaves. -/
structure Sound (p : Pool) (m : Memory) : Prop where
  nulls : ∀ i, none ∈ m.queue i → m.done = true
  out : ∀ i, m.ended i = true → m.done = true ∧ Out m i
  join : m.join.Knows p m

/-- A worker that leaves does not go on. -/
lemma Out.leaves {i : ℕ} (h : Out m i) : m.worker i ≠ .waiting ∧ ∀ t, m.worker i ≠ .running t := by
  rcases h with h | ⟨-, h | h | h | h⟩ <;> simp [h]

/-- What is known of `join` stays when null tasks stay or are taken. -/
lemma Join.Knows.mono {m' : Memory} {j : Join} (h : j.Knows p m) (hdone : m'.done = m.done)
    (hreached : ∀ i, Reached m i → Reached m' i) : j.Knows p m' := by
  cases j with
  | setFlag i => exact hdone.trans h
  | pushNull k => exact ⟨hdone.trans h.1, fun i hi hn => hreached i (h.2 i hi hn)⟩
  | await k => exact ⟨hdone.trans h.1, fun i hi => hreached i (h.2 i hi)⟩
  | _ => trivial

/-- A flag that is set stays set when another one is. -/
lemma flag_setFlag {i j : ℕ} (h : m.flag j = true) : (m.setFlag i).flag j = true := by
  show Function.update m.flag i true j = true
  by_cases hji : j = i
  · rw [hji, Function.update_self]
  · rwa [Function.update_of_ne hji]

/-! ### Steps of the workers -/

/-- A worker goes on: the others are where they were. -/
lemma out_setWorker_of_ne {i j : ℕ} (hji : j ≠ i) {m' : Memory} {w : Worker}
    (hworker : m'.worker = Function.update m.worker i w)
    (hflag : m.flag j = true → m'.flag j = true) (h : Out m j) : Out m' j := by
  have hj : m'.worker j = m.worker j := by
    rw [hworker, Function.update_of_ne hji]
  rw [Out, hj]
  exact h.imp_right fun h => ⟨hflag h.1, h.2⟩

/-- A worker that takes no item keeps the invariant. It has left nothing behind, and is on its way
out if it was before; the other workers are not touched. -/
lemma Sound.step_worker {m' : Memory} {i : ℕ} {w : Worker} (h : Sound p m)
    (hdone : m'.done = m.done) (hqueue : m'.queue = m.queue) (hended : m'.ended = m.ended)
    (hjoin : m'.join = m.join) (hworker : m'.worker = Function.update m.worker i w)
    (hflag : ∀ j, m.flag j = true → m'.flag j = true)
    (hout : m.done = true → Out m i → Out m' i) : Sound p m' := by
  refine ⟨?_, fun j hj => ?_, ?_⟩
  · rw [hqueue, hdone]
    exact h.nulls
  · rw [hended] at hj
    obtain ⟨hd, hwas⟩ := h.out j hj
    refine ⟨hdone.trans hd, ?_⟩
    by_cases hji : j = i
    · subst hji
      exact hout hd hwas
    · exact out_setWorker_of_ne hji hworker (hflag j) hwas
  · rw [hjoin]
    refine h.join.mono hdone fun j hj => ?_
    rwa [Reached, hqueue, hended]

/-- A worker that takes an item.

**Proof sketch.** The worker had taken no null task before, since it still waits. What it takes
leaves its queue, and the other queues, workers and marks stay. -/
lemma Sound.step_pop {m' : Memory} {i : ℕ} {x : Option ℕ} {rest : List (Option ℕ)} {w : Worker}
    (h : Sound p m) (hold : m.worker i = .waiting) (hq : m.queue i = x :: rest)
    (hdone : m'.done = m.done) (hqueue : m'.queue = Function.update m.queue i rest)
    (hended : ∀ j, j ≠ i → m'.ended j = m.ended j) (hjoin : m'.join = m.join)
    (hworker : m'.worker = Function.update m.worker i w) (hflag : m'.flag = m.flag)
    (hnull : x = none → m'.ended i = true ∧ w = .ending)
    (htask : x ≠ none → m'.ended i = m.ended i) : Sound p m' := by
  -- A worker that waits has not taken a null task before.
  have hfresh : m.ended i ≠ true := fun hi => (h.out i hi).2.leaves.1 hold
  refine ⟨fun j hj => ?_, fun j hj => ?_, ?_⟩
  · rw [hdone]
    refine h.nulls j ?_
    by_cases hji : j = i
    · subst hji
      rw [hqueue, Function.update_self] at hj
      rw [hq]
      exact List.mem_cons_of_mem _ hj
    · rwa [hqueue, Function.update_of_ne hji] at hj
  · by_cases hji : j = i
    · subst hji
      by_cases hx : x = none
      · refine ⟨hdone.trans (h.nulls j ?_), .inl ?_⟩
        · rw [hq, hx]
          exact List.mem_cons_self
        · rw [hworker, Function.update_self]
          exact (hnull hx).2
      · exact absurd (htask hx ▸ hj) hfresh
    · obtain ⟨hd, hwas⟩ := h.out j (hended j hji ▸ hj)
      exact ⟨hdone.trans hd, out_setWorker_of_ne hji hworker (fun hf => hflag ▸ hf) hwas⟩
  · rw [hjoin]
    refine h.join.mono hdone fun j hj => ?_
    by_cases hji : j = i
    · subst hji
      rcases hj with hj | hj
      · rw [hq, List.mem_cons] at hj
        rcases hj with hx | hrest
        · exact .inr (hnull hx.symm).1
        · left
          rwa [hqueue, Function.update_self]
      · exact absurd hj hfresh
    · rw [Reached, hqueue, Function.update_of_ne hji, hended j hji]
      exact hj

/-- **A step of a worker.**

**Proof sketch.** One case for each place a worker can be at. Only the one at its queue takes
something; every other step stays on the way out, if the worker was on it. -/
theorem work_sound {m' : Memory} {i : ℕ} (h : Sound p m) (hw : work p m i = some m') :
    Sound p m' := by
  rw [work] at hw
  split at hw
  · cases hw
  have hself : ∀ (n : Memory) (w : Worker), (n.setWorker i w).worker i = w := fun n w =>
    Function.update_self ..
  split at hw
  · next hold =>
    cases hw
    refine h.step_worker (i := i) (w := .top) rfl rfl rfl rfl rfl (fun _ => id) fun _ hout => ?_
    rcases hout with hout | ⟨-, hout⟩ <;> simp [hold] at hout
  · next hold =>
    cases hw
    refine h.step_worker (i := i) rfl rfl rfl rfl rfl (fun _ => id) fun _ hout => ?_
    rcases hout with hout | ⟨hflag, -⟩
    · simp [hold] at hout
    · refine .inr ⟨hflag, .inr (.inl ?_)⟩
      rw [hself, if_pos hflag]
  · next hold =>
    cases hw
    refine h.step_worker (i := i) rfl rfl rfl rfl rfl (fun _ => id) fun hdone hout => ?_
    rcases hout with hout | ⟨hflag, -⟩
    · simp [hold] at hout
    · refine .inr ⟨hflag, .inr (.inr (.inl ?_))⟩
      rw [hself, if_pos hdone]
  · next hold =>
    split at hw
    · cases hw
    · next rest hq =>
      cases hw
      refine h.step_pop (w := .ending) hold hq rfl rfl (fun j hji => Function.update_of_ne hji ..)
        rfl rfl rfl (fun _ => ⟨Function.update_self .., rfl⟩) (fun hx => absurd rfl hx)
    · next t rest hq =>
      cases hw
      exact h.step_pop (w := .running t) hold hq rfl rfl (fun _ _ => rfl) rfl rfl rfl nofun
        fun _ => rfl
  · next t hold =>
    cases hw
    refine h.step_worker (i := i) (w := .top) rfl rfl rfl rfl rfl (fun _ => id) fun _ hout => ?_
    rcases hout with hout | ⟨-, hout⟩ <;> simp [hold] at hout
  · next hold =>
    cases hw
    refine h.step_worker (i := i) (w := .top) rfl rfl rfl rfl rfl (fun j => flag_setFlag)
      fun _ _ => ?_
    exact .inr ⟨Function.update_self .., .inl (hself _ _)⟩
  · next hold =>
    cases hw
    refine h.step_worker (i := i) (w := .exited) rfl rfl rfl rfl rfl (fun _ => id)
      fun _ hout => ?_
    rcases hout with hout | ⟨hflag, -⟩
    · simp [hold] at hout
    · exact .inr ⟨hflag, .inr (.inr (.inr (hself _ _)))⟩
  · cases hw

/-! ### Steps of the calls -/

/-- A step that moves no worker and takes no item. -/
lemma Sound.step_call {m' : Memory} (h : Sound p m) (hdone : m.done = true → m'.done = true)
    (hqueue : ∀ i, none ∈ m'.queue i → none ∈ m.queue i ∨ m'.done = true)
    (hended : m'.ended = m.ended) (hworker : m'.worker = m.worker)
    (hflag : ∀ i, m.flag i = true → m'.flag i = true) (hjoin : m'.join.Knows p m') :
    Sound p m' := by
  refine ⟨fun i hi => (hqueue i hi).elim (fun hi => hdone (h.nulls i hi)) id, fun i hi => ?_, hjoin⟩
  obtain ⟨hd, hout⟩ := h.out i (hended ▸ hi)
  refine ⟨hdone hd, ?_⟩
  rw [Out, hworker]
  exact hout.imp_right fun h => ⟨hflag i h.1, h.2⟩

/-- A step of `join` that only moves on. -/
lemma Sound.setJoin {j : Join} (h : Sound p m) (hj : j.Knows p m) : Sound p (m.setJoin j) :=
  h.step_call id (fun _ => .inl) rfl rfl (fun _ => id) (hj.mono rfl fun _ => id)

/-- What is in a queue after a push. -/
lemma mem_queue_push {i j : ℕ} {x y : Option ℕ} :
    y ∈ (m.push i x).queue j ↔ y ∈ m.queue j ∨ j = i ∧ y = x := by
  show y ∈ Function.update m.queue i (m.queue i ++ [x]) j ↔ _
  by_cases hji : j = i
  · subst hji
    rw [Function.update_self]
    simp
  · rw [Function.update_of_ne hji]
    simp [hji]

/-- **A step of `join`** in a pool that runs until it is empty.

**Proof sketch.** One case for each place of `join`. As the pool runs until it is empty, `m_done`
is set before a queue is looked at, and a null task is pushed only behind that. -/
theorem join_sound {m' : Memory} (hp : p.untilEmpty = true) (h : Sound p m)
    (hstep : joinStep p m = some m') : Sound p m' := by
  have hknows := h.join
  rw [joinStep] at hstep
  split at hstep
  · cases hstep
    exact h.setJoin trivial
  · cases hstep
    refine h.setJoin ?_
    rw [hp]
    by_cases hdone : m.done = true <;> simp [hdone, Join.Knows]
  · next i _ =>
    cases hstep
    refine h.setJoin ?_
    by_cases hi : p.workerNum ≤ i
    · simp [hi, Join.Knows]
    · by_cases hq : m.queue i = [] <;> simp [hi, hq, Join.Knows]
  · cases hstep
    exact h.step_call (fun _ => rfl) (fun _ => .inl) rfl rfl (fun _ => id) rfl
  · next i hj =>
    cases hstep
    rw [hj] at hknows
    by_cases hi : p.workerNum ≤ i
    · rw [if_pos hi]
      exact h.setJoin ⟨hknows, fun k hk => absurd hk (Nat.not_lt_zero k)⟩
    · rw [if_neg hi]
      by_cases hr : m.registered i = true
      · rw [if_pos hr]
        exact h.step_call id (fun _ => .inl) rfl rfl (fun k => flag_setFlag) hknows
      · rw [if_neg hr]
        exact h.setJoin hknows
  · next i hj =>
    cases hstep
    rw [hj] at hknows
    by_cases hi : p.workerNum ≤ i
    · rw [if_pos hi]
      exact h.setJoin ⟨hknows.1, fun k hk => hknows.2 k (hk.trans_le hi) hk⟩
    · rw [if_neg hi]
      refine h.step_call id (fun _ _ => .inr hknows.1) rfl rfl (fun _ => id)
        ⟨hknows.1, fun k hk hn => ?_⟩
      by_cases hki : k = i
      · exact .inl (mem_queue_push.2 (.inr ⟨hki, rfl⟩))
      · exact (hknows.2 k (by omega) hn).imp_left fun hnull => mem_queue_push.2 (.inl hnull)
  · next i hj =>
    rw [hj] at hknows
    split at hstep
    · cases hstep
      exact h.setJoin trivial
    · split at hstep
      · cases hstep
        exact h.setJoin hknows
      · cases hstep
  · next i hj =>
    cases hstep
    by_cases hi : p.workerNum ≤ i
    · rw [if_pos hi]
      exact h.setJoin trivial
    · rw [if_neg hi]
      refine h.step_call id (fun k hk => ?_) rfl rfl (fun _ => id) trivial
      by_cases hki : k = i
      · subst hki
        simp [Memory.setJoin, Memory.setQueue] at hk
      · left
        rwa [show ((m.setQueue i []).setJoin (.clear (i + 1))).queue k = m.queue k from
          Function.update_of_ne hki ..] at hk
  · cases hstep
    exact h.step_call (fun _ => rfl) (fun _ => .inl) rfl rfl (fun _ => id) trivial
  · cases hstep

/-- A step of `submit` changes nothing, or pushes a task. -/
lemma act_cases {m' : Memory} {l l' : Submit} {a : Action} (ha : act p m l a = some (m', l')) :
    m' = m ∨ ∃ i < p.workerNum, l = .push i ∧ l' = .returned ∧
      m' = { m.push i (some m.submitted) with submitted := m.submitted + 1 } := by
  rw [act.eq_def] at ha
  split at ha
  · cases ha
    exact .inl rfl
  · cases ha
    exact .inl rfl
  · cases ha
    exact .inl rfl
  · next i =>
    split at ha
    · cases ha
    · next hi =>
      cases ha
      exact .inr ⟨i, Nat.lt_of_not_le hi, rfl, rfl, rfl⟩
  · cases ha

/-- **A step of `submit`.** -/
theorem act_sound {m' : Memory} {l l' : Submit} {a : Action} (h : Sound p m)
    (ha : act p m l a = some (m', l')) : Sound p m' := by
  obtain rfl | ⟨i, -, -, -, rfl⟩ := act_cases ha
  · exact h
  · refine h.step_call id (fun k hk => ?_) rfl rfl (fun _ => id) (h.join.mono rfl fun k hk => ?_)
    · exact (mem_queue_push.1 hk).imp_right fun hx => nomatch hx.2
    · exact hk.imp_left fun hnull => mem_queue_push.2 (.inl hnull)

/-- What holds after every run of a pool that runs until it is empty. -/
theorem run_sound (hp : p.untilEmpty = true) {es : List (Event Action Turn)}
    {s : State Memory Submit} (hrun : (system p).run es = some s) : Sound p s.shared := by
  refine System.run_invariant (S := system p) (I := fun s => Sound p s.shared) ?_ ?_ hrun
  · refine ⟨fun i hi => ?_, fun i hi => ?_, trivial⟩ <;> cases hi
  intro s e t h hstep
  cases Program.steps_of_step hstep with
  | spawn => exact h
  | act hl ha => exact act_sound h ha
  | @env e m he =>
    cases e with
    | worker i => exact work_sound h he
    | join => exact join_sound hp h he

/-! ## The worker that leaves, and the worker that is waited for -/

/-- A step of a worker or of `join`, and then others. -/
lemma runFrom_env {e : Turn} {m' : Memory} (h : turn p m e = some m') (ls : List Submit)
    (es : List (Event Action Turn)) :
    (system p).runFrom ⟨m, ls⟩ (.env e :: es) = (system p).runFrom ⟨m', ls⟩ es := by
  have hstep : (system p).step ⟨m, ls⟩ (.env e) = some ⟨m', ls⟩ := Program.step_env h
  rw [System.runFrom_cons, hstep, Option.bind_some]

/-- A step of a worker, and then others of it. -/
lemma runFrom_alone_succ {i k : ℕ} {m' : Memory} (hw : work p m i = some m') (ls : List Submit) :
    (system p).runFrom ⟨m, ls⟩ (alone i (k + 1)) = (system p).runFrom ⟨m', ls⟩ (alone i k) :=
  runFrom_env (e := .worker i) hw ls (alone i k)

/-- A worker on its way out reaches its end when `m_done` is set.

**Proof sketch.** From each place on the way out the next step is given, down to the end; the
number of steps is `Worker.left`. -/
theorem Out.exits {i : ℕ} (hi : i < p.workerNum) (hdone : m.done = true) (h : Out m i)
    (ls : List Submit) : ∃ t, (system p).runFrom ⟨m, ls⟩ (alone i (m.worker i).left) = some t ∧
      t.shared.worker i = .exited := by
  have hn : ¬ p.workerNum ≤ i := Nat.not_le_of_lt hi
  have hself : ∀ (n : Memory) (w : Worker), (n.setWorker i w).worker i = w := fun n w =>
    Function.update_self ..
  have hexited : ∀ n : Memory, n.worker i = .exited →
      ∃ t, (system p).runFrom ⟨n, ls⟩ (alone i 0) = some t ∧ t.shared.worker i = .exited :=
    fun n hw => ⟨_, rfl, hw⟩
  have hleaving : ∀ n : Memory, n.worker i = .leaving →
      ∃ t, (system p).runFrom ⟨n, ls⟩ (alone i 1) = some t ∧ t.shared.worker i = .exited := by
    intro n hw
    rw [runFrom_alone_succ (by rw [work, if_neg hn, hw])]
    exact hexited _ (hself _ _)
  have hflagged : ∀ n : Memory, n.done = true → n.worker i = .flagged →
      ∃ t, (system p).runFrom ⟨n, ls⟩ (alone i 2) = some t ∧ t.shared.worker i = .exited := by
    intro n hd hw
    rw [runFrom_alone_succ (by rw [work, if_neg hn, hw])]
    refine hleaving _ ?_
    rw [hself, if_pos hd]
  have htop : ∀ n : Memory, n.done = true → n.flag i = true → n.worker i = .top →
      ∃ t, (system p).runFrom ⟨n, ls⟩ (alone i 3) = some t ∧ t.shared.worker i = .exited := by
    intro n hd hf hw
    rw [runFrom_alone_succ (by rw [work, if_neg hn, hw])]
    refine hflagged _ hd ?_
    rw [hself, if_pos hf]
  rcases h with h | ⟨hf, h | h | h | h⟩ <;> rw [h]
  · show ∃ t, (system p).runFrom ⟨m, ls⟩ (alone i 4) = some t ∧ _
    rw [runFrom_alone_succ (by rw [work, if_neg hn, h])]
    exact htop _ hdone (Function.update_self ..) (hself _ _)
  · exact htop m hdone hf h
  · exact hflagged m hdone h
  · exact hleaving m h
  · exact hexited m h

/-- The worker that `join` waits for can take the null task, if it waits. -/
theorem queue_ne_nil_of_await {i k : ℕ} (h : Sound p m) (hj : m.join = .await k)
    (hi : i < p.workerNum) (hw : m.worker i = .waiting) : m.queue i ≠ [] := by
  have hknows := h.join
  rw [hj] at hknows
  rcases hknows.2 i hi with hnull | hended
  · exact List.ne_nil_of_mem hnull
  · exact absurd hw (h.out i hended).2.leaves.1

/-! ## A pool that does not run until it is empty -/

/-- The pool with as many null tasks pushed as `join` has come to, before any worker has started. -/
def pushed (k : ℕ) : Memory :=
  { Memory.init with join := .pushNull k, queue := fun i => if i < k then [none] else [] }

/-- One null task more. -/
lemma push_pushed (k : ℕ) :
    ((pushed k).push k none).setJoin (.pushNull (k + 1)) = pushed (k + 1) := by
  have hqueue : Function.update (pushed k).queue k ((pushed k).queue k ++ [none]) =
      (pushed (k + 1)).queue := by
    funext i
    by_cases hik : i = k
    · subst hik
      rw [Function.update_self]
      simp [pushed]
    · rw [Function.update_of_ne hik]
      have hiff : i < k ↔ i < k + 1 := by omega
      simp only [pushed, hiff]
  rw [Memory.push, Memory.setQueue, hqueue]
  rfl

/-- The steps of `join`. -/
def joins (k : ℕ) : List (Event Action Turn) := List.replicate k (.env .join)

/-- The loop over the null tasks, from the start of `join`, in a pool that does not wait for its
queues.

**Proof sketch.** By induction on the number of tasks that are pushed. The first two steps test
`m_done`, and every further one pushes one task. -/
lemma run_joins (hp : p.untilEmpty = false) {k : ℕ} (hk : k ≤ p.workerNum) :
    (system p).run (joins (2 + k)) = some ⟨pushed k, []⟩ := by
  induction k with
  | zero =>
    have hidle : turn p Memory.init .join = some (Memory.init.setJoin .test) := rfl
    have htest : turn p (Memory.init.setJoin .test) .join = some (pushed 0) := by
      show some (Memory.setJoin _ (if p.untilEmpty then _ else _)) = _
      rw [hp]
      rfl
    show (system p).runFrom ⟨Memory.init, []⟩ [.env .join, .env .join] = _
    rw [runFrom_env hidle, runFrom_env htest, System.runFrom_nil]
  | succ k ih =>
    have hpush : turn p (pushed k) .join = some (pushed (k + 1)) := by
      show some (if p.workerNum ≤ k then _ else _) = _
      rw [if_neg (by omega), push_pushed]
    have hjoins : joins (2 + (k + 1)) = joins (2 + k) ++ [.env .join] := List.replicate_succ'
    rw [hjoins, System.run, System.runFrom_append, ← System.run, ih (by omega), Option.bind_some,
      runFrom_env hpush, System.runFrom_nil]

/-- A worker that takes a null task while `m_done` is not set comes back to its queue.

**Proof sketch.** The six steps one after another: the worker starts, tests `m_done`, takes the
null task, sets its flag, and comes back to its queue, which is empty now. -/
lemma starves {i : ℕ} (hi : i < p.workerNum) (hdone : m.done = false) (hflag : m.flag i = false)
    (hw : m.worker i = .starting) (hq : m.queue i = [none]) (ls : List Submit) :
    ∃ m', (system p).runFrom ⟨m, ls⟩ (alone i 6) = some ⟨m', ls⟩ ∧ m'.join = m.join ∧
      m'.queue i = [] ∧ m'.ended i = true ∧ m'.worker = Function.update m.worker i .waiting := by
  have hn : ¬ p.workerNum ≤ i := Nat.not_le_of_lt hi
  have hself : ∀ (n : Memory) (w : Worker), (n.setWorker i w).worker i = w := fun n w =>
    Function.update_self ..
  let top := (m.register i true).setWorker i .top
  let waiting := top.setWorker i .waiting
  let ending := ((waiting.setQueue i []).takeNull i).setWorker i .ending
  let again := (ending.setFlag i).setWorker i .top
  let flagged := again.setWorker i .flagged
  have hfields : flagged.done = m.done ∧ (flagged.setWorker i .waiting).join = m.join ∧
      (flagged.setWorker i .waiting).queue i = [] ∧ (flagged.setWorker i .waiting).ended i = true ∧
      (flagged.setWorker i .waiting).worker = Function.update m.worker i .waiting := by
    simp [flagged, again, ending, waiting, top, Memory.setWorker, Memory.setFlag, Memory.takeNull,
      Memory.setQueue, Memory.register]
  have hstart : work p m i = some top := by
    rw [work, if_neg hn, hw]
  have htop : work p top i = some waiting := by
    have hf : top.flag i = false := hflag
    rw [work, if_neg hn, hself]
    simp only [hf]
    rfl
  have hpop : work p waiting i = some ending := by
    have hitems : waiting.queue i = [none] := hq
    rw [work, if_neg hn, hself]
    simp only [hitems]
    rfl
  have hset : work p ending i = some again := by
    rw [work, if_neg hn, hself]
  have hagain : work p again i = some flagged := by
    have hf : again.flag i = true := Function.update_self ..
    rw [work, if_neg hn, hself]
    simp only [hf]
    rfl
  -- `m_done` is not set, and so the worker goes on although its flag is set.
  have hon : work p flagged i = some (flagged.setWorker i .waiting) := by
    have hd : flagged.done = false := hfields.1.trans hdone
    rw [work, if_neg hn, hself]
    simp only [hd]
    rfl
  refine ⟨flagged.setWorker i .waiting, ?_, hfields.2⟩
  rw [runFrom_alone_succ hstart, runFrom_alone_succ htop, runFrom_alone_succ hpop,
    runFrom_alone_succ hset, runFrom_alone_succ hagain, runFrom_alone_succ hon]
  rfl

/-- In a pool that does not run until it is empty, the first worker is left at its empty queue.

**Proof sketch.** First `join` pushes the null tasks and begins to wait for the first worker, then
this one starts and takes its null task by `starves`. -/
theorem exists_stuck (hp : p.untilEmpty = false) (hn : 0 < p.workerNum) :
    ∃ s, (system p).run (joins (2 + p.workerNum + 1) ++ alone 0 6) = some s ∧ Stuck p s 0 ∧
      s.shared.ended 0 = true := by
  let m := (pushed p.workerNum).setJoin (.await 0)
  have hawait : turn p (pushed p.workerNum) .join = some m := by
    show some (if p.workerNum ≤ p.workerNum then _ else _) = _
    rw [if_pos le_rfl]
  obtain ⟨m', hrun, hj, hq, hended, hworker⟩ :=
    starves (m := m) hn rfl rfl rfl (if_pos hn) []
  refine ⟨⟨m', []⟩, ?_,
    ⟨⟨0, le_rfl, hj⟩, hn, ?_, hq, List.forall_mem_nil _, fun i _ t => ?_⟩, hended⟩
  · have hjoins : joins (2 + p.workerNum + 1) = joins (2 + p.workerNum) ++ [.env .join] :=
      List.replicate_succ'
    rw [System.run, System.runFrom_append, hjoins, System.runFrom_append, ← System.run,
      run_joins hp le_rfl, Option.bind_some, runFrom_env hawait, System.runFrom_nil,
      Option.bind_some, hrun]
  · show m'.worker 0 = _
    rw [hworker, Function.update_self]
  · show m'.worker i ≠ _
    rw [hworker]
    by_cases hi : i = 0
    · rw [hi, Function.update_self]
      exact Worker.noConfusion
    · rw [Function.update_of_ne hi]
      exact Worker.noConfusion

/-- **`join` terminates**: the pools in which no run comes to a worker that waits at its empty
queue while `join` waits for it are those that run until they are empty, and those without workers.
The same are the pools in which every worker that takes a null task leaves its loop.

**Proof sketch.** A pool that runs until it is empty keeps `Sound` in every step, and in a sound
state the worker that `join` waits for has a null task in its queue or is on its way out. In any
other pool with a worker, `exists_stuck` is a run that fails. -/
theorem join_terminates (p : Pool) :
    ((∀ es s, (system p).run es = some s → ∀ i, ¬ Stuck p s i) ↔
      (p.untilEmpty = true ∨ p.workerNum = 0)) ∧
    ((∀ es s, (system p).run es = some s → ∀ i < p.workerNum, Leaves p s i) ↔
      (p.untilEmpty = true ∨ p.workerNum = 0)) := by
  -- Otherwise there is the run of `exists_stuck`.
  have hfails : ¬ (p.untilEmpty = true ∨ p.workerNum = 0) →
      ∃ es s, (system p).run es = some s ∧ 0 < p.workerNum ∧ Stuck p s 0 ∧
        s.shared.ended 0 = true := by
    intro hnot
    have hn : 0 < p.workerNum := Nat.pos_of_ne_zero fun h0 => hnot (.inr h0)
    obtain ⟨s, hrun, hstuck, hended⟩ :=
      exists_stuck (Bool.eq_false_of_not_eq_true fun hp => hnot (.inl hp)) hn
    exact ⟨_, s, hrun, hn, hstuck, hended⟩
  refine ⟨⟨fun h => ?_, ?_⟩, ⟨fun h => ?_, ?_⟩⟩
  · by_contra hnot
    obtain ⟨es, s, hrun, -, hstuck, -⟩ := hfails hnot
    exact h es s hrun 0 hstuck
  · rintro (hp | h0) es s hrun i ⟨⟨k, -, hj⟩, hi, hw, hq, -⟩
    · exact queue_ne_nil_of_await (run_sound hp hrun) hj hi hw hq
    · omega
  · by_contra hnot
    obtain ⟨es, s, hrun, hn, ⟨-, -, hw, -⟩, hended⟩ := hfails hnot
    obtain ⟨t, ht, hexited⟩ := h es s hrun 0 hn hended
    -- A worker that waits has no way to its end.
    rw [hw] at ht
    obtain rfl : s = t := Option.some.inj ht
    rw [hw] at hexited
    cases hexited
  · rintro (hp | h0) es s hrun i hi
    · intro hended
      obtain ⟨hdone, hout⟩ := (run_sound hp hrun).out i hended
      exact hout.exits hi hdone s.threads
    · omega

/-- With one worker, `join` waits for ever on a pool that has nothing to do. -/
theorem join_stuck : ∃ s, (system ⟨1, false⟩).run (joins 4 ++ alone 0 6) = some s ∧
    Stuck ⟨1, false⟩ s 0 ∧ s.shared.ended 0 = true ∧ ¬ Leaves ⟨1, false⟩ s 0 ∧
    turn ⟨1, false⟩ s.shared .join = none ∧ turn ⟨1, false⟩ s.shared (.worker 0) = none := by
  refine ⟨_, rfl, ⟨⟨0, le_rfl, rfl⟩, Nat.one_pos, rfl, rfl, List.forall_mem_nil _, ?_⟩, rfl, ?_,
    rfl, rfl⟩
  · intro i hi t
    obtain rfl : i = 0 := by
      have : i < 1 := hi
      omega
    nofun
  · intro h
    obtain ⟨t, ht, hexited⟩ := h rfl
    obtain rfl := Option.some.inj ht
    cases hexited

end HkuUtils.GlobalMQPool
