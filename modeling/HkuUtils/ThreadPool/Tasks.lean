import HkuUtils.ThreadPool.Sentinels

set_option relaxedAutoImplicit false
set_option autoImplicit false

/-!
# Every task before the sentinels

What `join` promises: when it returns, the tasks that were submitted before it was called have been
executed, once each. A worker takes at most one sentinel, so that a task is reached if there are
fewer sentinels before it in its queue than workers that read the queue.

## Main definitions

* `HkuUtils.ThreadPool.InReach` — a worker executes a task, or will take it.
* `HkuUtils.ThreadPool.Orderly` — the condition on the steps of a run.
* `HkuUtils.ThreadPool.Promised`, `Kept` — what such a run preserves.

## Main results

* `HkuUtils.ThreadPool.act_promised`, `work_promised` — one step that meets the condition.
* `HkuUtils.ThreadPool.orderly_of_one_join` — runs that meet it.
* `HkuUtils.ThreadPool.tasks_executed`, `task_lost` — the tasks of a run, and a task that a second
  call of `join` does not wait for.
-/

namespace HkuUtils.ThreadPool

open Threads Transition

variable {p : Pool} {m : Memory}

/-! ## Tasks in reach -/

/-- The sentinels before a task. -/
def ahead (t : ℕ) (items : List (Option ℕ)) : ℕ := (items.takeWhile (· != some t)).count none

/-- A worker executes the task, or there are more workers than sentinels before it. -/
def InReach (p : Pool) (m : Memory) (t : ℕ) : Prop :=
  (∃ i < p.workerNum, m.worker i = .running t) ∨
    ∃ q, some t ∈ m.queue q ∧ ahead t (m.queue q) < live p m q

/-- Another item at the front. -/
lemma ahead_cons {t : ℕ} {x : Option ℕ} (hx : x ≠ some t) (items : List (Option ℕ)) :
    ahead t (x :: items) = ahead t items + if x = none then 1 else 0 := by
  have hne : (x != some t) = true := bne_iff_ne.2 hx
  simp [ahead, hne, List.count_cons]

/-- A task behind the front is in the rest. -/
lemma mem_of_mem_cons {t : ℕ} {x : Option ℕ} {items : List (Option ℕ)} (hx : x ≠ some t)
    (ht : some t ∈ x :: items) : some t ∈ items :=
  (List.mem_cons.1 ht).resolve_left fun heq => hx heq.symm

/-- What is pushed later is not before the task. -/
lemma ahead_append {t : ℕ} {items : List (Option ℕ)} (ht : some t ∈ items)
    (more : List (Option ℕ)) : ahead t (items ++ more) = ahead t items := by
  induction items with
  | nil => cases ht
  | cons x items ih =>
    by_cases hx : x = some t
    · simp [ahead, hx]
    · rw [List.cons_append, ahead_cons hx, ahead_cons hx, ih (mem_of_mem_cons hx ht)]

/-- A push leaves a task in reach. -/
lemma InReach.push {t : ℕ} (h : InReach p m t) (q : ℕ) (item : Option ℕ) :
    InReach p (m.push q item) t := by
  rcases h with h | ⟨r, hr, hahead⟩
  · exact .inl h
  · right
    by_cases hrq : r = q
    · subst hrq
      have hqueue : (m.push r item).queue r = m.queue r ++ [item] := Function.update_self ..
      refine ⟨r, ?_, ?_⟩
      · rw [hqueue]
        exact List.mem_append_left _ hr
      · rw [hqueue, ahead_append hr]
        exact hahead
    · have hqueue : (m.push q item).queue r = m.queue r := Function.update_of_ne hrq ..
      refine ⟨r, ?_, ?_⟩
      · rw [hqueue]
        exact hr
      · rw [hqueue]
        exact hahead

/-- When all workers have exited, no task is in reach. -/
lemma not_inReach (hexited : ∀ i < p.workerNum, m.worker i = .exited) (t : ℕ) :
    ¬ InReach p m t := by
  rintro (⟨i, hi, hrun⟩ | ⟨q, -, hahead⟩)
  · rw [hexited i hi] at hrun
    cases hrun
  · rw [live_eq_zero hexited q] at hahead
    exact Nat.not_lt_zero _ hahead

/-- A worker without a task that stays in the loop, or has left it before. -/
lemma InReach.setWorker {t i : ℕ} (h : InReach p m t) {w : Worker} (hi : i < p.workerNum)
    (hrun : ∀ u, m.worker i ≠ .running u) (hlive : (m.worker i).isLive = w.isLive) :
    InReach p (m.setWorker i w) t := by
  rcases h with ⟨j, hj, htask⟩ | ⟨q, hq, hahead⟩
  · have hne : j ≠ i := by
      rintro rfl
      exact hrun t htask
    exact .inl ⟨j, hj, by simpa [Memory.setWorker, hne] using htask⟩
  · have hcount := live_setWorker (m := m) hi w q
    rw [hlive] at hcount
    refine .inr ⟨q, hq, ?_⟩
    show ahead t (m.queue q) < live p (m.setWorker i w) q
    omega

/-- A worker takes the first item of its queue: it is the task, or the worker is still in the loop,
or one sentinel less is before the task.

**Proof sketch.** A task that another worker runs is still run there. One in this queue is the one
that is taken, or loses the item before it: a task, which is none of the null tasks that end
workers, or a null task together with the worker that ends by it. -/
lemma InReach.pop {t i : ℕ} (h : InReach p m t) {x : Option ℕ} {rest : List (Option ℕ)}
    {w : Worker} (hi : i < p.workerNum) (hold : m.worker i = .waiting)
    (hq : m.queue (p.queueOf i) = x :: rest) (hw : ∀ u, x = some u → w = .running u) :
    InReach p ((m.setQueue (p.queueOf i) rest).setWorker i w) t := by
  rcases h with ⟨j, hj, htask⟩ | ⟨q, hmem, hahead⟩
  · have hne : j ≠ i := by
      rintro rfl
      rw [hold] at htask
      cases htask
    exact .inl ⟨j, hj, by simpa [Memory.setWorker, Memory.setQueue, hne] using htask⟩
  · have hcount := live_pop hi hold rest w q
    by_cases hqi : p.queueOf i = q
    · subst hqi
      by_cases hx : x = some t
      · exact .inl ⟨i, hi, by simp [Memory.setWorker, hw t hx]⟩
      · rw [hq] at hmem hahead
        rw [ahead_cons hx] at hahead
        have hqueue : ((m.setQueue (p.queueOf i) rest).setWorker i w).queue (p.queueOf i) = rest :=
          Function.update_self ..
        refine .inr ⟨p.queueOf i, ?_, ?_⟩
        · rw [hqueue]
          exact mem_of_mem_cons hx hmem
        · rw [hqueue]
          rw [if_pos rfl] at hcount
          cases x with
          | none =>
            rw [if_pos rfl] at hahead
            omega
          | some u =>
            have hnew : w.isLive = true := by rw [hw u rfl]; rfl
            simp [hnew] at hcount hahead
            omega
    · have hqueue : ((m.setQueue (p.queueOf i) rest).setWorker i w).queue q = m.queue q :=
        Function.update_of_ne (fun heq => hqi heq.symm) ..
      refine .inr ⟨q, ?_, ?_⟩
      · rw [hqueue]
        exact hmem
      · rw [hqueue]
        simp [hqi] at hcount
        omega

/-- A worker that ends another task leaves this one in reach. -/
lemma InReach.execute {t u i : ℕ} (h : InReach p m t) (hi : i < p.workerNum)
    (hold : m.worker i = .running u) (hne : t ≠ u) :
    InReach p ((m.execute u).setWorker i .top) t := by
  rcases h with ⟨j, hj, htask⟩ | ⟨q, hq, hahead⟩
  · have hji : j ≠ i := by
      rintro rfl
      rw [hold] at htask
      exact hne (Worker.running.inj htask).symm
    exact .inl ⟨j, hj, by simpa [Memory.setWorker, Memory.execute, hji] using htask⟩
  · have hcount := live_setWorker (m := m.execute u) hi .top q
    have hlive : ((m.execute u).worker i).isLive = Worker.top.isLive := by
      show (m.worker i).isLive = true
      rw [hold]
      rfl
    rw [hlive] at hcount
    have hsame : live p (m.execute u) q = live p m q := rfl
    refine .inr ⟨q, hq, ?_⟩
    show ahead t (m.queue q) < live p ((m.execute u).setWorker i .top) q
    omega

/-! ## What `join` promises -/

/-- A task has been executed or, in a pool that is not done, is in reach. -/
def Due (p : Pool) (m : Memory) (t : ℕ) : Prop :=
  t ∈ m.executed ∨ m.done = false ∧ InReach p m t

/-- A pool that is done has executed a task that is due. -/
lemma Due.executed {t : ℕ} (h : Due p m t) (hd : m.done = true) : t ∈ m.executed :=
  h.resolve_right fun hdue => absurd (hdue.1.symm.trans hd) Bool.false_ne_true

/-- The promised tasks are due. -/
def Promised (p : Pool) (m : Memory) : Prop := ∀ t < m.promised, Due p m t

/-- What a call has promised, when it was one of `join`. -/
def Stage.promised : Stage → ℕ
  | .join k | .mark k | .returned k => k
  | .fill how _ | .lock how | .await how _ | .finish how _ => how.promised
  | _ => 0

/-- What a call has promised is counted, and was executed when the call has returned. -/
def Kept (m : Memory) (l : Stage) : Prop :=
  l.promised ≤ m.promised ∧ ∀ k, l = .returned k → ∀ t < k, t ∈ m.executed

/-- The condition on a step. When `join` is called the tasks that were submitted are due, and when
`stop` sets `m_done` the promised tasks have been executed. -/
def Orderly (p : Pool) (s : State Memory Stage) : Event Action ℕ → Prop
  | .act _ .join => ∀ t < s.shared.submitted, Due p s.shared t
  | .act i .go => s.threads[i]? = some .stop → s.shared.done = false →
    ∀ t < s.shared.promised, t ∈ s.shared.executed
  | _ => True

/-- A pool in which all workers have exited has executed the promised tasks. -/
lemma Promised.executed (h : Promised p m) (hexited : ∀ i < p.workerNum, m.worker i = .exited)
    {t : ℕ} (ht : t < m.promised) : t ∈ m.executed :=
  (h t ht).resolve_right fun hdue => not_inReach hexited t hdue.2

/-- One step of a call that meets the condition.

**Proof sketch.** One case for each step of a call. A task that is pushed goes behind what is in
its queue, and null tasks are pushed behind all tasks, one for each worker, since no other `join`
has pushed any. -/
theorem act_promised {s : State Memory Stage} {i : ℕ} {m' : Memory} {l l' : Stage} {a : Action}
    (hu : p.untilEmpty = true) (hC : Orderly p s (.act i a)) (hi : s.threads[i]? = some l)
    (hl : Knows p s.shared l) (h : Promised p s.shared) (hkept : Kept s.shared l)
    (ha : act p s.shared l a = some (m', l')) : Promised p m' ∧ Kept m' l' := by
  cases acts_of_act ha with
  | callSubmit | callStop => exact ⟨h, Nat.zero_le _, nofun⟩
  | callJoin => exact ⟨hC, le_rfl, nofun⟩
  | search hs hl' =>
    refine ⟨h, ?_, ?_⟩
    · rcases hl' with hl' | rfl
      · cases l' <;> first | exact absurd hl' Bool.false_ne_true | exact Nat.zero_le _
      · exact Nat.zero_le _
    · rintro k rfl
      rcases hl' with hl' | hl'
      · cases hl'
      · cases hl'
        exact nofun
  | push q =>
    refine ⟨fun t ht => ?_, Nat.zero_le _, ?_⟩
    · exact (h t ht).imp id fun hdue => ⟨hdue.1, hdue.2.push q _⟩
    · rintro k hk
      cases hk
      exact nofun
  | stopAgain _ =>
    refine ⟨h, Nat.zero_le _, ?_⟩
    rintro k hk
    cases hk
    exact nofun
  | stop hd => exact ⟨fun t ht => .inl (hC hi hd t ht), Nat.zero_le _, nofun⟩
  | joinAgain hd k =>
    refine ⟨h, hkept.1, ?_⟩
    rintro _ hk t ht
    cases hk
    exact (h t (ht.trans_le hkept.1)).executed hd
  | join _ _ k => exact ⟨h, hkept.1, nofun⟩
  | hurry hnot k => exact absurd (hnot.symm.trans hu) Bool.false_ne_true
  | mark k => exact absurd (hl.symm.trans hu) Bool.false_ne_true
  | fill how x todo =>
    refine ⟨fun t ht => ?_, ?_, nofun⟩
    · cases x with
      | setFlag j => exact h t ht
      | pushNull q => exact (h t ht).imp id fun hdue => ⟨hdue.1, hdue.2.push q none⟩
    · cases x <;> exact hkept.1
  | filled how => exact ⟨h, hkept.1, nofun⟩
  | lock how => exact ⟨h, hkept.1, nofun⟩
  | skip how _ => exact ⟨h, hkept.1, nofun⟩
  | await how _ => exact ⟨h, hkept.1, nofun⟩
  | awaited how _ => exact ⟨h, hkept.1, nofun⟩
  | finish how x todo =>
    refine ⟨fun t ht => .inl ?_, ?_, nofun⟩
    · cases x <;> exact h.executed hl ht
    · cases x <;> exact hkept.1
  | finished how =>
    refine ⟨h, hkept.1, ?_⟩
    rintro _ hk t ht
    cases hk
    exact h.executed hl (ht.trans_le hkept.1)

/-- A step of a worker leaves a task due.

**Proof sketch.** One case for each step of a worker. The task that it executes is executed, and
the others stay where they were. -/
theorem Due.work {m' : Memory} {t i : ℕ} (h : Due p m t) (hw : work p m i = some m') :
    Due p m' t := by
  cases works_of_work hw with
  | move hi hold hnew =>
    refine h.imp id fun hdue => ⟨hdue.1, hdue.2.setWorker hi ?_ ?_⟩
    · rcases hold with hold | hold <;> simp [hold]
    · rcases hold with hold | hold <;> rcases hnew with rfl | rfl <;> rw [hold] <;> rfl
  | leave hi hold hd => exact .inl (h.executed hd)
  | null hi hold hq => exact h.imp id fun hdue => ⟨hdue.1, hdue.2.pop hi hold hq nofun⟩
  | take hi hold hq =>
    refine h.imp id fun hdue => ⟨hdue.1, hdue.2.pop hi hold hq fun u hu => ?_⟩
    cases hu
    rfl
  | @execute u hi hold =>
    by_cases hut : t = u
    · subst hut
      exact .inl (List.mem_append_right _ (List.mem_singleton_self t))
    · exact h.imp (List.mem_append_left _) fun hdue => ⟨hdue.1, hdue.2.execute hi hold hut⟩
  | ending hi hold =>
    refine h.imp id fun hdue => ⟨hdue.1, ?_⟩
    exact hdue.2.setWorker hi (by simp [hold]) (by rw [hold]; rfl)

/-- A step of a worker submits and promises nothing. -/
lemma work_submitted {m' : Memory} {i : ℕ} (hw : work p m i = some m') :
    m'.submitted = m.submitted ∧ m'.promised = m.promised ∧ m'.done = m.done := by
  cases works_of_work hw <;> exact ⟨rfl, rfl, rfl⟩

/-- A step of a worker leaves the lock of the caller. -/
lemma work_locked {m' : Memory} {i : ℕ} (hw : work p m i = some m') : m'.locked = m.locked := by
  cases works_of_work hw <;> rfl

/-- One step of a worker. -/
theorem work_promised {m' : Memory} {i : ℕ} (h : Promised p m) (hw : work p m i = some m') :
    Promised p m' := by
  intro t ht
  rw [(work_submitted hw).2.1] at ht
  exact (h t ht).work hw

/-- One step of the whole that meets the condition. -/
theorem step_promised {s t : State Memory Stage} {e : Event Action ℕ} (hu : p.untilEmpty = true)
    (hsound : Sound p s.shared ∧ ∀ l ∈ s.threads, Knows p s.shared l)
    (h : Promised p s.shared ∧ ∀ l ∈ s.threads, Kept s.shared l) (hC : Orderly p s e)
    (hstep : (system p).step s e = some t) :
    Promised p t.shared ∧ ∀ l ∈ t.threads, Kept t.shared l := by
  refine Program.step_rely (I := Promised p) (Q := Kept) (R := Rely p) h ?_ ?_ ?_ ?_ hstep
  · exact ⟨Nat.zero_le _, nofun⟩
  · rintro i a l m l' rfl hi hkept ha
    have hknows := hsound.2 l (List.mem_of_getElem? hi)
    obtain ⟨hpromised, hkept'⟩ := act_promised hu hC hi hknows h.1 hkept ha
    exact ⟨hpromised, hkept', (act_sound hsound.1 hknows ha).2.2⟩
  · intro i m _ hw
    exact ⟨work_promised h.1 hw, (work_sound hsound.1 hw).2⟩
  · rintro m l hR ⟨hpromised, hexited⟩
    exact ⟨hpromised.trans hR.promised, fun k hk t ht => hR.executed t (hexited k hk t ht)⟩

/-! ## One call of `join` -/

/-- A call in a pool that nobody ends: one of `submit` chooses the queue of a worker. -/
def Submits (p : Pool) : Stage → Prop
  | .start | .submit => True
  | .scan _ index _ => p.kind = .multi ∧ index < p.workerNum
  | .size i index _ => p.kind = .multi ∧ i < p.workerNum ∧ index < p.workerNum
  | .push q => ∃ i < p.workerNum, p.queueOf i = q
  | .returned k => k = 0
  | _ => False

/-- A pool that nobody ends: all workers are in their loops, there are no sentinels, and every
submitted task is due. -/
structure Fresh (p : Pool) (m : Memory) : Prop where
  done : m.done = false
  live : ∀ i < p.workerNum, (m.worker i).isLive = true
  nulls : ∀ q, none ∉ m.queue q
  due : ∀ t < m.submitted, Due p m t

/-- A new task is due.

**Proof sketch.** The task is behind the others in its queue, and no null task is before it. -/
lemma Fresh.submit (h : Fresh p m) {i : ℕ} (hi : i < p.workerNum) :
    Fresh p (m.submit (p.queueOf i)) := by
  have hqueue : (m.submit (p.queueOf i)).queue (p.queueOf i) =
      m.queue (p.queueOf i) ++ [some m.submitted] := Function.update_self ..
  have hnulls : ∀ q, none ∉ (m.submit (p.queueOf i)).queue q := by
    intro q
    by_cases hq : q = p.queueOf i
    · subst hq
      rw [hqueue]
      simpa using h.nulls (p.queueOf i)
    · have hother : (m.submit (p.queueOf i)).queue q = m.queue q := Function.update_of_ne hq ..
      rw [hother]
      exact h.nulls q
  refine ⟨h.done, h.live, hnulls, fun t ht => ?_⟩
  rcases Nat.lt_succ_iff_lt_or_eq.1 ht with ht | rfl
  · exact (h.due t ht).imp id fun hdue => ⟨hdue.1, hdue.2.push _ _⟩
  · refine .inr ⟨h.done, .inr ⟨p.queueOf i, ?_, ?_⟩⟩
    · rw [hqueue]
      exact List.mem_append_right _ (List.mem_singleton_self _)
    · have hahead : ahead m.submitted ((m.submit (p.queueOf i)).queue (p.queueOf i)) = 0 :=
        List.count_eq_zero.2 fun hmem => hnulls _ ((List.takeWhile_sublist _).subset hmem)
      rw [hahead]
      exact live_pos (m := m) hi (h.live i hi)

/-- A step of a call of `submit` in such a pool.

**Proof sketch.** One case for each action that is left, with the stages of `submit`: it finds the
pool not done, looks for a queue, and pushes its task there. -/
lemma act_fresh {m' : Memory} {l l' : Stage} {a : Action} (h : Fresh p m) (hl : Submits p l)
    (hstop : a ≠ .stop) (hjoin : a ≠ .join) (ha : act p m l a = some (m', l')) :
    Fresh p m' ∧ Submits p l' := by
  cases a with
  | stop => exact absurd rfl hstop
  | join => exact absurd rfl hjoin
  | submit =>
    cases acts_of_act ha with
    | callSubmit => exact ⟨h, trivial⟩
  | go =>
    cases l with
    | start => cases ha
    | submit =>
      cases ha
      rw [h.done]
      refine ⟨h, ?_⟩
      cases hk : p.kind with
      | central => exact ⟨0, p.workerNum_pos, by simp [Pool.queueOf, hk]⟩
      | multi => exact ⟨hk, p.workerNum_pos⟩
    | scan i index minCount =>
      cases ha
      refine ⟨h, ?_⟩
      unfold scan
      split
      · exact ⟨index, hl.2, by simp [Pool.queueOf, hl.1]⟩
      · split
        · exact hl
        · exact ⟨hl.1, not_le.1 ‹_›, hl.2⟩
    | size i index minCount =>
      cases ha
      refine ⟨h, ?_⟩
      simp only [size]
      split
      · exact ⟨i, hl.2.1, by simp [Pool.queueOf, hl.1]⟩
      · split
        · exact ⟨hl.1, hl.2.1⟩
        · exact ⟨hl.1, hl.2.2⟩
    | push q =>
      cases ha
      obtain ⟨i, hi, rfl⟩ := hl
      exact ⟨h.submit hi, rfl⟩
    | returned k => cases ha
    | stop | join | mark | fill | lock | await | finish => exact hl.elim

/-- A step of a worker in such a pool.

**Proof sketch.** One case for each step of a worker. As `m_done` is not set and there are no null
tasks, it stays in its loop. -/
lemma work_fresh {m' : Memory} {i : ℕ} (h : Fresh p m) (hw : work p m i = some m') :
    Fresh p m' := by
  obtain ⟨hsubmitted, -, hdone⟩ := work_submitted hw
  have hdue : ∀ t < m'.submitted, Due p m' t := by
    intro t ht
    rw [hsubmitted] at ht
    exact (h.due t ht).work hw
  have hlive : ∀ w : Worker, w.isLive = true → ∀ j < p.workerNum,
      (Function.update m.worker i w j).isLive = true := by
    intro w hw j hj
    by_cases hji : j = i
    · rw [hji, Function.update_self]
      exact hw
    · rw [Function.update_of_ne hji]
      exact h.live j hj
  cases works_of_work hw with
  | @move w hi hold hnew =>
    refine ⟨h.done, hlive w ?_, h.nulls, hdue⟩
    rcases hnew with rfl | rfl <;> rfl
  | leave hi hold hd => exact absurd (h.done.symm.trans hd) Bool.false_ne_true
  | @null rest hi hold hq =>
    refine absurd ?_ (h.nulls (p.queueOf i))
    rw [hq]
    exact List.mem_cons_self
  | @take t rest hi hold hq =>
    refine ⟨h.done, hlive _ rfl, fun q hmem => ?_, hdue⟩
    by_cases hqi : q = p.queueOf i
    · subst hqi
      have hrest : none ∈ rest := by simpa [Memory.setWorker, Memory.setQueue] using hmem
      refine h.nulls (p.queueOf i) ?_
      rw [hq]
      exact List.mem_cons_of_mem _ hrest
    · exact h.nulls q (by simpa [Memory.setWorker, Memory.setQueue, hqi] using hmem)
  | execute hi hold => exact ⟨h.done, hlive _ rfl, h.nulls, hdue⟩
  | ending hi hold =>
    have hdead := h.live i hi
    rw [hold] at hdead
    exact absurd hdead Bool.false_ne_true

/-- One step of the whole, while nobody ends the pool. -/
lemma step_fresh {s t : State Memory Stage} {e : Event Action ℕ}
    (h : Fresh p s.shared ∧ ∀ l ∈ s.threads, Submits p l) (hstop : ∀ i, e ≠ .act i .stop)
    (hjoin : ∀ i, e ≠ .act i .join) (hstep : (system p).step s e = some t) :
    Fresh p t.shared ∧ ∀ l ∈ t.threads, Submits p l := by
  refine Program.step_rely (I := Fresh p) (Q := fun _ => Submits p) (R := fun _ _ => True) h
    ?_ ?_ ?_ ?_ hstep
  · trivial
  · rintro i a l m l' rfl _ hl ha
    obtain ⟨hfresh, hsubmits⟩ := act_fresh h.1 hl (fun heq => hstop i (heq ▸ rfl))
      (fun heq => hjoin i (heq ▸ rfl)) ha
    exact ⟨hfresh, hsubmits, trivial⟩
  · intro i m _ hw
    exact ⟨work_fresh h.1 hw, trivial⟩
  · exact fun _ _ _ hl => hl

/-- Without a call of `stop` no call is in `stop`. -/
lemma step_noStop {s t : State Memory Stage} {e : Event Action ℕ} (h : .stop ∉ s.threads)
    (hstop : ∀ i, e ≠ .act i .stop) (hstep : (system p).step s e = some t) : .stop ∉ t.threads := by
  cases Program.steps_of_step hstep with
  | spawn =>
    rw [List.mem_append, not_or]
    exact ⟨h, by simp [program]⟩
  | @act i a l l' m hl ha =>
    intro hmem
    rcases List.mem_or_eq_of_mem_set hmem with hmem | rfl
    · exact h hmem
    · cases acts_of_act ha with
      | callStop => exact hstop i rfl
      | search hs hl' =>
        rcases hl' with hl' | hl'
        · exact Bool.false_ne_true hl'
        · cases hl'
  | env he => exact h

/-- The event is a call of `join`. -/
def isJoin : Event Action ℕ → Bool
  | .act _ .join => true
  | _ => false

/-- A run without calls of `stop` and with at most one call of `join` meets the condition.

**Proof sketch.** By induction on the events. Up to the call of `join` the pool is fresh, so the
condition holds when `join` comes; after it there is no further call that the condition asks
about. -/
theorem orderly_of_one_join {es : List (Event Action ℕ)} (hstop : ∀ i, .act i .stop ∉ es)
    (hjoin : es.countP isJoin ≤ 1) : (system p).Along (Orderly p) es := by
  suffices hfrom : ∀ s : State Memory Stage, .stop ∉ s.threads →
      (es.countP isJoin = 0 ∨ Fresh p s.shared ∧ ∀ l ∈ s.threads, Submits p l) →
      (system p).AlongFrom (Orderly p) s es by
    have hfresh : Fresh p Memory.init := ⟨rfl, fun _ _ => rfl, fun _ => List.not_mem_nil,
      fun t ht => absurd ht (Nat.not_lt_zero t)⟩
    exact hfrom _ List.not_mem_nil (.inr ⟨hfresh, List.forall_mem_nil _⟩)
  induction es with
  | nil => exact fun _ _ _ => trivial
  | cons e es ih =>
    intro s hnone hcase
    have hstop' : ∀ i, e ≠ .act i .stop := fun i heq => hstop i (heq ▸ List.mem_cons_self)
    have hrest : ∀ i, .act i .stop ∉ es := fun i hmem => hstop i (List.mem_cons_of_mem _ hmem)
    rw [List.countP_cons] at hjoin hcase
    refine ⟨?_, fun t hstep => ih hrest (by omega) t (step_noStop hnone hstop' hstep) ?_⟩
    · cases e with
      | spawn | env => trivial
      | act i a =>
        cases a with
        | submit => trivial
        | stop => exact absurd rfl (hstop' i)
        | join =>
          rcases hcase with hzero | hfresh
          · simp [isJoin] at hzero
          · exact hfresh.1.due
        | go => exact fun hget => absurd (List.mem_of_getElem? hget) hnone
    · by_cases he : isJoin e = true
      · rw [if_pos he] at hjoin
        exact .inl (by omega)
      · rcases hcase with hzero | hfresh
        · exact .inl (by omega)
        · refine .inr (step_fresh hfresh hstop' ?_ hstep)
          rintro i rfl
          exact he rfl

/-- **The tasks of a pool.** In every run each task is executed at most once, and no worker is
blocked. If the pool runs until it is empty and the steps of the run meet the condition, a call of
`join` that has returned has executed the tasks that were submitted before it, each exactly once.

**Proof sketch.** A promised task is due in every state. A worker that takes a sentinel leaves one
sentinel less before the task and one worker less, so that it stays in reach; and when all workers
are over, which is what `join` waits for, no task is in reach. -/
theorem tasks_executed {s : State Memory Stage} {es : List (Event Action ℕ)}
    (hrun : (system p).run es = some s) :
    (∀ t, s.shared.executed.count t + atWork p s.shared t ≤ 1) ∧ (∀ i, ¬ Blocked p s i) ∧
    (p.untilEmpty = true → (system p).Along (Orderly p) es →
      ∀ k, .returned k ∈ s.threads → ∀ t < k, s.shared.executed.count t = 1) := by
  refine ⟨executed_once hrun, not_blocked hrun, ?_⟩
  intro hu hC k hk t ht
  have hkept := (System.run_invariant_along
    (I := fun s => (Sound p s.shared ∧ ∀ l ∈ s.threads, Knows p s.shared l) ∧
      Promised p s.shared ∧ ∀ l ∈ s.threads, Kept s.shared l)
    ⟨⟨sound_init, List.forall_mem_nil _⟩, fun t ht => absurd ht (Nat.not_lt_zero t),
      List.forall_mem_nil _⟩
    (fun s e t h hC hstep => ⟨step_sound h.1 hstep, step_promised hu h.1 h.2 hC hstep⟩)
    hC hrun).2.2
  have hmem : t ∈ s.shared.executed := (hkept _ hk).2 k rfl t ht
  have honce := executed_once hrun t
  have hpos := List.count_pos_iff.2 hmem
  omega

/-- A pool with one worker. -/
def onePool (kind : Kind) : Pool := ⟨kind, 1, true, Nat.one_pos⟩

/-- Some steps of a call. -/
def steps (i k : ℕ) : List (Event Action ℕ) := List.replicate k (.act i .go)

/-- A task is submitted, `join` is called, and the worker executes the task. -/
def oneJoin : List (Event Action ℕ) :=
  [.spawn, .spawn, .act 0 .submit] ++ steps 0 2 ++ [.act 1 .join] ++ steps 1 3 ++
    [.env 0, .env 0, .env 0, .env 0, .env 0] ++ steps 1 7

/-- The task was executed when `join` has returned. -/
theorem tasks_executed_one : ∃ s, (system (onePool .central)).run oneJoin = some s ∧
    .returned 1 ∈ s.threads ∧ s.shared.executed.count 0 = 1 := by
  have horderly : (system (onePool .central)).Along (Orderly (onePool .central)) oneJoin :=
    orderly_of_one_join (by simp [oneJoin, steps]) (by decide)
  refine ⟨_, rfl, ?_, ?_⟩
  · decide
  · exact (tasks_executed (rfl : (system (onePool .central)).run oneJoin = some _)).2.2 rfl
      horderly 1 (by decide) 0 Nat.one_pos

/-- A call of `join` pushes its sentinels, a task is submitted, and a second call of `join` begins.
The worker takes a sentinel, and both calls return. The numbers are those of the steps that the
parts of the two functions take. -/
def twoJoins (fill submit take finish : ℕ) : List (Event Action ℕ) :=
  [.spawn, .spawn, .spawn, .act 0 .join] ++ steps 0 fill ++ [.act 1 .submit] ++ steps 1 submit ++
    [.act 2 .join] ++ steps 2 fill ++ List.replicate take (.env 0) ++ steps 0 finish ++
    steps 2 finish

/-- In both classes the second call has returned, and the task was not executed. -/
theorem task_lost :
    (∃ s, (system (onePool .central)).run (twoJoins 3 2 2 7) = some s ∧
      .returned 1 ∈ s.threads ∧ s.shared.submitted = 1 ∧ s.shared.executed.count 0 = 0) ∧
    ∃ s, (system (onePool .multi)).run (twoJoins 2 5 3 6) = some s ∧
      .returned 1 ∈ s.threads ∧ s.shared.submitted = 1 ∧ s.shared.executed.count 0 = 0 :=
  ⟨⟨_, rfl, by decide, rfl, by decide⟩, ⟨_, rfl, by decide, rfl, by decide⟩⟩

end HkuUtils.ThreadPool
