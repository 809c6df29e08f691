import HkuUtils.MQStealPool.Model

set_option relaxedAutoImplicit false
set_option autoImplicit false

/-!
# Recursive submissions

A task that is submitted by a task of a worker should be put in front of the queue of this worker,
so that the worker goes depth first through its own submissions. `submit` does so only when the flag
of the worker is set, and then the worker executes no task any more. All other tasks are given to
the queues in turn, at the back.

## Main definitions

* `HkuUtils.MQStealPool.Fronted`, `Newest`, `DepthFirst` — what a step should do.
* `HkuUtils.MQStealPool.OwnTurn` — the condition on a step.
* `HkuUtils.MQStealPool.Sound` — what holds of a pool.
* `HkuUtils.MQStealPool.Stacked` — the own tasks of a worker are in front of the others, the newest
  one first.

## Main results

* `HkuUtils.MQStealPool.step_sound`, `step_stacked` — one step.
* `HkuUtils.MQStealPool.recursion_is_stack`, `recursion_is_queue` — when the worker goes depth
  first, and a run in which it does not.
-/

namespace HkuUtils.MQStealPool

open Threads Transition

variable {p : Pool} {m m' : Memory}

/-! ## What a step should do -/

/-- A task that the task of a worker without a set flag submits is put in front of the queue of this
worker. -/
def Fronted (p : Pool) (s : State Memory Stage) : Event Action Tick → Prop
  | .env (.work i) => s.shared.flag i = false → ∀ m, work p s.shared i = some m →
    m.submitted ≠ s.shared.submitted → (m.queue i).head? = some (some s.shared.submitted)
  | _ => True

/-- A worker that takes an item from its own queue takes the newest of its own tasks, if there is
one. -/
def Newest (s : State Memory Stage) : Event Action Tick → Prop
  | .env (.work i) => s.shared.worker i = .popLocal ∨ s.shared.worker i = .waiting →
    ∀ item rest, s.shared.queue i = item :: rest →
      ∀ v, some v ∈ s.shared.queue i → s.shared.origin v = some i →
        ∃ u, item = some u ∧ s.shared.origin u = some i ∧ v ≤ u
  | _ => True

/-- The recursive submissions are a stack. -/
def DepthFirst (p : Pool) (s : State Memory Stage) (e : Event Action Tick) : Prop :=
  Fronted p s e ∧ Newest s e

/-- The task of the worker is about to push a task at the back of a queue. -/
def Worker.pushes : Worker → Bool
  | .running _ (some .push) => true
  | _ => false

/-- The condition on a step. When the task of a worker pushes a task, it is the turn of the queue of
this worker, and the queue is empty. -/
def OwnTurn (s : State Memory Stage) : Event Action Tick → Prop
  | .env (.work i) => (s.shared.worker i).pushes = true →
    s.shared.current = i ∧ s.shared.queue i = []
  | _ => True

instance (s : State Memory Stage) : ∀ e, Decidable (OwnTurn s e)
  | .env (.work _) => inferInstanceAs (Decidable (_ → _ ∧ _))
  | .spawn | .act _ _ | .env (.submit _) => inferInstanceAs (Decidable True)

/-! ## What holds of a pool -/

/-- The tasks in the queues were submitted, and a worker whose flag is set executes none. -/
structure Sound (m : Memory) : Prop where
  numbered : ∀ q t, some t ∈ m.queue q → t < m.submitted
  flagged : ∀ i, m.flag i = true → m.worker i = .top ∨ m.worker i = .exited

/-- A worker goes on, with the tasks that were in the queues. -/
lemma Sound.same (h : Sound m) {i : ℕ} {w : Worker} (hflag : m'.flag = m.flag)
    (hworker : m'.worker = Function.update m.worker i w)
    (hw : m.flag i = true → w = .top ∨ w = .exited)
    (hqueue : ∀ q t, some t ∈ m'.queue q → some t ∈ m.queue q)
    (hsubmitted : m'.submitted = m.submitted) : Sound m' := by
  refine ⟨fun q t ht => ?_, fun j hj => ?_⟩
  · rw [hsubmitted]
    exact h.numbered q t (hqueue q t ht)
  · rw [hflag] at hj
    rw [hworker]
    by_cases hji : j = i
    · subst hji
      rw [Function.update_self]
      exact hw hj
    · rw [Function.update_of_ne hji]
      exact h.flagged j hj

/-- A new task at the front or at the back of a queue. -/
lemma Sound.push (h : Sound m) (q : ℕ) {items : List (Option ℕ)} (who : Option ℕ)
    (hitems : ∀ t, some t ∈ items → some t ∈ m.queue q ∨ t = m.submitted) :
    Sound ((m.setQueue q items).count who) := by
  refine ⟨fun r t ht => ?_, h.flagged⟩
  show t < m.submitted + 1
  by_cases hr : r = q
  · subst hr
    have hmem : some t ∈ items := by simpa [Memory.setQueue, Memory.count] using ht
    rcases hitems t hmem with hold | rfl
    · exact Nat.lt_succ_of_lt (h.numbered r t hold)
    · exact Nat.lt_succ_self _
  · have hmem : some t ∈ m.queue r := by
      simpa [Memory.setQueue, Memory.count, Function.update_of_ne hr] using ht
    exact Nat.lt_succ_of_lt (h.numbered r t hmem)

/-- Items that were in the queue, or null tasks. -/
lemma Sound.setQueue (h : Sound m) (q : ℕ) {items : List (Option ℕ)}
    (hitems : ∀ t, some t ∈ items → some t ∈ m.queue q) : Sound (m.setQueue q items) := by
  refine ⟨fun r t ht => ?_, h.flagged⟩
  by_cases hr : r = q
  · subst hr
    have hmem : some t ∈ items := by simpa [Memory.setQueue] using ht
    exact h.numbered r t (hitems t hmem)
  · exact h.numbered r t (by simpa [Memory.setQueue, Function.update_of_ne hr] using ht)

/-- A step of `submit`. -/
lemma Sound.submits (h : Sound m) {who : Option ℕ} {c : Submit} {c' : Option Submit}
    (hs : Submits p m who c m' c') : Sound m' := by
  cases hs with
  | throws | front | back | wrap => exact h
  | goOn | advance | reset => exact ⟨h.numbered, h.flagged⟩
  | pushFront =>
    refine h.push _ _ fun t ht => ?_
    simpa [or_comm, eq_comm] using ht
  | push =>
    refine h.push _ _ fun t ht => ?_
    simpa [eq_comm] using ht

/-- `submit` changes no worker and no flag. -/
lemma submits_worker {who : Option ℕ} {c : Submit} {c' : Option Submit}
    (hs : Submits p m who c m' c') : m'.worker = m.worker ∧ m'.flag = m.flag := by
  cases hs <;> exact ⟨rfl, rfl⟩

/-- A worker that executes a task has no set flag. -/
lemma Sound.flag_eq_false (h : Sound m) {i : ℕ} (htop : m.worker i ≠ .top)
    (hexited : m.worker i ≠ .exited) : m.flag i = false := by
  by_contra hflag
  rcases h.flagged i (Bool.not_eq_false _ ▸ hflag) with hw | hw
  · exact htop hw
  · exact hexited hw

/-- A worker takes an item. -/
lemma Sound.pop (h : Sound m) {i q : ℕ} {item : Option ℕ} {rest : List (Option ℕ)}
    (hflag : m.flag i = false) (hrest : ∀ x ∈ rest, x ∈ m.queue q) :
    Sound (MQStealPool.pop m i q item rest) := by
  refine (h.setQueue q fun t ht => hrest _ ht).same (i := i) (w := afterPop item) rfl rfl ?_
    (fun _ _ => id) rfl
  intro hset
  exact absurd (hflag.symm.trans hset) Bool.false_ne_true

/-- A step of a worker.

**Proof sketch.** One case for each step. A worker that is in its loop has not taken a null task,
so setting its place keeps the rest; the steps that take or push a task are traced one by one. -/
theorem Sound.works (h : Sound m) {i : ℕ} (hw : Works p m i m') : Sound m' := by
  have hset : ∀ {w : Worker}, m.worker i ≠ .top → m.worker i ≠ .exited →
      Sound (m.setWorker i w) := by
    intro w htop hexited
    refine h.same (i := i) (w := w) rfl rfl ?_ (fun _ _ => id) rfl
    intro hflag
    exact absurd ((h.flag_eq_false htop hexited).symm.trans hflag) Bool.false_ne_true
  cases hw with
  | test hi hold hf =>
    refine h.same (i := i) (w := .second) rfl rfl ?_ (fun _ _ => id) rfl
    intro hflag
    exact absurd (hf.symm.trans hflag) Bool.false_ne_true
  | leave hi hold =>
    exact h.same (i := i) (w := .exited) rfl rfl (fun _ => .inr rfl) (fun _ _ => id) rfl
  | enter hi hold hd => exact hset (by simp [hold]) (by simp [hold])
  | search hi hold hw =>
    refine hset ?_ ?_
    · rcases hold with hold | ⟨k, hold⟩ <;> simp [hold]
    · rcases hold with hold | ⟨k, hold⟩ <;> simp [hold]
  | @pop item rest hi hold hq =>
    refine h.pop (h.flag_eq_false ?_ ?_) fun x hx => hq ▸ List.mem_cons_of_mem _ hx
    · rcases hold with hold | hold <;> simp [hold]
    · rcases hold with hold | hold <;> simp [hold]
  | stolen hi hold hne hq =>
    exact h.pop (h.flag_eq_false (by simp [hold]) (by simp [hold])) fun x hx =>
      List.mem_of_mem_dropLast hx
  | execute hi hold =>
    exact h.same (i := i) (w := .top) rfl rfl (fun _ => .inl rfl) (fun _ _ => id) rfl
  | submit hi hold hs =>
    obtain ⟨hworker, hflag⟩ := submits_worker hs
    refine (h.submits hs).same (i := i) rfl rfl ?_ (fun _ _ => id) rfl
    rw [hflag, h.flag_eq_false (by simp [hold]) (by simp [hold])]
    exact fun hset => absurd hset Bool.false_ne_true
  | ending hi hold =>
    refine ⟨h.numbered, fun j hj => ?_⟩
    show Function.update m.worker i .top j = .top ∨ Function.update m.worker i .top j = .exited
    by_cases hji : j = i
    · subst hji
      rw [Function.update_self]
      exact .inl rfl
    · rw [Function.update_of_ne hji]
      have hold' : m.flag j = true := by
        simpa [Memory.setWorker, Memory.setFlag, Function.update_of_ne hji] using hj
      exact h.flagged j hold'

/-- A flag that is set is set again. -/
lemma setFlag_of_flag {i : ℕ} (h : m.flag i = true) : m.setFlag i = m := by
  have hflag : Function.update m.flag i true = m.flag := by
    rw [← h]
    exact Function.update_eq_self i m.flag
  rw [Memory.setFlag, hflag]

/-- A step of the first part of `stop` and `join` sets no flag. -/
lemma fill_eq (x : Fill) : x.run m = m ∨ ∃ i, x.run m = m.push i none := by
  cases x with
  | flag i =>
    left
    rw [Fill.run]
    split
    · exact setFlag_of_flag ‹_›
    · rfl
  | push i => exact .inr ⟨i, rfl⟩

/-- A step of a call. -/
theorem Sound.acts (h : Sound m) {l l' : Stage} {a : Action} (ha : Acts p m l a m' l') :
    Sound m' := by
  cases ha with
  | callSubmit | callStop | callJoin | stop | join | filled | skip | awaited | finished => exact h
  | submit hs => exact h.submits hs
  | joinMark | await => exact ⟨h.numbered, h.flagged⟩
  | fill how x todo =>
    rcases fill_eq (m := m) x with hx | ⟨i, hx⟩
    · rw [hx]
      exact h
    · rw [hx]
      refine h.setQueue i fun t ht => ?_
      simpa using ht
  | finish how x todo =>
    cases x with
    | setDone => exact ⟨h.numbered, h.flagged⟩
    | clear i => exact h.setQueue i fun t ht => absurd ht List.not_mem_nil

/-- **One step keeps what holds of a pool.** -/
theorem step_sound {s t : State Memory Stage} {e : Event Action Tick} (h : Sound s.shared)
    (hstep : (system p).step s e = some t) : Sound t.shared := by
  cases Program.steps_of_step hstep with
  | spawn => exact h
  | act hl ha => exact h.acts (acts_of_act ha)
  | env he =>
    cases ticks_of_tick he with
    | work hw => exact h.works hw
    | @submit i t hi hold =>
      refine h.same (i := i) rfl rfl ?_ (fun _ _ => id) rfl
      rw [h.flag_eq_false (by simp [hold]) (by simp [hold])]
      exact fun hset => absurd hset Bool.false_ne_true

/-! ## The own tasks of a worker -/

/-- An own task of the worker comes only after newer ones. -/
def Before (origin : ℕ → Option ℕ) (i : ℕ) (x y : Option ℕ) : Prop :=
  ∀ v, y = some v → origin v = some i → ∃ u, x = some u ∧ origin u = some i ∧ v ≤ u

/-- In the queue of a worker its own tasks are in front of the others, the newest one first. -/
def Stacked (m : Memory) : Prop := ∀ i, (m.queue i).Pairwise (Before m.origin i)

/-- Nothing was added to a queue. -/
lemma Stacked.sublist (h : Stacked m) (horigin : m'.origin = m.origin)
    (hqueue : ∀ i, (m'.queue i).Sublist (m.queue i)) : Stacked m' := by
  intro i
  rw [horigin]
  exact (h i).sublist (hqueue i)

/-- A part of a queue is left. -/
lemma Stacked.setQueue (h : Stacked m) (q : ℕ) {items : List (Option ℕ)}
    (hitems : items.Sublist (m.queue q)) : Stacked (m.setQueue q items) := by
  refine h.sublist rfl fun i => ?_
  by_cases hi : i = q
  · subst hi
    simpa [Memory.setQueue] using hitems
  · simp [Memory.setQueue, Function.update_of_ne hi]

/-- A null task comes after the others. -/
lemma Stacked.pushNull (h : Stacked m) (q : ℕ) : Stacked (m.push q none) := by
  intro i
  by_cases hi : i = q
  · subst hi
    have hqueue : (m.push i none).queue i = m.queue i ++ [none] := by
      simp [Memory.push, Memory.setQueue]
    rw [hqueue, List.pairwise_append]
    refine ⟨h i, List.pairwise_singleton _ _, fun x _ y hy => ?_⟩
    obtain rfl := List.mem_singleton.1 hy
    exact nofun
  · have hqueue : (m.push q none).queue i = m.queue i := by
      simp [Memory.push, Memory.setQueue, Function.update_of_ne hi]
    rw [hqueue]
    exact h i

/-- The tasks in the queues keep their origin when a new one is pushed. -/
lemma Stacked.count (h : Stacked m) (hsound : Sound m) (who : Option ℕ) (i : ℕ) :
    (m.queue i).Pairwise (Before (Function.update m.origin m.submitted who) i) := by
  have hsame : ∀ {t}, some t ∈ m.queue i →
      Function.update m.origin m.submitted who t = m.origin t := fun ht =>
    Function.update_of_ne (hsound.numbered i _ ht).ne ..
  refine (h i).imp_of_mem fun {x y} hx hy hbefore v hv horigin => ?_
  subst hv
  rw [hsame hy] at horigin
  obtain ⟨u, rfl, hu, hle⟩ := hbefore v rfl horigin
  exact ⟨u, rfl, (hsame hx).trans hu, hle⟩

/-- A new task in front of the queue of its worker keeps the order, for it has the greatest number
of all. -/
lemma Stacked.pushFront (h : Stacked m) (hsound : Sound m) (q : ℕ) :
    Stacked ((m.pushFront q (some m.submitted)).count (some q)) := by
  intro i
  have hrest := h.count hsound (some q) i
  by_cases hi : i = q
  · subst hi
    have hqueue : ((m.pushFront i (some m.submitted)).count (some i)).queue i =
        some m.submitted :: m.queue i := by
      simp [Memory.pushFront, Memory.setQueue, Memory.count]
    rw [hqueue, List.pairwise_cons]
    refine ⟨fun y hy v hv _ => ?_, hrest⟩
    subst hv
    exact ⟨m.submitted, rfl, Function.update_self .., (hsound.numbered i v hy).le⟩
  · have hqueue : ((m.pushFront q (some m.submitted)).count (some q)).queue i = m.queue i := by
      simp [Memory.pushFront, Memory.setQueue, Memory.count, Function.update_of_ne hi]
    rw [hqueue]
    exact hrest

/-- A new task at the back of a queue that is empty or is not the one of its worker.

**Proof sketch.** In the queue that gets the task, the tasks before it are not of the worker that
submits, or there are none; the other queues stay. -/
lemma Stacked.push (h : Stacked m) (hsound : Sound m) (q : ℕ) {who : Option ℕ}
    (hwho : who = some q → m.queue q = []) :
    Stacked ((m.push q (some m.submitted)).count who) := by
  intro i
  have hrest := h.count hsound who i
  by_cases hi : i = q
  · subst hi
    have hqueue : ((m.push i (some m.submitted)).count who).queue i =
        m.queue i ++ [some m.submitted] := by
      simp [Memory.push, Memory.setQueue, Memory.count]
    rw [hqueue, List.pairwise_append]
    refine ⟨hrest, List.pairwise_singleton _ _, fun x hx y hy v hv horigin => ?_⟩
    obtain rfl := List.mem_singleton.1 hy
    obtain rfl := Option.some.inj hv
    rw [show ((m.push i (some m.submitted)).count who).origin m.submitted = who from
      Function.update_self ..] at horigin
    rw [hwho horigin] at hx
    cases hx
  · have hqueue : ((m.push q (some m.submitted)).count who).queue i = m.queue i := by
      simp [Memory.push, Memory.setQueue, Memory.count, Function.update_of_ne hi]
    rw [hqueue]
    exact hrest

/-- A step of `submit` by the task of a worker for which it is its own turn, or from outside. -/
lemma Stacked.submits (h : Stacked m) (hsound : Sound m) {who : Option ℕ} {c : Submit}
    {c' : Option Submit} (hs : Submits p m who c m' c')
    (hturn : ∀ i, who = some i → c = .push → m.current = i ∧ m.queue i = []) : Stacked m' := by
  cases hs with
  | throws | front | back | wrap | goOn | advance | reset => exact h
  | pushFront hwho =>
    subst hwho
    exact h.pushFront hsound _
  | push =>
    refine h.push hsound _ fun hwho => ?_
    exact (hturn _ hwho rfl).2

/-- A step of a worker that meets the condition. -/
theorem Stacked.works (h : Stacked m) (hsound : Sound m) {i : ℕ} (hw : Works p m i m')
    (hturn : (m.worker i).pushes = true → m.current = i ∧ m.queue i = []) : Stacked m' := by
  cases hw with
  | test | leave | enter | search | execute | ending => exact h
  | pop hi hold hq => exact h.setQueue i (hq ▸ List.sublist_cons_self _ _)
  | stolen hi hold hne hq => exact h.setQueue _ (List.dropLast_sublist _)
  | @submit t c m₁ c' hi hold hs =>
    have h' : Stacked m₁ := by
      refine h.submits hsound hs ?_
      rintro j hj rfl
      obtain rfl := Option.some.inj hj
      refine hturn ?_
      rw [hold]
      rfl
    exact h'

/-- A step of a call. -/
theorem Stacked.acts (h : Stacked m) (hsound : Sound m) {l l' : Stage} {a : Action}
    (ha : Acts p m l a m' l') : Stacked m' := by
  cases ha with
  | callSubmit | callStop | callJoin | stop | join | filled | skip | awaited | finished | joinMark
  | await => exact h
  | submit hs => exact h.submits hsound hs nofun
  | fill how x todo =>
    rcases fill_eq (m := m) x with hx | ⟨i, hx⟩
    · rw [hx]
      exact h
    · rw [hx]
      exact h.pushNull i
  | finish how x todo =>
    cases x with
    | setDone => exact h
    | clear i => exact h.setQueue i (List.nil_sublist _)

/-- **One step that meets the condition** keeps the own tasks in front. -/
theorem step_stacked {s t : State Memory Stage} {e : Event Action Tick} (hsound : Sound s.shared)
    (h : Stacked s.shared) (hC : OwnTurn s e) (hstep : (system p).step s e = some t) :
    Stacked t.shared := by
  cases Program.steps_of_step hstep with
  | spawn => exact h
  | act hl ha => exact h.acts hsound (acts_of_act ha)
  | env he =>
    cases ticks_of_tick he with
    | work hw => exact h.works hsound hw hC
    | submit => exact h

/-! ## When the recursive submissions are a stack -/

/-- A new task is not among the old ones. -/
lemma Sound.head_ne (h : Sound m) (q : ℕ) : (m.queue q).head? ≠ some (some m.submitted) := by
  intro hhead
  exact lt_irrefl _ (h.numbered q _ (List.mem_of_mem_head? hhead))

/-- A step that puts the task in front meets the condition.

**Proof sketch.** A task that is pushed to the back is not in front, except in an empty queue; the
only step left is that of the worker whose turn it is, onto its own empty queue. -/
lemma ownTurn_of_fronted {s t : State Memory Stage} {e : Event Action Tick}
    (hsound : Sound s.shared) (hfronted : Fronted p s e) (hstep : (system p).step s e = some t) :
    OwnTurn s e := by
  rcases e with - | ⟨-, -⟩ | i | -
  · trivial
  · trivial
  · intro hpushes
    obtain ⟨m', hwork, -⟩ := Option.map_eq_some_iff.1 hstep
    have hwork' : work p s.shared i = some m' := hwork
    cases works_of_work hwork' with
    | @submit t c m₁ c' hi hold hs =>
      have hflag := hsound.flag_eq_false (i := i) (by simp [hold]) (by simp [hold])
      rw [hold] at hpushes
      cases hs with
      | push hcurrent =>
        have hhead := hfronted hflag _ hwork' (Nat.succ_ne_self _)
        by_cases hi' : s.shared.current = i
        · refine ⟨hi', ?_⟩
          cases hq : s.shared.queue i with
          | nil => rfl
          | cons x rest =>
            rw [hi'] at hhead
            simp [Memory.setWorker, Memory.count, Memory.push, Memory.setQueue, hq] at hhead
            refine absurd ?_ (hsound.head_ne i)
            rw [hq, List.head?_cons, hhead]
        · refine absurd ?_ (hsound.head_ne i)
          simpa [Memory.setWorker, Memory.count, Memory.push, Memory.setQueue,
            Function.update_of_ne (Ne.symm hi')] using hhead
      | _ => exact absurd hpushes Bool.false_ne_true
    | test hi hold | enter hi hold | execute hi hold | ending hi hold | stolen hi hold =>
      rw [hold] at hpushes
      exact absurd hpushes Bool.false_ne_true
    | leave hi hold | pop hi hold =>
      rcases hold with hold | hold <;> rw [hold] at hpushes <;>
        exact absurd hpushes Bool.false_ne_true
    | search hi hold =>
      rcases hold with hold | ⟨k, hold⟩ <;> rw [hold] at hpushes <;>
        exact absurd hpushes Bool.false_ne_true
  · trivial

/-- A worker that takes its own items in the order of the queue takes the newest own task first. -/
lemma Stacked.newest {s : State Memory Stage} (h : Stacked s.shared) (e : Event Action Tick) :
    Newest s e := by
  rcases e with - | ⟨-, -⟩ | i | -
  · trivial
  · trivial
  · intro _ item rest hq v hv horigin
    have hpairwise := h i
    rw [hq, List.pairwise_cons] at hpairwise
    rw [hq, List.mem_cons] at hv
    rcases hv with rfl | hv
    · exact ⟨v, rfl, horigin, le_rfl⟩
    · exact hpairwise.1 _ hv v rfl horigin
  · trivial

/-- A step that meets the condition puts the task in front.

**Proof sketch.** A task pushed to the front is in front, and so is one that is pushed to the back
of an empty queue. -/
lemma fronted_of_ownTurn {s : State Memory Stage} {e : Event Action Tick} (hC : OwnTurn s e) :
    Fronted p s e := by
  rcases e with - | ⟨-, -⟩ | i | -
  · trivial
  · trivial
  · intro _ m' hwork hsubmitted
    cases works_of_work hwork with
    | submit hi hold hs =>
      cases hs with
      | pushFront hwho =>
        cases hwho
        simp [Memory.setWorker, Memory.count, Memory.pushFront, Memory.setQueue]
      | push =>
        have hpushes : (s.shared.worker i).pushes = true := by
          rw [hold]
          rfl
        obtain ⟨hcurrent, hq⟩ := hC hpushes
        simp [Memory.setWorker, Memory.count, Memory.push, Memory.setQueue, hcurrent, hq]
      | _ => exact absurd rfl hsubmitted
    | _ => exact absurd rfl hsubmitted
  · trivial

/-- At first there are no tasks. -/
lemma sound_init : Sound Memory.init := ⟨fun _ _ ht => absurd ht List.not_mem_nil, nofun⟩

/-- The steps of a run in which the workers go depth first meet the condition. -/
lemma along_ownTurn {s : State Memory Stage} {es : List (Event Action Tick)}
    (hrun : (system p).run es = some s) (h : (system p).Along (DepthFirst p) es) :
    (system p).Along OwnTurn es :=
  System.along_of_along (I := fun s => Sound s.shared) sound_init
    (fun _ _ _ hsound hD hstep => ⟨step_sound hsound hstep, ownTurn_of_fronted hsound hD.1 hstep⟩)
    hrun h

/-- **When the recursive submissions are a stack.** In every run of a pool with any number of
workers and of calls, every task that is submitted by the task of a worker which is not interrupted
is put in front of the queue of this worker, and the worker then takes from its own queue the newest
of its own tasks first, if and only if, whenever a worker's task pushes a task, it is the turn of
the queue of this worker and the queue is empty.

**Proof sketch.** A worker whose flag is set executes no task (`Sound`), so that `submit` finds the
flag not set and pushes at the back. At the back of the queue whose turn it is, the new task is in
front of the queue of the worker only if this is that queue and it is empty. In this case the own
tasks stay in front, the newest one first (`Stacked`). -/
theorem recursion_is_stack (p : Pool) {s : State Memory Stage} {es : List (Event Action Tick)}
    (hrun : (system p).run es = some s) :
    (system p).Along (DepthFirst p) es ↔ (system p).Along OwnTurn es := by
  refine ⟨along_ownTurn hrun, System.along_of_along
    (I := fun s => Sound s.shared ∧ Stacked s.shared) ⟨sound_init, fun _ => .nil⟩ ?_ hrun⟩
  rintro s e t ⟨hsound, hstacked⟩ hC hstep
  exact ⟨⟨step_sound hsound hstep, step_stacked hsound hstacked hC hstep⟩,
    fronted_of_ownTurn hC, hstacked.newest e⟩

/-- One task is submitted, and it submits another one. -/
def childRun : List (Event Action Tick) :=
  [.spawn, .act 0 .submit] ++ steps 0 5 ++ works 0 3 ++ [.env (.submit 0)] ++ works 0 11

/-- In a pool with one worker the other task is put in the empty queue and executed next. -/
theorem recursion_is_stack_child : (system ⟨1, true⟩).Along (DepthFirst ⟨1, true⟩) childRun := by
  have hrun : ∃ s, (system ⟨1, true⟩).run childRun = some s := ⟨_, rfl⟩
  obtain ⟨s, hs⟩ := hrun
  exact (recursion_is_stack ⟨1, true⟩ hs).2 (by decide)

/-- Two tasks are submitted, and the first one submits another one. -/
def olderRun : List (Event Action Tick) :=
  [.spawn, .act 0 .submit] ++ steps 0 5 ++ [.spawn, .act 1 .submit] ++ steps 1 5 ++ works 0 3 ++
    [.env (.submit 0)] ++ works 0 7 ++ works 0 4 ++ works 0 4

/-- **The worker goes on with an older task**: it executes task `1` of its queue before task `2`,
which its task `0` has submitted. -/
theorem recursion_is_queue : ∃ s, (system ⟨1, true⟩).run olderRun = some s ∧
    s.shared.executed = [0, 1, 2] ∧ s.shared.origin 2 = some 0 ∧
    ¬ (system ⟨1, true⟩).Along (DepthFirst ⟨1, true⟩) olderRun := by
  refine ⟨_, rfl, rfl, rfl, fun h => ?_⟩
  exact absurd (along_ownTurn (s := _) rfl h) (by decide)

end HkuUtils.MQStealPool
