import Mathlib.Algebra.Order.BigOperators.Group.Finset
import HkuUtils.NestedFor.Model
import HkuUtils.Threads

set_option relaxedAutoImplicit false
set_option autoImplicit false

/-!
# The tasks of nested parallel loops

A submitted task is in one queue, or in one frame, or it has ended. The tasks of a call are only
ever in one queue: that of the worker which runs the call, or the master queue. So who finds that
queue empty, and has submitted all tasks, knows that none of them waits to be started.

## Main definitions

* `HkuUtils.NestedFor.places` — in how many places a task is.
* `HkuUtils.NestedFor.Point.Knows` — what is known when a frame is at a point.
* `HkuUtils.NestedFor.Sound` — what holds of the queues and the frames.

## Main results

* `HkuUtils.NestedFor.step_sound`, `run_sound` — one step, and a run.
* `HkuUtils.NestedFor.Sound.settled` — a task that has ended is neither queued nor running.
-/

namespace HkuUtils.NestedFor

open Transition Algorithm Threads

variable {g : Group} {s s' : State} {i : ℕ}

/-! ## Where a task is -/

/-- How many of some frames execute a task. -/
def running (t : ℕ) (frames : List Frame) : ℕ := (frames.map Frame.task).count (some t)

/-- In how many places a task is. -/
def places (g : Group) (s : State) (t : ℕ) : ℕ :=
  s.master.count t + (∑ j ∈ Finset.range g.workerNum, (s.queue j).count t) +
    (∑ j ∈ Finset.range g.threads, running t (s.stack j)) + if s.result t = none then 0 else 1

/-- A task waits to be started. -/
def Queued (s : State) (t : ℕ) : Prop := t ∈ s.master ∨ ∃ j, t ∈ s.queue j

/-- A task is executed by a thread. -/
def RunsIn (s : State) (t j : ℕ) : Prop := ∃ G ∈ s.stack j, G.task = some t

/-- A frame on top of others. -/
lemma running_cons (t : ℕ) (F : Frame) (frames : List Frame) :
    running t (F :: frames) = running t frames + if F.task = some t then 1 else 0 := by
  rw [running, List.map_cons, List.count_cons, running]
  simp only [beq_iff_eq]

/-- A frame that goes on executes what it executed. -/
lemma running_point (t : ℕ) (F : Frame) (point : Point) (frames : List Frame) :
    running t ({ F with point := point } :: frames) = running t (F :: frames) := rfl

/-- The frames below one that has ended execute what they executed. -/
lemma running_below (g : Group) (i t : ℕ) (frames : List Frame) :
    running t (below g i frames) = running t frames := by
  cases frames with
  | nil => rfl
  | cons F frames => rw [below, running_cons, running_cons]

/-- The stack of a thread changes. -/
lemma places_setStack (hi : i < g.threads) (frames : List Frame) (t : ℕ) :
    places g (s.setStack i frames) t + running t (s.stack i) =
      places g s t + running t frames := by
  have hsum := sum_update (fun _ => running t) s.stack hi frames
  show s.master.count t + (∑ j ∈ Finset.range g.workerNum, (s.queue j).count t) +
      (∑ j ∈ Finset.range g.threads, running t (Function.update s.stack i frames j)) +
      (if s.result t = none then 0 else 1) + _ = _
  rw [places]
  omega

/-- The queue of a worker changes. -/
lemma places_setQueue (hi : i < g.workerNum) (items : List ℕ) (t : ℕ) :
    places g (s.setQueue i items) t + (s.queue i).count t = places g s t + items.count t := by
  have hsum := sum_update (fun _ q => List.count t q) s.queue hi items
  show s.master.count t +
      (∑ j ∈ Finset.range g.workerNum, (Function.update s.queue i items j).count t) +
      (∑ j ∈ Finset.range g.threads, running t (s.stack j)) +
      (if s.result t = none then 0 else 1) + _ = _
  rw [places]
  omega

/-- The master queue changes. -/
lemma places_setMaster (items : List ℕ) (t : ℕ) :
    places g (s.setMaster items) t + s.master.count t = places g s t + items.count t := by
  show items.count t + (∑ j ∈ Finset.range g.workerNum, (s.queue j).count t) +
      (∑ j ∈ Finset.range g.threads, running t (s.stack j)) +
      (if s.result t = none then 0 else 1) + _ = _
  rw [places]
  omega

/-- A future becomes ready. -/
lemma places_setResult (task : Option ℕ) (ok : Bool) (t : ℕ) :
    places g (s.setResult task ok) t =
      places g s t + if task = some t ∧ s.result t = none then 1 else 0 := by
  cases task with
  | none => simp [State.setResult]
  | some u =>
    by_cases htu : t = u
    · subst htu
      by_cases hr : s.result t = none <;> simp [places, State.setResult, hr]
    · have hne : ¬ (some u = some t ∧ s.result t = none) := fun h =>
        htu (Option.some.inj h.1).symm
      rw [if_neg hne]
      simp only [places, State.setResult, Function.update_of_ne htu]
      omega

/-- Where a task is found, it is. -/
lemma places_parts (g : Group) (s : State) (t : ℕ) :
    (t ∈ s.master → 1 + (if s.result t = none then 0 else 1) ≤ places g s t) ∧
    (∀ j < g.workerNum, t ∈ s.queue j → 1 + (if s.result t = none then 0 else 1) ≤ places g s t) ∧
    ∀ j < g.threads, RunsIn s t j → 1 + (if s.result t = none then 0 else 1) ≤ places g s t := by
  refine ⟨fun hm => ?_, fun j hj hq => ?_, fun j hj ⟨G, hG, htask⟩ => ?_⟩
  · have := List.count_pos_iff.2 hm
    simp only [places]
    omega
  · have hpos := List.count_pos_iff.2 hq
    have hle := Finset.single_le_sum (f := fun k => (s.queue k).count t)
      (fun _ _ => Nat.zero_le _) (Finset.mem_range.2 hj)
    simp only [places] at hle ⊢
    omega
  · have hpos : 0 < running t (s.stack j) :=
      List.count_pos_iff.2 (List.mem_map.2 ⟨G, hG, htask⟩)
    have hle := Finset.single_le_sum (f := fun k => running t (s.stack k))
      (fun _ _ => Nat.zero_le _) (Finset.mem_range.2 hj)
    simp only [places] at hle ⊢
    omega

/-! ## What a frame knows -/

/-- The tasks of a call were submitted by its thread. -/
def Own (s : State) (i : ℕ) (call : Call) : Prop :=
  ∀ t ∈ call.futures, t < s.submitted ∧ s.home t = i

/-- The futures before some others are ready. -/
def Ready (s : State) (futures todo : List ℕ) : Prop :=
  ∃ got, futures = got ++ todo ∧ ∀ t ∈ got, s.result t ≠ none

/-- No task of a call waits to be started. -/
def Taken (s : State) (call : Call) : Prop := ∀ t ∈ call.futures, ¬ Queued s t

/-- What is known when a call waits. -/
def Wait.Knows (g : Group) (s : State) (i : ℕ) (call : Call) : Wait → Prop
  | .check todo => Ready s call.futures todo
  | .popLocal _ => i < g.workerNum
  | .steal _ _ => Taken s call
  | .popMaster _ => i < g.workerNum → Taken s call
  | .helping _ | .sleep => True

/-- What is known when a frame is at a point. -/
def Point.Knows (g : Group) (s : State) (i : ℕ) : Point → Prop
  | .code _ => True
  | .submit _ _ call => Own s i call
  | .wait w call => Own s i call ∧ w.Knows g s i call
  | .get todo call => Own s i call ∧ Ready s call.futures todo ∧ Taken s call

/-- A frame that executes a task on top of it. -/
def Point.Helps : Point → Prop
  | .wait (.helping _) _ => True
  | _ => False

/-- All frames but the current one wait for the task on top. -/
def Shape : List Frame → Prop
  | [] => True
  | F :: rest => ¬ F.point.Helps ∧ ∀ G ∈ rest, G.point.Helps

/-- What holds of the queues and the frames. -/
structure Sound (g : Group) (s : State) : Prop where
  queue : ∀ j, ∀ t ∈ s.queue j, j < g.workerNum ∧ s.home t = j
  master : ∀ t ∈ s.master, g.workerNum ≤ s.home t
  outside : ∀ j, g.threads ≤ j → s.stack j = []
  shape : ∀ j, Shape (s.stack j)
  knows : ∀ j, ∀ F ∈ s.stack j, F.point.Knows g s j
  places : ∀ t, places g s t = if t < s.submitted then 1 else 0

/-- What other threads may do. -/
structure Grows (s s' : State) : Prop where
  submitted : s.submitted ≤ s'.submitted
  home : ∀ t < s.submitted, s'.home t = s.home t
  result : ∀ t, s.result t ≠ none → s'.result t ≠ none
  queued : ∀ t < s.submitted, Queued s' t → Queued s t

namespace Sound

variable {t : ℕ}

/-- A thread that has a frame is one of the threads. -/
lemma lt_threads (h : Sound g s) (hstack : s.stack i ≠ []) : i < g.threads :=
  Nat.lt_of_not_le fun hle => hstack (h.outside i hle)

/-- A task that is executed was submitted, and has not ended. -/
lemma runsIn (h : Sound g s) (hrun : RunsIn s t i) : t < s.submitted ∧ s.result t = none := by
  have hi : i < g.threads := by
    obtain ⟨G, hG, -⟩ := hrun
    exact h.lt_threads (List.ne_nil_of_mem hG)
  have hle := (places_parts g s t).2.2 i hi hrun
  rw [h.places] at hle
  by_cases ht : t < s.submitted
  · refine ⟨ht, ?_⟩
    by_contra hr
    rw [if_pos ht, if_neg hr] at hle
    omega
  · rw [if_neg ht] at hle
    omega

/-- A task that is queued was submitted, and has not ended. -/
lemma isQueued (h : Sound g s) (hq : Queued s t) : t < s.submitted ∧ s.result t = none := by
  have hle : 1 + (if s.result t = none then 0 else 1) ≤ NestedFor.places g s t := by
    rcases hq with hm | ⟨j, hj⟩
    · exact (places_parts g s t).1 hm
    · exact (places_parts g s t).2.1 j (h.queue j t hj).1 hj
  rw [h.places] at hle
  by_cases ht : t < s.submitted
  · refine ⟨ht, ?_⟩
    by_contra hr
    rw [if_pos ht, if_neg hr] at hle
    omega
  · rw [if_neg ht] at hle
    omega

/-- **A task that has ended** is neither queued nor executed. -/
theorem settled (h : Sound g s) (hr : s.result t ≠ none) :
    ¬ Queued s t ∧ ∀ j, ¬ RunsIn s t j :=
  ⟨fun hq => hr (h.isQueued hq).2, fun _ hrun => hr (h.runsIn hrun).2⟩

/-- **A submitted task** is queued, or executed, or has ended. -/
theorem somewhere (h : Sound g s) (ht : t < s.submitted) (hr : s.result t = none) :
    Queued s t ∨ ∃ j, RunsIn s t j := by
  by_contra hnot
  rw [not_or, Queued, not_or] at hnot
  obtain ⟨⟨hm, hq⟩, hrun⟩ := hnot
  have hmaster : s.master.count t = 0 := List.count_eq_zero.2 hm
  have hqueue : ∑ j ∈ Finset.range g.workerNum, (s.queue j).count t = 0 :=
    Finset.sum_eq_zero fun j _ => List.count_eq_zero.2 fun hj => hq ⟨j, hj⟩
  have hstack : ∑ j ∈ Finset.range g.threads, running t (s.stack j) = 0 := by
    refine Finset.sum_eq_zero fun j _ => List.count_eq_zero.2 fun hmem => ?_
    obtain ⟨G, hG, htask⟩ := List.mem_map.1 hmem
    exact hrun ⟨j, G, hG, htask⟩
  have hone := h.places t
  rw [NestedFor.places, hmaster, hqueue, hstack, if_pos hr, if_pos ht] at hone
  omega

end Sound

/-! ## One step -/

namespace Grows

/-- A step that leaves the tasks where they are. -/
lemma of_eq (hsubmitted : s'.submitted = s.submitted) (hhome : s'.home = s.home)
    (hresult : s'.result = s.result) (hqueue : s'.queue = s.queue)
    (hmaster : s'.master = s.master) : Grows s s' := by
  refine ⟨hsubmitted.ge, fun t _ => congrFun hhome t, fun t ht => ?_, fun t _ hq => ?_⟩
  · rwa [hresult]
  · rwa [Queued, hqueue, hmaster] at hq

/-- What a frame knows stays when other threads take a step.

**Proof sketch.** One case for each place. Homes and results stay, and a task that is no more in a
queue does not come back. -/
lemma knows (hg : Grows s s') {point : Point} (h : point.Knows g s i) : point.Knows g s' i := by
  have hown : ∀ call, Own s i call → Own s' i call := fun call hcall t ht =>
    ⟨(hcall t ht).1.trans_le hg.submitted, (hg.home t (hcall t ht).1).trans (hcall t ht).2⟩
  have hready : ∀ futures todo, Ready s futures todo → Ready s' futures todo :=
    fun futures todo ⟨got, heq, hgot⟩ => ⟨got, heq, fun t ht => hg.result t (hgot t ht)⟩
  have htaken : ∀ call, Own s i call → Taken s call → Taken s' call :=
    fun call hcall hcalm t ht hq => hcalm t ht (hg.queued t (hcall t ht).1 hq)
  cases point with
  | code c => trivial
  | submit todo f call => exact hown call h
  | wait w call =>
    refine ⟨hown call h.1, ?_⟩
    cases w with
    | check todo => exact hready _ _ h.2
    | popLocal first => exact h.2
    | steal first k => exact htaken call h.1 h.2
    | popMaster first => exact fun hi => htaken call h.1 (h.2 hi)
    | helping first => trivial
    | sleep => trivial
  | get todo call => exact ⟨hown call h.1, hready _ _ h.2.1, htaken call h.1 h.2.2⟩

end Grows

/-- One task is taken from a queue, and nothing else changes. -/
structure Popped (g : Group) (s : State) (t : ℕ) (s' : State) : Prop where
  stack : s'.stack = s.stack
  submitted : s'.submitted = s.submitted
  started : s'.started = s.started
  home : s'.home = s.home
  result : s'.result = s.result
  exited : s'.exited = s.exited
  queue : ∀ j, ∀ u ∈ s'.queue j, u ∈ s.queue j
  master : ∀ u ∈ s'.master, u ∈ s.master
  places : ∀ u, places g s' u + (if t = u then 1 else 0) = places g s u

/-- What `try_pop` and `try_steal` do.

**Proof sketch.** The task was in the queue of a worker or in the master queue, and what is left
there is the same without it. -/
lemma Sound.popped {source : Source} {t : ℕ} (h : Sound g s)
    (hpop : s.pop source = some (t, s')) : Popped g s t s' := by
  have hcount : ∀ {l items : List ℕ}, l.Perm (t :: items) → ∀ u,
      l.count u = items.count u + if t = u then 1 else 0 := by
    intro l items hperm u
    rw [hperm.count_eq, List.count_cons]
    simp only [beq_iff_eq]
  rcases pop_cases hpop with ⟨j, items, rfl, hperm⟩ | ⟨items, rfl, hperm⟩
  · have hj : j < g.workerNum := (h.queue j t (hperm.mem_iff.2 List.mem_cons_self)).1
    refine ⟨rfl, rfl, rfl, rfl, rfl, rfl, fun k u hu => ?_, fun u => id, fun u => ?_⟩
    · replace hu : u ∈ Function.update s.queue j items k := hu
      by_cases hkj : k = j
      · subst hkj
        rw [Function.update_self] at hu
        exact hperm.mem_iff.2 (List.mem_cons_of_mem t hu)
      · rwa [Function.update_of_ne hkj] at hu
    · have := places_setQueue (s := s) hj items u
      have := hcount hperm u
      omega
  · refine ⟨rfl, rfl, rfl, rfl, rfl, rfl, fun _ _ => id, fun u hu => ?_, fun u => ?_⟩
    · exact hperm.mem_iff.2 (List.mem_cons_of_mem t hu)
    · have := places_setMaster (g := g) (s := s) items u
      have := hcount hperm u
      omega

/-- Who has popped has changed nothing that others know. -/
lemma Popped.grows {t : ℕ} (h : Popped g s t s') : Grows s s' where
  submitted := h.submitted.ge
  home u _ := congrFun h.home u
  result u hu := by rwa [h.result]
  queued u _ hu := hu.imp (h.master u) fun ⟨j, hj⟩ => ⟨j, h.queue j u hj⟩

/-- **A thread that replaces its stack** keeps what holds, if the new frames know what they have to
know and no task is lost. -/
lemma Sound.replace (h : Sound g s) (frames : List Frame) (hi : i < g.threads)
    (hgrows : Grows s s') (hstack : s'.stack = Function.update s.stack i frames)
    (hshape : Shape frames) (hknows : ∀ F ∈ frames, F.point.Knows g s' i)
    (hqueue : ∀ j, ∀ t ∈ s'.queue j, j < g.workerNum ∧ s'.home t = j)
    (hmaster : ∀ t ∈ s'.master, g.workerNum ≤ s'.home t)
    (hplaces : ∀ t, NestedFor.places g s' t = if t < s'.submitted then 1 else 0) : Sound g s' := by
  refine ⟨hqueue, hmaster, fun j hj => ?_, ?_, ?_, hplaces⟩
  · have hji : j ≠ i := by omega
    rw [hstack, Function.update_of_ne hji]
    exact h.outside j hj
  · rw [hstack, Function.forall_update_iff s.stack fun _ => Shape]
    exact ⟨hshape, fun j _ => h.shape j⟩
  · rw [hstack, Function.forall_update_iff s.stack
      fun j frames => ∀ F ∈ frames, F.point.Knows g s' j]
    exact ⟨hknows, fun j _ F hF => hgrows.knows (h.knows j F hF)⟩

/-- A task that was popped starts.

**Proof sketch.** The task leaves its queue and is on the stack of its thread: it changes its place
and keeps exactly one. The frames under it are those of before. -/
lemma Sound.begin {t : ℕ} {frames : List Frame} (h : Sound g s) (hi : i < g.threads)
    (hp : Popped g s t s') (hframes : ∀ F ∈ frames, F.point.Helps ∧ F.point.Knows g s' i)
    (hrunning : ∀ u, running u frames = running u (s.stack i)) : Sound g (s'.begin i t frames) := by
  refine h.replace (⟨some t, s'.started, .code (s'.body t)⟩ :: frames) hi
    ⟨hp.grows.submitted, hp.grows.home, hp.grows.result, hp.grows.queued⟩ ?_
    ⟨not_false, fun F hF => (hframes F hF).1⟩ (fun F hF => ?_) (fun j u hu => ?_)
    (fun u hu => ?_) fun u => ?_
  · show Function.update s'.stack i _ = _
    rw [hp.stack]
  · rcases List.mem_cons.1 hF with rfl | hF
    · trivial
    · exact (Grows.of_eq rfl rfl rfl rfl rfl).knows (hframes F hF).2
  · show _ ∧ s'.home u = j
    rw [hp.home]
    exact h.queue j u (hp.queue j u hu)
  · show _ ≤ s'.home u
    rw [hp.home]
    exact h.master u (hp.master u hu)
  · have hset := places_setStack (s := s') hi
      (⟨some t, s'.started, .code (s'.body t)⟩ :: frames) u
    have hpop := hp.places u
    have hrun := hrunning u
    rw [hp.stack, running_cons] at hset
    simp only [Option.some.injEq] at hset
    show NestedFor.places g (s'.setStack i _) u = if u < s'.submitted then 1 else 0
    rw [hp.submitted, ← h.places]
    omega

/-- The call of a frame goes on: its tasks are in the queue that is known.

**Proof sketch.** One case for each way on. The tasks of a call are in the queue of its own thread
if this is a worker, and in the master queue otherwise, so this is the queue in which the call
looks for them. -/
lemma Sound.next {p q : Point} (h : Sound g s) (hp : p.Knows g s i) (hnext : Next g s i p q) :
    q.Knows g s i ∧ ¬ q.Helps := by
  -- The tasks that wait to be started are in the queue of the worker, or in the master queue.
  have hhome : ∀ call, Own s i call → ∀ t ∈ call.futures, Queued s t →
      (i < g.workerNum → t ∈ s.queue i) ∧ (¬ i < g.workerNum → t ∈ s.master) := by
    rintro call hown t ht (hm | ⟨j, hj⟩)
    · have := h.master t hm
      rw [(hown t ht).2] at this
      exact ⟨fun hi => absurd hi (Nat.not_lt_of_le this), fun _ => hm⟩
    · obtain ⟨hlt, hhome⟩ := h.queue j t hj
      rw [(hown t ht).2] at hhome
      subst hhome
      exact ⟨fun _ => hj, fun hi => absurd hlt hi⟩
  cases hnext with
  | @enter single enableNested start stop threshold f next =>
    rw [enter]
    split
    · exact ⟨trivial, not_false⟩
    · split
      · exact ⟨trivial, not_false⟩
      · split
        · exact ⟨trivial, not_false⟩
        · exact ⟨fun t ht => absurd ht List.not_mem_nil, not_false⟩
  | wait => exact ⟨⟨hp, [], rfl, fun t ht => absurd ht List.not_mem_nil⟩, not_false⟩
  | @allReady call =>
    obtain ⟨hown, got, heq, hgot⟩ := hp
    rw [List.append_nil] at heq
    refine ⟨⟨hown, ⟨[], rfl, fun t ht => absurd ht List.not_mem_nil⟩, fun t ht => ?_⟩, not_false⟩
    exact (h.settled (hgot t (heq ▸ ht))).1
  | @ready t todo call hr =>
    obtain ⟨hown, got, heq, hgot⟩ := hp
    refine ⟨⟨hown, got ++ [t], by rw [heq, List.append_assoc]; rfl, ?_⟩, not_false⟩
    rw [List.forall_mem_append, List.forall_mem_singleton]
    exact ⟨hgot, hr⟩
  | attempt =>
    rw [attempt]
    split
    · next hi => exact ⟨⟨hp.1, hi⟩, not_false⟩
    · next hi => exact ⟨⟨hp.1, fun hlt => absurd hlt hi⟩, not_false⟩
  | noLocal hq =>
    refine ⟨⟨hp.1, fun t ht hqueued => ?_⟩, not_false⟩
    have := (hhome _ hp.1 t ht hqueued).1 hp.2
    rw [hq] at this
    cases this
  | steal => exact ⟨hp, not_false⟩
  | noOther => exact ⟨⟨hp.1, fun _ => hp.2⟩, not_false⟩
  | noTask hm =>
    refine ⟨⟨hp.1, ⟨[], rfl, fun t ht => absurd ht List.not_mem_nil⟩, fun t ht hqueued => ?_⟩,
      not_false⟩
    by_cases hi : i < g.workerNum
    · exact hp.2 hi t ht hqueued
    · have := (hhome _ hp.1 t ht hqueued).2 hi
      rw [hm] at this
      cases this
  | tired => exact ⟨⟨hp.1, trivial⟩, not_false⟩
  | sleep => exact ⟨⟨hp.1, [], rfl, fun t ht => absurd ht List.not_mem_nil⟩, not_false⟩
  | @got t todo call hr =>
    obtain ⟨hown, ⟨got, heq, hgot⟩, htaken⟩ := hp
    refine ⟨⟨hown, ⟨got ++ [t], by rw [heq, List.append_assoc]; rfl, ?_⟩, htaken⟩, not_false⟩
    rw [List.forall_mem_append, List.forall_mem_singleton]
    exact ⟨hgot, hr⟩

/-- The current frame of a thread goes on to another point of its code, which keeps the invariant
if the thread knows what it has to know there. -/
lemma Sound.setTop {F : Frame} {rest : List Frame} {point : Point} (h : Sound g s)
    (hstack : s.stack i = F :: rest) (hknows : point.Knows g s i) (hnot : ¬ point.Helps) :
    Sound g (s.setStack i ({ F with point := point } :: rest)) := by
  have hi : i < g.threads := h.lt_threads (by rw [hstack]; exact List.cons_ne_nil _ _)
  have hgrows : Grows s (s.setStack i ({ F with point := point } :: rest)) :=
    .of_eq rfl rfl rfl rfl rfl
  refine h.replace _ hi hgrows rfl ⟨hnot, ?_⟩ (fun G hG => ?_) h.queue h.master fun t => ?_
  · have := h.shape i
    rw [hstack] at this
    exact this.2
  · rcases List.mem_cons.1 hG with rfl | hG
    · exact hgrows.knows hknows
    · exact hgrows.knows (h.knows i G (hstack ▸ List.mem_cons_of_mem F hG))
  · have hset := places_setStack (s := s) hi ({ F with point := point } :: rest) t
    have hsame := running_point t F point rest
    rw [hstack] at hset
    have hone := h.places t
    show NestedFor.places g (s.setStack i _) t = if t < s.submitted then 1 else 0
    omega

/-- A frame that waits for a task on top of it goes on when that has ended. -/
lemma knows_resume {point : Point} (hhelps : point.Helps) (h : point.Knows g s i) :
    (resume g i point).Knows g s i ∧ ¬ (resume g i point).Helps := by
  cases point with
  | wait w call =>
    cases w with
    | helping first =>
      cases first with
      | true =>
        rw [resume, attempt]
        split
        · next hi => exact ⟨⟨h.1, hi⟩, not_false⟩
        · next hi => exact ⟨⟨h.1, fun hlt => absurd hlt hi⟩, not_false⟩
      | false => exact ⟨⟨h.1, [], rfl, fun t ht => absurd ht List.not_mem_nil⟩, not_false⟩
    | _ => exact absurd hhelps not_false
  | _ => exact absurd hhelps not_false

/-- A frame ends.

**Proof sketch.** The task has its result and leaves the stack, so it has no place any more; the
frames under it have not moved. -/
lemma Sound.finish {F : Frame} {rest : List Frame} (h : Sound g s)
    (hstack : s.stack i = F :: rest) (ok : Bool) :
    Sound g ((s.setResult F.task ok).setStack i (below g i rest)) := by
  have hi : i < g.threads := h.lt_threads (by rw [hstack]; exact List.cons_ne_nil _ _)
  have hrest : ∀ G ∈ rest, G.point.Helps ∧ G.point.Knows g s i := by
    intro G hG
    have hshape := h.shape i
    rw [hstack] at hshape
    exact ⟨hshape.2 G hG, h.knows i G (hstack ▸ List.mem_cons_of_mem F hG)⟩
  have hgrows : Grows s ((s.setResult F.task ok).setStack i (below g i rest)) := by
    refine ⟨(s.setResult_submitted F.task ok).ge,
      fun t _ => congrFun (s.setResult_home F.task ok) t,
      fun t ht => s.result_setResult F.task ok ht, fun t _ hq => ?_⟩
    replace hq : t ∈ (s.setResult F.task ok).master ∨
      ∃ j, t ∈ (s.setResult F.task ok).queue j := hq
    rwa [State.setResult_queue, State.setResult_master] at hq
  refine h.replace (below g i rest) hi hgrows ?_ ?_ ?_ (fun j t ht => ?_)
    (fun t ht => ?_) fun t => ?_
  · show Function.update (s.setResult F.task ok).stack i _ = _
    rw [State.setResult_stack]
  · cases rest with
    | nil => trivial
    | cons G rest =>
      obtain ⟨hhelps, hknows⟩ := hrest G List.mem_cons_self
      exact ⟨(knows_resume hhelps hknows).2, fun H hH => (hrest H (List.mem_cons_of_mem G hH)).1⟩
  · cases rest with
    | nil => exact List.forall_mem_nil _
    | cons G rest =>
      intro H hH
      rcases List.mem_cons.1 hH with rfl | hH
      · obtain ⟨hhelps, hknows⟩ := hrest G List.mem_cons_self
        exact (knows_resume hhelps (hgrows.knows hknows)).1
      · exact hgrows.knows (hrest H (List.mem_cons_of_mem G hH)).2
  · replace ht : t ∈ (s.setResult F.task ok).queue j := ht
    show _ ∧ (s.setResult F.task ok).home t = j
    rw [State.setResult_queue] at ht
    rw [State.setResult_home]
    exact h.queue j t ht
  · replace ht : t ∈ (s.setResult F.task ok).master := ht
    show _ ≤ (s.setResult F.task ok).home t
    rw [State.setResult_master] at ht
    rw [State.setResult_home]
    exact h.master t ht
  · -- The task of the frame is in the frame no more, and has ended instead.
    have hset := places_setStack (s := s.setResult F.task ok) hi (below g i rest) t
    have hres := places_setResult (g := g) (s := s) F.task ok t
    rw [State.setResult_stack, hstack, running_cons, running_below] at hset
    have hone : F.task = some t → s.result t = none := fun htask =>
      (h.runsIn (i := i) ⟨F, hstack ▸ List.mem_cons_self, htask⟩).2
    show NestedFor.places g ((s.setResult F.task ok).setStack i _) t =
      if t < (s.setResult F.task ok).submitted then 1 else 0
    rw [State.setResult_submitted, ← h.places t]
    by_cases htask : F.task = some t
    · rw [if_pos ⟨htask, hone htask⟩] at hres
      rw [if_pos htask] at hset
      omega
    · rw [if_neg fun hboth => htask hboth.1] at hres
      rw [if_neg htask] at hset
      omega

/-- A new task is in the queue of its thread.

**Proof sketch.** The new task has the next number, so no other one is touched; its home is the
thread that submits it. -/
lemma Sound.submit (h : Sound g s) (hi : i < g.threads) (hstack : s'.stack = s.stack)
    (hsubmitted : s'.submitted = s.submitted + 1) (hresult : s'.result = s.result)
    (hhome : s'.home = Function.update s.home s.submitted i)
    (hqueue : ∀ j, ∀ t ∈ s'.queue j, t ∈ s.queue j ∨ t = s.submitted ∧ i < g.workerNum ∧ j = i)
    (hmaster : ∀ t ∈ s'.master, t ∈ s.master ∨ t = s.submitted ∧ g.workerNum ≤ i)
    (hplaces : ∀ t, NestedFor.places g s' t =
      NestedFor.places g s t + if s.submitted = t then 1 else 0) : Sound g s' ∧ Grows s s' := by
  have hold : ∀ t < s.submitted, s'.home t = s.home t := by
    intro t ht
    rw [hhome, Function.update_of_ne ht.ne]
  have hnew : s'.home s.submitted = i := by
    rw [hhome, Function.update_self]
  have hgrows : Grows s s' := by
    refine ⟨by omega, hold, fun t ht => by rwa [hresult], fun t ht hq => ?_⟩
    rcases hq with hm | ⟨j, hj⟩
    · exact .inl ((hmaster t hm).resolve_right fun heq => ht.ne heq.1)
    · exact .inr ⟨j, (hqueue j t hj).resolve_right fun heq => ht.ne heq.1⟩
  refine ⟨h.replace (s.stack i) hi hgrows ?_ (h.shape i)
    (fun F hF => hgrows.knows (h.knows i F hF)) (fun j t ht => ?_) (fun t ht => ?_) fun t => ?_,
    hgrows⟩
  · rw [hstack, Function.update_eq_self]
  · rcases hqueue j t ht with ht | ⟨rfl, hw, rfl⟩
    · rw [hold t (h.isQueued (.inr ⟨j, ht⟩)).1]
      exact h.queue j t ht
    · exact ⟨hw, hnew⟩
  · rcases hmaster t ht with ht | ⟨rfl, hw⟩
    · rw [hold t (h.isQueued (.inl ht)).1]
      exact h.master t ht
    · rwa [hnew]
  · rw [hplaces, h.places, hsubmitted]
    by_cases heq : s.submitted = t
    · subst heq
      simp
    · have hiff : t < s.submitted + 1 ↔ t < s.submitted := by omega
      simp only [heq, hiff, if_false, Nat.add_zero]

/-- A task is submitted.

**Proof sketch.** A worker pushes onto its own queue and any other thread onto the master queue. -/
lemma Sound.push (h : Sound g s) (hi : i < g.threads) (body : Code) :
    Sound g (s.push g i body) ∧ Grows s (s.push g i body) := by
  by_cases hw : i < g.workerNum
  · rw [State.push, if_pos hw]
    refine h.submit hi rfl rfl rfl rfl (fun j t ht => ?_) (fun t => .inl) fun t => ?_
    · replace ht : t ∈ Function.update s.queue i (s.submitted :: s.queue i) j := ht
      by_cases hji : j = i
      · rw [hji, Function.update_self, List.mem_cons] at ht
        exact ht.symm.imp (fun ht => hji ▸ ht) fun heq => ⟨heq, hw, hji⟩
      · rw [Function.update_of_ne hji] at ht
        exact .inl ht
    · have hset := places_setQueue (s := s) hw (s.submitted :: s.queue i) t
      rw [List.count_cons] at hset
      simp only [beq_iff_eq] at hset
      show NestedFor.places g (s.setQueue i _) t = _
      omega
  · rw [State.push, if_neg hw]
    refine h.submit hi rfl rfl rfl rfl (fun j t => .inl) (fun t ht => ?_) fun t => ?_
    · rcases List.mem_append.1 ht with ht | ht
      · exact .inl ht
      · exact .inr ⟨List.mem_singleton.1 ht, Nat.le_of_not_lt hw⟩
    · have hset := places_setMaster (g := g) (s := s) (s.master ++ [s.submitted]) t
      rw [List.count_append, List.count_singleton] at hset
      simp only [beq_iff_eq] at hset
      show NestedFor.places g (s.setMaster (s.master ++ [s.submitted])) t = _
      omega

/-- **One step.**

**Proof sketch.** One case for each step, by its own lemma. -/
theorem step_sound (h : Sound g s) (hstep : step g s i = some s') : Sound g s' := by
  have htop : ∀ {F : Frame} {rest : List Frame}, s.stack i = F :: rest →
      i < g.threads ∧ F.point.Knows g s i := fun {F rest} hstack =>
    ⟨h.lt_threads (hstack ▸ List.cons_ne_nil F rest), h.knows i F (hstack ▸ List.mem_cons_self)⟩
  cases steps_of_step hstep with
  | idle hi hstack w =>
    exact ⟨h.queue, h.master, h.outside, h.shape,
      fun j F hF => (Grows.of_eq rfl rfl rfl rfl rfl).knows (h.knows j F hF), h.places⟩
  | @begin hi hstack source t s₁ hpop =>
    have hp := h.popped hpop
    have hp' : Popped g s t (s₁.setIdle i .popLocal) :=
      ⟨hp.stack, hp.submitted, hp.started, hp.home, hp.result, hp.exited, hp.queue, hp.master,
        hp.places⟩
    refine h.begin (hi.trans_le (Nat.le_add_right _ _)) hp' (List.forall_mem_nil _) fun u => ?_
    rw [hstack]
  | finish hstack ok hpoint => exact h.finish hstack ok
  | goOn hstack hnext =>
    obtain ⟨hknows, hnot⟩ := h.next (htop hstack).2 hnext
    exact h.setTop hstack hknows hnot
  | @push F rest hstack piece todo f call hpoint =>
    obtain ⟨hi, hknows⟩ := htop hstack
    obtain ⟨hsound, hgrows⟩ := h.push hi (Code.loop f piece)
    have hcall := hgrows.knows hknows
    rw [hpoint] at hcall
    refine hsound.setTop ?_ (fun t ht => ?_) not_false
    · rwa [State.push_stack]
    · rcases List.mem_append.1 ht with ht | ht
      · exact hcall t ht
      · obtain rfl := List.mem_singleton.1 ht
        exact ⟨Nat.lt_succ_self _, Function.update_self ..⟩
  | @help F rest hstack w call hpoint source t s₁ hpop first =>
    obtain ⟨hi, hknows⟩ := htop hstack
    have hp := h.popped hpop
    refine h.begin hi hp (fun G hG => ?_) fun u => ?_
    · rcases List.mem_cons.1 hG with rfl | hG
      · have hcall := hp.grows.knows hknows
        rw [hpoint] at hcall
        exact ⟨trivial, hcall.1, trivial⟩
      · have hshape := h.shape i
        rw [hstack] at hshape
        exact ⟨hshape.2 G hG, hp.grows.knows (h.knows i G (hstack ▸ List.mem_cons_of_mem F hG))⟩
    · rw [hstack, running_point]
  | @leave F rest hstack todo call hpoint hlast ok =>
    have hsound : Sound g (s.leave call) :=
      ⟨h.queue, h.master, h.outside, h.shape,
        fun j F hF => (Grows.of_eq rfl rfl rfl rfl rfl).knows (h.knows j F hF), h.places⟩
    exact hsound.setTop hstack trivial not_false

/-- Before any step the threads that are not workers are in their programs. -/
lemma stack_init (g : Group) (j : ℕ) : (State.init g).stack j = [] ∨
    ∃ c, (State.init g).stack j = [⟨none, j - g.workerNum, .code c⟩] ∧
      j - g.workerNum < g.mains.length ∧ g.workerNum ≤ j := by
  show (if j < g.workerNum then [] else _) = _ ∨ ∃ c, (if j < g.workerNum then [] else _) = _ ∧ _
  by_cases hj : j < g.workerNum
  · exact .inl (if_pos hj)
  · rw [if_neg hj]
    cases hc : g.mains[j - g.workerNum]? with
    | none => exact .inl rfl
    | some c => exact .inr ⟨c, rfl, (List.getElem?_eq_some_iff.1 hc).1, Nat.le_of_not_lt hj⟩

/-- What holds before any step.

**Proof sketch.** The queues are empty, and each thread that calls the function has one frame, with
its code. -/
lemma sound_init (g : Group) : Sound g (.init g) := by
  refine ⟨fun j t ht => absurd ht List.not_mem_nil, fun t ht => absurd ht List.not_mem_nil,
    fun j hj => ?_, fun j => ?_, fun j F hF => ?_, fun t => ?_⟩
  · refine (stack_init g j).resolve_right ?_
    rintro ⟨c, -, hlt, hle⟩
    rw [Group.threads] at hj
    omega
  · rcases stack_init g j with h | ⟨c, h, -, -⟩
    · rw [h]
      trivial
    · rw [h]
      exact ⟨not_false, List.forall_mem_nil _⟩
  · rcases stack_init g j with h | ⟨c, h, -, -⟩
    · rw [h] at hF
      cases hF
    · rw [h, List.mem_singleton] at hF
      rw [hF]
      trivial
  · have hrunning : ∀ j, running t ((State.init g).stack j) = 0 := by
      intro j
      rcases stack_init g j with h | ⟨c, h, -, -⟩ <;> rw [h] <;> rfl
    simp only [places, hrunning]
    simp [State.init]

/-- **What holds after every run.** -/
theorem run_sound {is : List ℕ} (hrun : (system g).run is = some s) : Sound g s :=
  System.run_invariant (S := system g) (sound_init g) (fun _ _ _ h hstep => step_sound h hstep) hrun

end HkuUtils.NestedFor
