import Mathlib.Logic.Relation
import HkuUtils.NestedFor.Started

set_option relaxedAutoImplicit false
set_option autoImplicit false

/-!
# Nested parallel loops never deadlock

A frame waits for the frame on top of it and for the frames that execute its tasks. All of them were
started after it, and so whoever follows what a thread waits for comes to one that can go on.

## Main definitions

* `HkuUtils.NestedFor.Waits` — a frame waits for another one.
* `HkuUtils.NestedFor.BlockedIn` — a thread is blocked in `get`.
* `HkuUtils.NestedFor.ThreadWaits` — a thread is blocked in `get`, and another one executes the
  task.
* `HkuUtils.NestedFor.Ordered` — what a frame waits for was started after it.

## Main results

* `HkuUtils.NestedFor.step_ordered`, `run_ordered` — one step, and a run.
* `HkuUtils.NestedFor.exists_free` — whoever a thread waits for in the end can go on.
* `HkuUtils.NestedFor.nested_never_deadlocks`, `helper_blocked` — the absence of deadlocks, and a
  call that waits for a task of another one.
-/

namespace HkuUtils.NestedFor

open Transition Algorithm Threads

variable {g : Group} {s s' : State} {i : ℕ}

/-! ## Who waits for whom -/

/-- The tasks of the call that a frame is in. -/
def Point.futures : Point → List ℕ
  | .code _ => []
  | .submit _ _ call | .wait _ call | .get _ call => call.futures

/-- A frame waits for another one: that is on top of it, or executes a task of its call. -/
def Waits (s : State) (F G : Frame) : Prop :=
  ∃ i, F ∈ s.stack i ∧ ([G, F].Sublist (s.stack i) ∨
    ∃ j, G ∈ s.stack j ∧ ∃ t ∈ F.point.futures, G.task = some t)

/-- A thread is blocked in `get` of a future. -/
def BlockedIn (s : State) (i t : ℕ) : Prop :=
  ∃ F rest behind call, s.stack i = F :: rest ∧ F.point = .get (t :: behind) call ∧
    s.result t = none

/-- A thread is blocked in `get` of a future, and another one executes the task. -/
def ThreadWaits (s : State) (i j : ℕ) : Prop := ∃ t, BlockedIn s i t ∧ RunsIn s t j

/-! ## What was started later -/

/-- What a frame waits for was started after it. -/
structure Ordered (s : State) : Prop where
  sorted : ∀ j, ((s.stack j).map Frame.no).Pairwise (· > ·)
  old : ∀ j, ∀ F ∈ s.stack j, F.no < s.started
  edges : ∀ i j F G t, F ∈ s.stack i → G ∈ s.stack j → t ∈ F.point.futures → G.task = some t →
    F.no < G.no

/-- A frame was there before, with perhaps new tasks, or has just been started. -/
def Comes (s : State) (i started : ℕ) (F : Frame) : Prop :=
  (∃ G ∈ s.stack i, F.no = G.no ∧ F.task = G.task ∧
    ∀ t ∈ F.point.futures, t ∈ G.point.futures ∨ s.submitted ≤ t) ∨
  F.no = s.started ∧ s.started < started ∧ F.point.futures = []

/-- A frame that stays. -/
lemma comes_of_mem {F : Frame} (hF : F ∈ s.stack i) (started : ℕ) : Comes s i started F :=
  .inl ⟨F, hF, rfl, rfl, fun _ => .inl⟩

/-- A thread that replaces its stack.

**Proof sketch.** A frame of the new stack was there before, under the same number, or is the
newest of all. An edge between two frames that were there is an old one, and the newest frame is
waited for by none of its tasks. -/
lemma Ordered.replace (h : Ordered s) (i : ℕ) (frames : List Frame)
    (htasks : ∀ j t, RunsIn s t j → t < s.submitted)
    (hstack : s'.stack = Function.update s.stack i frames) (hstarted : s.started ≤ s'.started)
    (hsorted : (frames.map Frame.no).Pairwise (· > ·))
    (hframes : ∀ F ∈ frames, Comes s i s'.started F) : Ordered s' := by
  have hcomes : ∀ j, ∀ F ∈ s'.stack j, Comes s j s'.started F := by
    rw [hstack, Function.forall_update_iff s.stack
      fun j frames => ∀ F ∈ frames, Comes s j s'.started F]
    exact ⟨hframes, fun j _ F hF => comes_of_mem hF _⟩
  refine ⟨?_, fun j F hF => ?_, fun j k F G t hF hG ht htask => ?_⟩
  · rw [hstack, Function.forall_update_iff s.stack
      fun _ frames => (frames.map Frame.no).Pairwise (· > ·)]
    exact ⟨hsorted, fun j _ => h.sorted j⟩
  · rcases hcomes j F hF with ⟨F₀, hF₀, hno, -⟩ | ⟨hno, hlt, -⟩
    · rw [hno]
      exact (h.old j F₀ hF₀).trans_le hstarted
    · rwa [hno]
  · rcases hcomes j F hF with ⟨F₀, hF₀, hno, -, hfutures⟩ | ⟨-, -, hnil⟩
    · rcases hcomes k G hG with ⟨G₀, hG₀, hno', htask', -⟩ | ⟨hno', -, -⟩
      · rcases hfutures t ht with hold | hfresh
        · rw [hno, hno']
          exact h.edges j k F₀ G₀ t hF₀ hG₀ hold (htask' ▸ htask)
        · exact absurd (htasks k t ⟨G₀, hG₀, htask' ▸ htask⟩) (Nat.not_lt_of_le hfresh)
      · rw [hno, hno']
        exact h.old j F₀ hF₀
    · rw [hnil] at ht
      cases ht

/-- A frame that goes on is in the same call, or in none. -/
lemma futures_of_next {p q : Point} (h : Next g s i p q) : q.futures = p.futures := by
  cases h with
  | @enter single enableNested start stop threshold f next =>
    rw [enter]
    split
    · rfl
    · split
      · rfl
      · split <;> rfl
  | _ => rfl

/-- A frame that goes on after the task it has helped with is in the same call. -/
lemma futures_resume (g : Group) (i : ℕ) (p : Point) : (resume g i p).futures = p.futures := by
  rw [resume.eq_def]
  split <;> rfl

/-- The current frame goes on, with perhaps new tasks. -/
lemma Ordered.goOn (h : Ordered s) (htasks : ∀ j t, RunsIn s t j → t < s.submitted) {F : Frame}
    {rest : List Frame} {point : Point} (t : State) (hstack : s.stack i = F :: rest)
    (hsame : t.stack = s.stack) (hstarted : t.started = s.started)
    (hpoint : ∀ u ∈ point.futures, u ∈ F.point.futures ∨ s.submitted ≤ u) :
    Ordered (t.setStack i ({ F with point := point } :: rest)) := by
  have hsorted := h.sorted i
  rw [hstack] at hsorted
  refine h.replace i ({ F with point := point } :: rest) htasks ?_ hstarted.ge hsorted
    fun G hG => ?_
  · show Function.update t.stack i _ = _
    rw [hsame]
  · rcases List.mem_cons.1 hG with rfl | hG
    · exact .inl ⟨F, hstack ▸ List.mem_cons_self, rfl, rfl, hpoint⟩
    · exact comes_of_mem (hstack ▸ List.mem_cons_of_mem F hG) _

/-- A task starts on top of frames that were there. -/
lemma Ordered.begins (h : Ordered s) (htasks : ∀ j t, RunsIn s t j → t < s.submitted) {t : ℕ}
    (s₁ : State) {frames : List Frame} (hsame : s₁.stack = s.stack)
    (hstarted : s₁.started = s.started)
    (hnos : frames.map Frame.no = (s.stack i).map Frame.no)
    (hframes : ∀ F ∈ frames, Comes s i (s₁.started + 1) F) :
    Ordered (s₁.begin i t frames) := by
  refine h.replace i (⟨some t, s₁.started, .code (s₁.body t)⟩ :: frames) htasks ?_
    (hstarted ▸ Nat.le_succ _) ?_ fun F hF => ?_
  · show Function.update s₁.stack i _ = _
    rw [hsame]
  · rw [List.map_cons, hnos, List.pairwise_cons]
    refine ⟨fun k hk => ?_, h.sorted i⟩
    obtain ⟨F, hF, rfl⟩ := List.mem_map.1 hk
    show s₁.started > _
    rw [hstarted]
    exact h.old i F hF
  · rcases List.mem_cons.1 hF with rfl | hF
    · exact .inr ⟨hstarted, hstarted ▸ Nat.lt_succ_self _, rfl⟩
    · exact hframes F hF

/-- The current task ends, and the frame below it goes on.

**Proof sketch.** The frames that are left were there before, and the one on top goes on with the
futures that it had, or fewer. -/
lemma Ordered.finish (h : Ordered s) (htasks : ∀ j t, RunsIn s t j → t < s.submitted) {F : Frame}
    {rest : List Frame} (hstack : s.stack i = F :: rest) (ok : Bool) :
    Ordered ((s.setResult F.task ok).setStack i (below g i rest)) := by
  have hsorted := h.sorted i
  rw [hstack, List.map_cons, List.pairwise_cons] at hsorted
  refine h.replace i (below g i rest) htasks ?_ (s.setResult_started F.task ok).ge ?_ fun G hG => ?_
  · show Function.update (s.setResult F.task ok).stack i _ = _
    rw [State.setResult_stack]
  · cases rest with
    | nil => exact .nil
    | cons G rest => exact hsorted.2
  · cases rest with
    | nil => cases hG
    | cons H rest =>
      rcases List.mem_cons.1 hG with rfl | hG
      · have hH : H ∈ s.stack i := hstack ▸ List.mem_cons_of_mem F List.mem_cons_self
        refine .inl ⟨H, hH, rfl, rfl, fun t ht => ?_⟩
        rw [futures_resume] at ht
        exact .inl ht
      · exact comes_of_mem (hstack ▸ List.mem_cons_of_mem F (List.mem_cons_of_mem H hG)) _

/-- **One step.**

**Proof sketch.** One case for each step. A frame that begins takes the next number, one that ends
goes, and a call adds at most a future of a task that was submitted later than any frame started. -/
theorem step_ordered (hs : Sound g s) (h : Ordered s) (hstep : step g s i = some s') :
    Ordered s' := by
  have htasks : ∀ j t, RunsIn s t j → t < s.submitted := fun j t hrun => (hs.runsIn hrun).1
  cases steps_of_step hstep with
  | idle hi hstack w => exact ⟨h.sorted, h.old, h.edges⟩
  | @begin hi hstack source t s₁ hpop =>
    have hp := hs.popped hpop
    refine h.begins htasks (s₁.setIdle i .popLocal) hp.stack hp.started ?_ (List.forall_mem_nil _)
    rw [hstack]
  | finish hstack ok c => exact h.finish htasks hstack ok
  | goOn hstack hnext =>
    exact h.goOn htasks s hstack rfl rfl fun u hu => .inl (futures_of_next hnext ▸ hu)
  | @push F rest hstack piece todo f call hpoint =>
    refine h.goOn htasks _ hstack (s.push_stack g i _) (s.push_started g i _) fun u hu => ?_
    rw [hpoint]
    rcases List.mem_append.1 hu with hu | hu
    · exact .inl hu
    · exact .inr (List.mem_singleton.1 hu).ge
  | @help F rest hstack w call hpoint source t s₁ hpop first =>
    have hp := hs.popped hpop
    refine h.begins htasks s₁ hp.stack hp.started ?_ fun G hG => ?_
    · rw [hstack]
      rfl
    · rcases List.mem_cons.1 hG with rfl | hG
      · refine .inl ⟨F, hstack ▸ List.mem_cons_self, rfl, rfl, fun u hu => .inl ?_⟩
        rw [hpoint]
        exact hu
      · exact comes_of_mem (hstack ▸ List.mem_cons_of_mem F hG) _
  | @leave F rest hstack todo call hpoint hlast ok =>
    exact h.goOn htasks (s.leave call) hstack rfl rfl fun u hu => absurd hu List.not_mem_nil

/-- **What holds after every run.**

**Proof sketch.** By induction on the run. At the beginning each thread has at most one frame, and
none has futures. -/
theorem run_ordered {is : List ℕ} (hrun : (system g).run is = some s) : Ordered s := by
  refine (System.run_invariant (S := system g) (I := fun s => Sound g s ∧ Ordered s)
    ⟨sound_init g, ?_⟩ (fun _ _ _ h hstep => ⟨step_sound h.1 hstep, step_ordered h.1 h.2 hstep⟩)
    hrun).2
  refine ⟨fun j => ?_, fun j F hF => ?_, fun j k F G t hF hG ht htask => ?_⟩
  · show (((State.init g).stack j).map Frame.no).Pairwise _
    rcases stack_init g j with h | ⟨c, h, -, -⟩
    · rw [h]
      exact .nil
    · rw [h]
      exact List.pairwise_singleton _ _
  · rcases stack_init g j with h | ⟨c, h, hlt, -⟩ <;> replace hF : F ∈ (State.init g).stack j := hF
    · rw [h] at hF
      cases hF
    · rw [h, List.mem_singleton] at hF
      rw [hF]
      exact hlt
  · rcases stack_init g j with h | ⟨c, h, -, -⟩ <;> replace hF : F ∈ (State.init g).stack j := hF
    · rw [h] at hF
      cases hF
    · rw [h, List.mem_singleton] at hF
      rw [hF] at ht
      cases ht

/-! ## No deadlock -/

/-- What a frame waits for was started after it. -/
lemma Ordered.waits_lt (h : Ordered s) {F G : Frame} (hw : Waits s F G) : F.no < G.no := by
  obtain ⟨j, hF, hsub | ⟨k, hG, t, ht, htask⟩⟩ := hw
  · have hnos := (h.sorted j).sublist (hsub.map Frame.no)
    rw [List.map_cons, List.map_cons, List.pairwise_cons] at hnos
    exact hnos.1 _ List.mem_cons_self
  · exact h.edges j k F G t hF hG ht htask

/-- **No frame waits for itself**, directly or through others. -/
theorem Ordered.acyclic (h : Ordered s) (F : Frame) : ¬ Relation.TransGen (Waits s) F F := by
  have hlt : ∀ {G : Frame}, Relation.TransGen (Waits s) F G → F.no < G.no := by
    intro G hG
    induction hG with
    | single hw => exact h.waits_lt hw
    | tail _ hw ih => exact ih.trans (h.waits_lt hw)
  exact fun hcycle => lt_irrefl _ (hlt hcycle)

/-- A thread with a frame can go on, or is blocked in `get`.

**Proof sketch.** By cases on where the frame on top is. The only place without a next step is
`get` on a future that is not ready. -/
theorem step_or_blocked (hs : Sound g s) (hne : s.stack i ≠ []) :
    (∃ s', step g s i = some s') ∨ ∃ t, BlockedIn s i t := by
  obtain ⟨F, rest, hstack⟩ := List.exists_cons_of_ne_nil hne
  have hshape := hs.shape i
  rw [hstack] at hshape
  by_cases hstep : step g s i = none
  · right
    rw [step, hstack] at hstep
    simp only [stepFrame] at hstep
    split at hstep
    · cases hstep
    · cases hstep
    · cases hstep
    · cases hstep
    · cases hstep
    · next hpoint => exact absurd (hpoint ▸ trivial) hshape.1
    · split at hstep <;> cases hstep
    · cases hstep
    · next t todo call hpoint =>
      exact ⟨t, F, rest, todo, call, hstack, hpoint, Option.map_eq_none_iff.1 hstep⟩
  · exact .inl (Option.ne_none_iff_exists'.1 hstep)

/-- **Whoever a thread waits for in the end can go on.**

**Proof sketch.** By strong induction on how many frames were started after the one in question. If
the thread is blocked, the task it waits for has been started, in a frame with a greater number, on
a thread to which the induction applies. -/
theorem exists_free (hs : Sound g s) (h : Ordered s) (hne : s.stack i ≠ []) :
    ∃ j, Relation.ReflTransGen (ThreadWaits s) i j ∧ s.stack j ≠ [] ∧
      (∀ t, ¬ BlockedIn s j t) ∧ ∃ s', step g s j = some s' := by
  obtain ⟨F, hF⟩ := List.exists_mem_of_ne_nil _ hne
  -- The frames on the way were started later and later.
  induction hn : s.started - F.no using Nat.strong_induction_on generalizing i F with
  | _ n ih =>
    subst hn
    by_cases hblocked : ∃ t, BlockedIn s i t
    · obtain ⟨t, hb⟩ := hblocked
      obtain ⟨H, rest, behind, call, hstack, hpoint, hr⟩ := hb
      have hH : H ∈ s.stack i := hstack ▸ List.mem_cons_self
      have hknows := hs.knows i H hH
      rw [hpoint] at hknows
      obtain ⟨hown, ⟨got, heq, -⟩, htaken⟩ := hknows
      have ht : t ∈ call.futures := heq ▸ List.mem_append_right _ List.mem_cons_self
      -- The task was started, and its frame is still there.
      obtain ⟨j, G, hG, htask⟩ :=
        (hs.somewhere (hown t ht).1 hr).resolve_left (htaken t ht)
      have hFH : F.no ≤ H.no := by
        rw [hstack] at hF
        rcases List.mem_cons.1 hF with rfl | hF
        · exact le_rfl
        · have hsorted := h.sorted i
          rw [hstack, List.map_cons, List.pairwise_cons] at hsorted
          exact (hsorted.1 _ (List.mem_map_of_mem hF)).le
      have hHG : H.no < G.no := by
        refine h.edges i j H G t hH hG ?_ htask
        rw [hpoint]
        exact ht
      have hold := h.old j G hG
      obtain ⟨k, hjk, hfree⟩ :=
        ih (s.started - G.no) (by omega) (List.ne_nil_of_mem hG) G hG rfl
      refine ⟨k, .head ?_ hjk, hfree⟩
      exact ⟨t, ⟨H, rest, behind, call, hstack, hpoint, hr⟩, G, hG, htask⟩
    · refine ⟨i, .refl, hne, fun t ht => hblocked ⟨t, ht⟩, ?_⟩
      exact (step_or_blocked hs hne).resolve_right hblocked

/-- **No deadlock.** After every run: following what a thread with a call waits for, from the
future that it is blocked on to the thread that executes the task, one comes to a thread that
executes something, is not blocked and can go on; the tasks of a call that has come to `get` were
all started; and no frame waits for itself.

**Proof sketch.** Frames are numbered in the order in which they start, and a frame waits only for
ones that started later. So following the waits comes to an end, at a thread that is not blocked,
and there is no cycle. A call that is in `get` has seen all of its tasks leave their queues. -/
theorem nested_never_deadlocks {is : List ℕ} (hrun : (system g).run is = some s) :
    (∀ i, s.stack i ≠ [] → ∃ j, Relation.ReflTransGen (ThreadWaits s) i j ∧ s.stack j ≠ [] ∧
      (∀ t, ¬ BlockedIn s j t) ∧ ∃ s', step g s j = some s') ∧
    (∀ i, ∀ F ∈ s.stack i, ∀ todo call, F.point = .get todo call → ∀ t ∈ call.futures,
      s.result t ≠ none ∨ ∃ j, RunsIn s t j) ∧
    ∀ F, ¬ Relation.TransGen (Waits s) F F := by
  have hs := run_sound hrun
  have ho := run_ordered hrun
  refine ⟨fun i hne => exists_free hs ho hne, fun i F hF todo call hpoint t ht => ?_, ho.acyclic⟩
  have hknows := hs.knows i F hF
  rw [hpoint] at hknows
  by_cases hr : s.result t = none
  · exact .inr ((hs.somewhere (hknows.1 t ht).1 hr).resolve_left (hknows.2.2 t ht))
  · exact .inl hr

/-- The tasks of the call of a frame, and the tasks that these have submitted. -/
inductive Within (s : State) (F : Frame) : ℕ → Prop where
  | own {t : ℕ} (ht : t ∈ F.point.futures) : Within s F t
  | nested {t u j : ℕ} {G : Frame} (h : Within s F t) (hG : G ∈ s.stack j) (htask : G.task = some t)
    (hu : u ∈ G.point.futures) : Within s F u

/-- A thread executes a task or waits for it. -/
def Concerned (s : State) (t j : ℕ) : Prop :=
  ∃ G ∈ s.stack j, G.task = some t ∨ t ∈ G.point.futures

/-- A loop with one index, whose body is another loop. -/
def oneLoop (body : Code) : Code :=
  globalParallelForIndexVoidSingle 0 1 (fun _ => body) fun _ => .done

/-- Two workers, and two threads with a loop in a loop. -/
def helperGroup : Group := ⟨2, 2, [oneLoop (oneLoop .done), oneLoop (oneLoop .done)]⟩

/-- Worker `1` starts the outer task of the first thread, and worker `0` steals the inner one. In
the meantime worker `1` helps with the outer task of the second thread. Worker `0` ends what it had
stolen and steals the inner task of that one. -/
def helperRun : List ℕ :=
  [2, 2] ++ List.replicate 5 1 ++ List.replicate 3 0 ++ [3, 3] ++ List.replicate 10 1 ++
    List.replicate 4 0 ++ List.replicate 5 1 ++ List.replicate 3 2 ++ List.replicate 3 3

/-- In this run all of that holds. -/
theorem nested_never_deadlocks_helper : ∃ s, (system helperGroup).run helperRun = some s ∧
    (∀ i, s.stack i ≠ [] → ∃ j, Relation.ReflTransGen (ThreadWaits s) i j ∧ s.stack j ≠ [] ∧
      (∀ t, ¬ BlockedIn s j t) ∧ ∃ s', step helperGroup s j = some s') ∧
    (∀ i, ∀ F ∈ s.stack i, ∀ todo call, F.point = .get todo call → ∀ t ∈ call.futures,
      s.result t ≠ none ∨ ∃ j, RunsIn s t j) ∧
    ∀ F, ¬ Relation.TransGen (Waits s) F F :=
  ⟨_, rfl, nested_never_deadlocks (show (system helperGroup).run helperRun = some _ from rfl)⟩

/-- What a frame executes, and the tasks of its call. -/
def Frame.view (F : Frame) : Option ℕ × List ℕ := (F.task, F.point.futures)

/-- The state that this run leads to. -/
lemma helper_state : ∃ s, (system helperGroup).run helperRun = some s ∧
    ((s.stack 0).map Frame.view = [(some 3, [])] ∧
      (s.stack 1).map Frame.view = [(some 2, [3]), (some 0, [1])] ∧
      (s.stack 2).map Frame.view = [(none, [0])] ∧ (s.stack 3).map Frame.view = [(none, [2])]) ∧
    BlockedIn s 1 3 ∧ BlockedIn s 2 0 ∧ ∃ s', step helperGroup s 0 = some s' :=
  ⟨_, rfl, ⟨rfl, rfl, rfl, rfl⟩, ⟨_, _, _, _, rfl, rfl, rfl⟩, ⟨_, _, _, _, rfl, rfl, rfl⟩, _, rfl⟩

/-- A call is not over, and every thread that executes or waits for one of its tasks, or for one
that these have submitted, is blocked in `get`: what they wait for is a task of another call.

**Proof sketch.** The state of the run is computed. In it, every frame is known with its task and
its futures, and each of those concerned waits for a task that another one of them has yet to
return. -/
theorem helper_blocked : ∃ s, (system helperGroup).run helperRun = some s ∧
    (∃ F ∈ s.stack 2, F.point.futures = [0] ∧
      ∀ t j, Within s F t → Concerned s t j → ∃ u, BlockedIn s j u) ∧
    ∃ s', step helperGroup s 0 = some s' := by
  obtain ⟨s, hrun, ⟨h0, h1, h2, h3⟩, hb1, hb2, hfree⟩ := helper_state
  have hview : ∀ {j G}, G ∈ s.stack j → j = 0 ∧ G.view = (some 3, []) ∨
      j = 1 ∧ (G.view = (some 2, [3]) ∨ G.view = (some 0, [1])) ∨ j = 2 ∧ G.view = (none, [0]) ∨
      j = 3 ∧ G.view = (none, [2]) := by
    intro j G hG
    have hj : j < 4 := by
      by_contra hj
      rw [(run_sound hrun).outside j (Nat.le_of_not_lt hj)] at hG
      cases hG
    have hmem := List.mem_map_of_mem (f := Frame.view) hG
    have hcases : j = 0 ∨ j = 1 ∨ j = 2 ∨ j = 3 := by omega
    rcases hcases with rfl | rfl | rfl | rfl
    · simpa [h0] using hmem
    · simpa [h1] using hmem
    · simpa [h2] using hmem
    · simpa [h3] using hmem
  obtain ⟨F, hF, hFview⟩ := List.mem_map.1 (h2 ▸ List.mem_singleton_self (none, [0]))
  have hfutures : F.point.futures = [0] := congrArg Prod.snd hFview
  have hwithin : ∀ t, Within s F t → t = 0 ∨ t = 1 := by
    intro t h
    induction h with
    | own ht =>
      rw [hfutures] at ht
      exact .inl (List.mem_singleton.1 ht)
    | nested h hG htask hu ih =>
      have hframe := hview hG
      simp only [Frame.view, Prod.mk.injEq] at hframe
      rw [htask] at hframe
      -- Only the outer task still has a frame with a call.
      rcases hframe with ⟨-, -, hnil⟩ | ⟨-, ⟨htwo, -⟩ | ⟨-, hone⟩⟩ | ⟨-, hnone, -⟩ | ⟨-, hnone, -⟩
      · rw [hnil] at hu
        cases hu
      · have := Option.some.inj htwo
        omega
      · rw [hone] at hu
        exact .inr (List.mem_singleton.1 hu)
      · cases hnone
      · cases hnone
  refine ⟨s, hrun, ⟨F, hF, hfutures, fun t j ht ⟨G, hG, hconcerned⟩ => ?_⟩, hfree⟩
  have htasks := hwithin t ht
  have hthread : j = 1 ∨ j = 2 := by
    have hframe := hview hG
    simp only [Frame.view, Prod.mk.injEq] at hframe
    rcases hframe with ⟨-, htask, hnil⟩ | ⟨h, -⟩ | ⟨h, -⟩ | ⟨-, htask, htwo⟩
    · rw [htask, hnil] at hconcerned
      rcases htasks with rfl | rfl <;> simp at hconcerned
    · exact .inl h
    · exact .inr h
    · rw [htask, htwo] at hconcerned
      rcases htasks with rfl | rfl <;> simp at hconcerned
  rcases hthread with rfl | rfl
  · exact ⟨3, hb1⟩
  · exact ⟨0, hb2⟩

end HkuUtils.NestedFor
