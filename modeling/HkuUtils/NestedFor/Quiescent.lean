import HkuUtils.NestedFor.Started

set_option relaxedAutoImplicit false
set_option autoImplicit false

/-!
# What is left of a parallel loop when it exits

A call that takes the results of all of its tasks leaves none behind. But `get` throws what a task
has thrown, and then the tasks behind it in `tasks` may be queued or running after the call has
exited.

## Main definitions

* `HkuUtils.NestedFor.Quiet` — no task of a call that has exited is queued or running.
* `HkuUtils.NestedFor.Clean` — the condition on the steps that throw.

## Main results

* `HkuUtils.NestedFor.step_quiet` — a step keeps the calls quiet exactly if it meets the condition.
* `HkuUtils.NestedFor.quiescent_on_exit`, `task_outlives_call` — the runs in which no task outlives
  its call, and a run in which one does.
-/

namespace HkuUtils.NestedFor

open Transition Algorithm Threads

variable {g : Group} {s s' : State} {i : ℕ}

/-- No task of a call that has exited is queued or running. -/
def Quiet (s : State) : Prop := ∀ t ∈ s.exited, ¬ Queued s t ∧ ∀ j, ¬ RunsIn s t j

/-- The future of which a frame takes the result, and those behind it. -/
def Point.getting : Point → Option (ℕ × List ℕ)
  | .get (t :: behind) _ => some (t, behind)
  | _ => none

/-- The condition on a step. If the thread takes the result of a task that has thrown, the tasks
behind it in `tasks` have ended. -/
def Clean (s : State) (i : ℕ) : Prop :=
  ∀ F ∈ (s.stack i).head?, ∀ r ∈ F.point.getting,
    s.result r.1 = some false → ∀ u ∈ r.2, s.result u ≠ none

instance (s : State) (i : ℕ) : Decidable (Clean s i) :=
  inferInstanceAs (Decidable (∀ F ∈ (s.stack i).head?, ∀ r ∈ F.point.getting,
    s.result r.1 = some false → ∀ u ∈ r.2, s.result u ≠ none))

/-- The tasks of the calls that have exited were submitted. -/
def Known (s : State) : Prop := ∀ t ∈ s.exited, t < s.submitted

/-- Quiet are the calls whose tasks have all ended. -/
lemma quiet_iff (h : Sound g s) (hk : Known s) : Quiet s ↔ ∀ t ∈ s.exited, s.result t ≠ none := by
  refine ⟨fun hq t ht hr => ?_, fun hr t ht => h.settled (hr t ht)⟩
  rcases h.somewhere (hk t ht) hr with hqueued | ⟨j, hrun⟩
  · exact (hq t ht).1 hqueued
  · exact (hq t ht).2 j hrun

/-- A future that is ready stays so, and the number of tasks does not go down. -/
lemma step_grows (h : Sound g s) (hstep : step g s i = some s') :
    s.submitted ≤ s'.submitted ∧ ∀ t, s.result t ≠ none → s'.result t ≠ none := by
  cases steps_of_step hstep with
  | idle | goOn | leave => exact ⟨le_rfl, fun _ => id⟩
  | begin hi hstack hpop =>
    have hp := (h.popped hpop).grows
    exact ⟨hp.submitted, hp.result⟩
  | @finish F rest hstack ok c hpoint =>
    exact ⟨(s.setResult_submitted F.task ok).ge, fun t ht => s.result_setResult F.task ok ht⟩
  | @push F rest hstack piece todo f call hpoint =>
    have hp := (h.push (h.lt_threads (hstack ▸ List.cons_ne_nil F rest)) (Code.loop f piece)).2
    exact ⟨hp.submitted, hp.result⟩
  | help hstack hpoint hpop first =>
    have hp := (h.popped hpop).grows
    exact ⟨hp.submitted, hp.result⟩

/-- What a step adds to the tasks of the calls that have exited: nothing, or the tasks of a call
that is at its last future. -/
lemma step_exited (h : Sound g s) (hstep : step g s i = some s') :
    s'.exited = s.exited ∨ ∃ F rest todo call, s.stack i = F :: rest ∧ F.point = .get todo call ∧
      Last s todo ∧ s'.exited = s.exited ++ call.futures := by
  cases steps_of_step hstep with
  | idle | goOn => exact .inl rfl
  | begin hi hstack hpop => exact .inl (h.popped hpop).exited
  | @finish F rest hstack ok c hpoint => exact .inl (s.setResult_exited F.task ok)
  | @push F rest hstack piece todo f call hpoint =>
    exact .inl (s.push_exited g i (Code.loop f piece))
  | help hstack hpoint hpop first => exact .inl (h.popped hpop).exited
  | @leave F rest hstack todo call hpoint hlast ok =>
    exact .inr ⟨F, rest, todo, call, hstack, hpoint, hlast, rfl⟩

/-- The tasks of the calls that have exited are known after a step as well. -/
lemma step_known (h : Sound g s) (hk : Known s) (hstep : step g s i = some s') : Known s' := by
  have hle := (step_grows h hstep).1
  rcases step_exited h hstep with hsame | ⟨F, rest, todo, call, hstack, hpoint, -, hexited⟩
  · rw [Known, hsame]
    exact fun t ht => (hk t ht).trans_le hle
  · have hknows := h.knows i F (hstack ▸ List.mem_cons_self)
    rw [hpoint] at hknows
    rw [Known, hexited, List.forall_mem_append]
    exact ⟨fun t ht => (hk t ht).trans_le hle, fun t ht => (hknows.1 t ht).1.trans_le hle⟩

/-- A thread that takes the result of a task that has thrown. -/
def Throws (s : State) (i : ℕ) (call : Call) (behind : List ℕ) : Prop :=
  ∃ F rest t, s.stack i = F :: rest ∧ F.point = .get (t :: behind) call ∧ s.result t = some false

/-- The step of a thread that takes such a result. -/
lemma Throws.step {call : Call} {behind : List ℕ} (h : Throws s i call behind)
    (hstep : step g s i = some s') :
    s'.exited = s.exited ++ call.futures ∧ s'.result = s.result := by
  obtain ⟨F, rest, t, hstack, hpoint, hr⟩ := h
  rw [NestedFor.step, hstack] at hstep
  simp only [stepFrame, hpoint, hr, Option.map_some] at hstep
  obtain rfl := Option.some.inj hstep
  exact ⟨rfl, rfl⟩

/-- What the condition says of a thread that takes such a result. -/
lemma Throws.clean_iff {call : Call} {behind : List ℕ} (h : Throws s i call behind) :
    Clean s i ↔ ∀ u ∈ behind, s.result u ≠ none := by
  obtain ⟨F, rest, t, hstack, hpoint, hr⟩ := h
  have hhead : (s.stack i).head? = some F := by
    rw [hstack, List.head?_cons]
  have hgetting : F.point.getting = some (t, behind) := by
    rw [hpoint, Point.getting]
  refine ⟨fun hclean => hclean F hhead (t, behind) hgetting hr, fun hbehind G hG r hr' _ => ?_⟩
  obtain rfl : F = G := Option.some.inj (hhead.symm.trans hG)
  obtain rfl : (t, behind) = r := Option.some.inj (hgetting.symm.trans hr')
  exact hbehind

/-- A thread that takes no such result meets the condition. -/
lemma clean_of_not_throws (h : ∀ call behind, ¬ Throws s i call behind) : Clean s i := by
  intro F hF r hr hthrown
  exfalso
  cases hpoint : F.point with
  | get todo call =>
    rw [hpoint] at hr
    cases todo with
    | nil => cases hr
    | cons t behind =>
      obtain rfl : (t, behind) = r := Option.some.inj hr
      obtain ⟨rest, hstack⟩ := List.head?_eq_some_iff.1 hF
      exact h call behind ⟨F, rest, t, hstack, hpoint, hthrown⟩
  | _ =>
    rw [hpoint] at hr
    cases hr

/-- **One step** keeps the calls quiet exactly if it meets the condition.

**Proof sketch.** Only a step that throws out of `get` ends a call before its time. There, the
futures before the one that throws are ready, so what is left to ask for is that those behind it
are. -/
theorem step_quiet (h : Sound g s) (hk : Known s) (hq : Quiet s) (hstep : step g s i = some s') :
    Quiet s' ↔ Clean s i := by
  rw [quiet_iff h hk] at hq
  refine Iff.trans (quiet_iff (step_sound h hstep) (step_known h hk hstep)) ?_
  by_cases hthrow : ∃ call behind, Throws s i call behind
  · obtain ⟨call, behind, hthrow⟩ := hthrow
    obtain ⟨hexited, hresult⟩ := hthrow.step hstep
    rw [hthrow.clean_iff, hexited, hresult, List.forall_mem_append]
    -- The futures before the one that throws are ready.
    obtain ⟨F, rest, t, hstack, hpoint, hr⟩ := hthrow
    have hknows := h.knows i F (hstack ▸ List.mem_cons_self)
    rw [hpoint] at hknows
    obtain ⟨-, ⟨got, heq, hgot⟩, -⟩ := hknows
    rw [heq, List.forall_mem_append, List.forall_mem_cons]
    have ht : s.result t ≠ none := by
      rw [hr]
      exact Option.some_ne_none false
    exact ⟨fun hall => hall.2.2.2, fun hbehind => ⟨hq, hgot, ht, hbehind⟩⟩
  · have hno : ∀ call behind, ¬ Throws s i call behind := fun call behind hthrows =>
      hthrow ⟨call, behind, hthrows⟩
    refine iff_of_true (fun t ht => (step_grows h hstep).2 t ?_) (clean_of_not_throws hno)
    rcases step_exited h hstep with hsame | ⟨F, rest, todo, call, hstack, hpoint, hlast, hexited⟩
    · exact hq t (hsame ▸ ht)
    · rw [hexited, List.mem_append] at ht
      rcases ht with ht | ht
      · exact hq t ht
      · rcases hlast with rfl | ⟨u, behind, rfl, hr⟩
        · have hknows := h.knows i F (hstack ▸ List.mem_cons_self)
          rw [hpoint] at hknows
          obtain ⟨-, ⟨got, heq, hgot⟩, -⟩ := hknows
          rw [heq, List.append_nil] at ht
          exact hgot t ht
        · exact absurd ⟨F, rest, u, hstack, hpoint, hr⟩ (hno call behind)

/-- **Quiescence on exit**: a run has no task that is queued or running after its call has exited,
in any state that it goes through, exactly if all tasks behind a task that has thrown have ended
when its result is taken.

**Proof sketch.** A step keeps the calls quiet exactly if it meets the condition, by `step_quiet`,
so this is the rule for exact conditions. -/
theorem quiescent_on_exit {is : List ℕ} (hrun : (system g).run is = some s) :
    (system g).Always Quiet is ↔ (system g).Along Clean is := by
  refine System.always_iff_along (S := system g) (J := fun s => Sound g s ∧ Known s)
    ⟨sound_init g, ?_⟩ ?_ ?_ ?_ hrun
  · exact fun t ht => absurd ht List.not_mem_nil
  · exact fun t ht => absurd ht List.not_mem_nil
  · exact fun s i s' h hstep => ⟨step_sound h.1 hstep, step_known h.1 h.2 hstep⟩
  · exact fun s i s' h hq hstep => step_quiet h.1 h.2 hq hstep

/-- One worker, and a thread with a loop with two indices, whose first task throws. -/
def throwGroup : Group :=
  ⟨1, 1, [globalParallelForIndexVoidSingle 0 2 (fun i => if i = 0 then .throw else .done)
    fun _ => .done]⟩

/-- The worker ends both tasks before the call takes their results. -/
def quietRun : List ℕ :=
  List.replicate 3 1 ++ List.replicate 6 0 ++ List.replicate 6 1

/-- The worker has started the second task when the call takes the result of the first one. -/
def throwRun : List ℕ :=
  List.replicate 3 1 ++ List.replicate 5 0 ++ List.replicate 5 1

/-- In this run the call exits by an exception, and no task outlives it. -/
theorem quiescent_on_exit_both : ∃ s, (system throwGroup).run quietRun = some s ∧
    s.exited = [0, 1] ∧ (system throwGroup).Always Quiet quietRun :=
  ⟨_, rfl, rfl,
    (quiescent_on_exit (show (system throwGroup).run quietRun = some _ from rfl)).2 (by decide)⟩

/-- The call has exited by an exception, and its second task is running. -/
theorem task_outlives_call : ∃ s, (system throwGroup).run throwRun = some s ∧ s.exited = [0, 1] ∧
    RunsIn s 1 0 ∧ ¬ Quiet s := by
  refine ⟨_, rfl, rfl, ⟨_, List.mem_cons_self, rfl⟩, fun hquiet => ?_⟩
  exact (hquiet 1 (List.mem_cons_of_mem 0 List.mem_cons_self)).2 0 ⟨_, List.mem_cons_self, rfl⟩

end HkuUtils.NestedFor
