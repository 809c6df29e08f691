import HkuUtils.ThreadPool.Tasks

set_option relaxedAutoImplicit false
set_option autoImplicit false

/-!
# One caller of a pool

Where a single thread submits tasks to a pool and then calls `join`, nothing is submitted after the
call. So all tasks are promised, and all of them were executed when the call has returned.

## Main definitions

* `HkuUtils.ThreadPool.Joining` — a call of `join` that has promised all tasks.

## Main results

* `HkuUtils.ThreadPool.joining_of_step`, `Joining.work` — one step.
* `HkuUtils.ThreadPool.Joining.executed` — what holds when the call has returned.
-/

namespace HkuUtils.ThreadPool

open Threads

variable {p : Pool} {m m' : Memory} {l l' : Stage} {n : ℕ}

/-- A call of `join` that has promised the tasks below `n`. -/
structure Joining (p : Pool) (n : ℕ) (m : Memory) (l : Stage) : Prop where
  promised : l.promised = n
  all : Promised p m
  kept : Kept m l
  begun : l ≠ .start ∧ l ≠ .stop

/-- A step inside of a call changes nothing of what it has promised. -/
lemma promised_of_act_go (ha : act p m l .go = some (m', l')) :
    l'.promised = l.promised ∧ l' ≠ .start ∧ l' ≠ .stop := by
  generalize haction : Action.go = a at ha
  cases acts_of_act ha with
  | callSubmit | callStop | callJoin => cases haction
  | search hl hl' =>
    have hzero : l.promised = 0 := by
      cases l <;> first | rfl | exact absurd hl Bool.false_ne_true
    rw [hzero]
    rcases hl' with hl' | rfl
    · cases l' <;> first | exact absurd hl' Bool.false_ne_true | exact ⟨rfl, nofun, nofun⟩
    · exact ⟨rfl, nofun, nofun⟩
  | _ => exact ⟨rfl, nofun, nofun⟩

/-- A call in a pool that nobody ends promises all tasks. -/
lemma joining_of_call (hfresh : Fresh p m) (ha : act p m .start .join = some (m', l')) :
    Joining p m.submitted m' l' := by
  cases ha
  exact ⟨rfl, hfresh.due, ⟨le_rfl, nofun⟩, nofun, nofun⟩

namespace Joining

/-- A step of the call. -/
lemma act (hu : p.untilEmpty = true) (h : Joining p n m l) (hl : Knows p m l)
    (ha : act p m l .go = some (m', l')) : Joining p n m' l' := by
  obtain ⟨hpromised, hbegun⟩ := promised_of_act_go ha
  have horderly : Orderly p ⟨m, [l]⟩ (.act 0 .go) := by
    intro hthread _
    exact absurd (Option.some.inj hthread) h.begun.2
  obtain ⟨hall, hkept⟩ := act_promised (s := ⟨m, [l]⟩) hu horderly rfl hl h.all h.kept ha
  exact ⟨hpromised.trans h.promised, hall, hkept, hbegun⟩

/-- A step of a worker. -/
lemma work {i : ℕ} (h : Joining p n m l) (hsound : Sound p m) (hw : work p m i = some m') :
    Joining p n m' l := by
  have hrely := (work_sound hsound hw).2
  refine ⟨h.promised, work_promised h.all hw, ⟨h.kept.1.trans hrely.promised, ?_⟩, h.begun⟩
  exact fun k hk t ht => hrely.executed t (h.kept.2 k hk t ht)

/-- **All tasks were executed** when the call has returned. -/
theorem executed {k t : ℕ} (h : Joining p n m (.returned k)) (ht : t < n) : t ∈ m.executed := by
  have hk : k = n := h.promised
  exact h.kept.2 k rfl t (hk ▸ ht)

end Joining

/-- A call of `join` that promises the tasks below `n`, from its first step on. -/
lemma joining_of_step (hu : p.untilEmpty = true) (hl : Knows p m l)
    (h : l = .start ∧ Fresh p m ∧ m.submitted = n ∨ Joining p n m l)
    (ha : act p m l (if l = .start then .join else .go) = some (m', l')) : Joining p n m' l' := by
  rcases h with ⟨rfl, hfresh, hsub⟩ | hjoining
  · rw [← hsub]
    exact joining_of_call hfresh ha
  · rw [if_neg hjoining.begun.1] at ha
    exact hjoining.act hu hl ha

end HkuUtils.ThreadPool
