import Mathlib.Algebra.BigOperators.Group.Finset.Piecewise
import Mathlib.Algebra.BigOperators.Group.List.Basic
import Mathlib.Algebra.GroupWithZero.Nat
import Mathlib.Algebra.Ring.Int.Defs
import HkuUtils.Transition

set_option relaxedAutoImplicit false
set_option autoImplicit false

/-!
# Threads over a shared memory

Any number of threads run one program on a shared memory, one atomic action at a time and in any
order. A thread is its local state: the program counter with what it holds in local variables.

## Main definitions

* `Threads.Program` — the actions of a thread, and the steps of the environment.
* `Threads.Program.system` — the interleavings, as a transition system.

## Main results

* `Threads.sum_update` — how a sum over a family changes when one member changes.
* `Threads.sum_map_set` — how a sum over all threads changes when one thread moves.
* `Threads.Program.run_sum` — a quantity of the memory that is a sum over the threads stays so.
* `Threads.Program.step_rely` — what every thread knows if the others keep what it relies on.
-/

namespace Threads

open Transition

universe u v w x

/-- The actions of the threads. -/
structure Program (σ : Type u) (L : Type v) (A : Type w) (E : Type x) where
  /-- The local state that a thread starts in. -/
  start : L
  /-- The memory and the local state after an atomic action, if that is possible. -/
  act : σ → L → A → Option (σ × L)
  /-- The memory after a step that no thread takes. -/
  env : σ → E → Option σ

/-- The memory and the threads, in the order of their start. -/
structure State (σ : Type u) (L : Type v) where
  shared : σ
  threads : List L
  deriving DecidableEq

/-- A step of the whole. -/
inductive Event (A : Type w) (E : Type x) where
  /-- A thread starts. -/
  | spawn
  /-- The thread `i` takes an action. -/
  | act (i : ℕ) (a : A)
  | env (e : E)

variable {σ : Type u} {L : Type v} {A : Type w} {E : Type x}

namespace Program

variable (prog : Program σ L A E)

/-- The step of an event. -/
def step (s : State σ L) : Event A E → Option (State σ L)
  | .spawn => some { s with threads := s.threads ++ [prog.start] }
  | .act i a =>
    s.threads[i]?.bind fun l =>
      (prog.act s.shared l a).map fun r => ⟨r.1, s.threads.set i r.2⟩
  | .env e => (prog.env s.shared e).map fun m => { s with shared := m }

/-- The interleavings of any number of threads on a memory. -/
def system (m : σ) : System (State σ L) (Event A E) where
  init := ⟨m, []⟩
  step := prog.step

/-- What an event can do. -/
inductive Steps (s : State σ L) : Event A E → State σ L → Prop where
  | spawn : Steps s .spawn { s with threads := s.threads ++ [prog.start] }
  | act {i : ℕ} {a : A} {l l' : L} {m : σ} (hl : s.threads[i]? = some l)
    (ha : prog.act s.shared l a = some (m, l')) : Steps s (.act i a) ⟨m, s.threads.set i l'⟩
  | env {e : E} {m : σ} (he : prog.env s.shared e = some m) :
    Steps s (.env e) { s with shared := m }

variable {prog}

/-- Inversion of a step. -/
theorem steps_of_step {s t : State σ L} {e : Event A E} (h : prog.step s e = some t) :
    prog.Steps s e t := by
  cases e with
  | spawn => exact Option.some.inj h ▸ .spawn
  | act i a =>
    obtain ⟨l, hl, h⟩ := Option.bind_eq_some_iff.mp h
    obtain ⟨⟨m, l'⟩, ha, rfl⟩ := Option.map_eq_some_iff.mp h
    exact .act hl ha
  | env e =>
    obtain ⟨m, he, rfl⟩ := Option.map_eq_some_iff.mp h
    exact .env he

/-- A thread that can act can do so in the whole. -/
lemma step_act {s : State σ L} {i : ℕ} {a : A} {l l' : L} {m : σ} (hl : s.threads[i]? = some l)
    (ha : prog.act s.shared l a = some (m, l')) :
    prog.step s (.act i a) = some ⟨m, s.threads.set i l'⟩ := by
  rw [step, hl, Option.bind_some, ha]
  rfl

/-- A step of the environment is one of the whole. -/
lemma step_env {s : State σ L} {e : E} {m : σ} (he : prog.env s.shared e = some m) :
    prog.step s (.env e) = some { s with shared := m } := by
  rw [step, he]
  rfl

end Program

/-- When one member of a family changes, a sum over the family changes by what it contributes. -/
lemma sum_update {α : Type} (f : ℕ → α → ℕ) (g : ℕ → α) {n i : ℕ} (hi : i < n) (a : α) :
    (∑ j ∈ Finset.range n, f j (Function.update g i a j)) + f i (g i) =
      (∑ j ∈ Finset.range n, f j (g j)) + f i a := by
  have hmem : i ∈ Finset.range n := Finset.mem_range.2 hi
  have hrest : ∑ j ∈ (Finset.range n).erase i, f j (Function.update g i a j) =
      ∑ j ∈ (Finset.range n).erase i, f j (g j) := by
    refine Finset.sum_congr rfl fun j hj => ?_
    rw [Function.update_of_ne (Finset.ne_of_mem_erase hj)]
  rw [← Finset.sum_erase_add _ _ hmem, ← Finset.sum_erase_add _ (fun j => f j (g j)) hmem, hrest,
    Function.update_self]
  omega

/-- A member outside of the family contributes nothing. -/
lemma sum_update_of_le {α : Type} (f : ℕ → α → ℕ) (g : ℕ → α) {n i : ℕ} (hi : n ≤ i) (a : α) :
    ∑ j ∈ Finset.range n, f j (Function.update g i a j) = ∑ j ∈ Finset.range n, f j (g j) := by
  refine Finset.sum_congr rfl fun j hj => ?_
  have hne : j ≠ i := by
    have := Finset.mem_range.1 hj
    omega
  rw [Function.update_of_ne hne]

/-- When one thread moves, the others stay. -/
lemma mem_set_of_ne {ls : List L} {i : ℕ} {l k : L} (hl : ls[i]? = some l) (hk : k ∈ ls)
    (hne : k ≠ l) (l' : L) : k ∈ ls.set i l' := by
  obtain ⟨j, hj⟩ := List.mem_iff_getElem?.1 hk
  have hij : i ≠ j := by
    rintro rfl
    exact hne (Option.some.inj (hj.symm.trans hl))
  exact List.mem_iff_getElem?.2 ⟨j, by rw [List.getElem?_set_ne hij, hj]⟩

/-- The thread that moves is where it was. -/
lemma mem_set_self {ls : List L} {i : ℕ} {l : L} (hl : ls[i]? = some l) (l' : L) :
    l' ∈ ls.set i l' :=
  List.mem_set (List.getElem?_eq_some_iff.1 hl).1 l'

/-- When one thread moves, a sum over all threads changes by what that thread contributes. -/
lemma sum_map_set (f : L → ℤ) {ls : List L} {i : ℕ} {l : L} (hl : ls[i]? = some l) (l' : L) :
    ((ls.set i l').map f).sum = (ls.map f).sum - f l + f l' := by
  obtain ⟨hi, rfl⟩ := List.getElem?_eq_some_iff.mp hl
  have hi' : i < (ls.map f).length := by simpa using hi
  rw [List.map_set, List.sum_set', dif_pos hi', List.getElem_map]
  omega

/-- A thread that goes on changes a sum of natural numbers by what it contributes. -/
lemma sum_map_set_add {α : Type} (f : α → ℕ) {ls : List α} {i : ℕ} {a : α} (ha : ls[i]? = some a)
    (b : α) : ((ls.set i b).map f).sum + f a = (ls.map f).sum + f b := by
  induction ls generalizing i with
  | nil => simp at ha
  | cons x ls ih =>
    cases i with
    | zero =>
      obtain rfl : x = a := by simpa using ha
      simp only [List.set_cons_zero, List.map_cons, List.sum_cons]
      omega
    | succ i =>
      have := ih (i := i) (by simpa using ha)
      simp only [List.set_cons_succ, List.map_cons, List.sum_cons]
      omega

/-- How many threads there are of a kind changes by the one that goes on. -/
lemma countP_set_add {α : Type} (p : α → Bool) {ls : List α} {i : ℕ} {a : α} (ha : ls[i]? = some a)
    (b : α) : (ls.set i b).countP p + (if p a then 1 else 0) =
      ls.countP p + if p b then 1 else 0 := by
  induction ls generalizing i with
  | nil => simp at ha
  | cons x ls ih =>
    cases i with
    | zero =>
      obtain rfl : x = a := by simpa using ha
      simp only [List.set_cons_zero, List.countP_cons]
      omega
    | succ i =>
      have := ih (i := i) (by simpa using ha)
      simp only [List.set_cons_succ, List.countP_cons]
      omega

/-- A thread that starts adds what it contributes. -/
lemma sum_map_concat (f : L → ℤ) (ls : List L) (l : L) :
    ((ls ++ [l]).map f).sum = (ls.map f).sum + f l := by
  simp

/-- A sum of contributions that are not negative is not negative. -/
lemma sum_map_nonneg {f : L → ℤ} (hf : ∀ l, 0 ≤ f l) (ls : List L) : 0 ≤ (ls.map f).sum := by
  induction ls with
  | nil => simp
  | cons l ls ih =>
    have := hf l
    rw [List.map_cons, List.sum_cons]
    omega

namespace Program

variable {prog : Program σ L A E}

/-- **A quantity of the memory that is a sum over the threads** stays so, if it starts so and each
action changes it by the change of the contribution of the thread.

**Proof sketch.** By induction on the run; an action replaces the contribution of one thread. -/
theorem run_sum (value : σ → ℤ) (contrib : L → ℤ) {m : σ} (hinit : value m = 0)
    (hstart : contrib prog.start = 0)
    (hact : ∀ m l a m' l', prog.act m l a = some (m', l') →
      value m' - contrib l' = value m - contrib l)
    (henv : ∀ m e m', prog.env m e = some m' → value m' = value m) {s : State σ L}
    {es : List (Event A E)} (hrun : (prog.system m).run es = some s) :
    value s.shared = (s.threads.map contrib).sum := by
  refine System.run_invariant (I := fun s => value s.shared = (s.threads.map contrib).sum) hinit
    ?_ hrun
  intro s e t h hstep
  cases steps_of_step hstep with
  | spawn =>
    rw [sum_map_concat, hstart, add_zero]
    exact h
  | act hl ha =>
    have := hact _ _ _ _ _ ha
    rw [sum_map_set contrib hl]
    simp only
    omega
  | env he => exact (henv _ _ _ he).trans h

/-- **What the threads rely on.** Let `I` be a property of the memory and `Q` what a thread knows,
and let `R` relate the memory before and after a step. If a step keeps `I`, gives the acting thread
what it has to know and is one that `R` allows, and `R` keeps what the others know, then after it
`I` holds and every thread knows `Q`.

**Proof sketch.** One case for each step. The thread that acts knows what its step gives it, and
the others what is stable under it. -/
theorem step_rely {I : σ → Prop} {Q : σ → L → Prop} {R : σ → σ → Prop} {s t : State σ L}
    {e : Event A E} (h : I s.shared ∧ ∀ l ∈ s.threads, Q s.shared l)
    (hstart : Q s.shared prog.start)
    (hact : ∀ i a l m l', e = .act i a → s.threads[i]? = some l → Q s.shared l →
      prog.act s.shared l a = some (m, l') → I m ∧ Q m l' ∧ R s.shared m)
    (henv : ∀ d m, e = .env d → prog.env s.shared d = some m → I m ∧ R s.shared m)
    (hstable : ∀ m l, R s.shared m → Q s.shared l → Q m l) (hstep : prog.step s e = some t) :
    I t.shared ∧ ∀ l ∈ t.threads, Q t.shared l := by
  obtain ⟨hI, hQ⟩ := h
  cases steps_of_step hstep with
  | spawn =>
    refine ⟨hI, ?_⟩
    rw [List.forall_mem_append, List.forall_mem_singleton]
    exact ⟨hQ, hstart⟩
  | act hl ha =>
    obtain ⟨hI', hQ', hR⟩ := hact _ _ _ _ _ rfl hl (hQ _ (List.mem_of_getElem? hl)) ha
    refine ⟨hI', fun l hl' => ?_⟩
    rcases List.mem_or_eq_of_mem_set hl' with hl' | rfl
    · exact hstable _ l hR (hQ l hl')
    · exact hQ'
  | env he =>
    obtain ⟨hI', hR⟩ := henv _ _ rfl he
    exact ⟨hI', fun l hl => hstable _ l hR (hQ l hl)⟩

end Program

end Threads
