import Mathlib.Data.List.Basic

set_option relaxedAutoImplicit false
set_option autoImplicit false

/-!
# Machines with outputs

A machine answers each input and moves to another state. Two machines with the same inputs and
outputs can be compared by what they answer; a machine may agree with another one only as long as
its inputs meet a condition.

## Main definitions

* `Reactive.Machine` — the machines.
* `Reactive.Machine.outputs` — the answers to a list of inputs.
* `Reactive.Machine.Along` — a condition that each input meets in the state it finds.

## Main results

* `Reactive.Machine.outputs_eq_iff` — the inputs for which two machines answer the same.
-/

namespace Reactive

universe u v w x

/-- A machine with states `σ`, inputs `ι` and outputs `ο`. -/
structure Machine (σ : Type u) (ι : Type v) (ο : Type w) where
  /-- The state before any input. -/
  init : σ
  /-- The answer to an input, and the state after it. -/
  step : σ → ι → ο × σ

namespace Machine

variable {σ : Type u} {τ : Type x} {ι : Type v} {ο : Type w} (M : Machine σ ι ο)

/-- The answers to some inputs from a state. -/
def outputsFrom (s : σ) : List ι → List ο
  | [] => []
  | i :: is => (M.step s i).1 :: outputsFrom (M.step s i).2 is

/-- The answers to some inputs. -/
def outputs (is : List ι) : List ο := M.outputsFrom M.init is

/-- The inputs meet `C` in the states they find, from a state on. -/
def AlongFrom (C : σ → ι → Prop) (s : σ) : List ι → Prop
  | [] => True
  | i :: is => C s i ∧ AlongFrom C (M.step s i).2 is

/-- The inputs meet `C` in the states they find. -/
def Along (C : σ → ι → Prop) (is : List ι) : Prop := M.AlongFrom C M.init is

instance decidableAlongFrom (C : σ → ι → Prop) [∀ s i, Decidable (C s i)] :
    ∀ s is, Decidable (M.AlongFrom C s is)
  | _, [] => isTrue trivial
  | s, i :: is =>
    have : Decidable (M.AlongFrom C (M.step s i).2 is) := decidableAlongFrom C _ is
    inferInstanceAs (Decidable (_ ∧ _))

instance (C : σ → ι → Prop) [∀ s i, Decidable (C s i)] (is : List ι) : Decidable (M.Along C is) :=
  inferInstanceAs (Decidable (M.AlongFrom C M.init is))

/-- Without calls there are no answers. -/
@[simp]
lemma outputsFrom_nil (s : σ) : M.outputsFrom s [] = [] := rfl

/-- The first answer and the others. -/
@[simp]
lemma outputsFrom_cons (s : σ) (i : ι) (is : List ι) :
    M.outputsFrom s (i :: is) = (M.step s i).1 :: M.outputsFrom (M.step s i).2 is := rfl

/-- **Agreement along a condition.** Let the relation `R` hold initially. If from related states an
input that meets `C` gets the same answer and leads to related states, and one that does not meet
`C` gets different answers, then the machines answer some inputs the same exactly if these meet
`C`.

**Proof sketch.** By induction on the inputs, for related states. Equal answers to the first input
mean that it meets the condition, and then the states behind it are related again. -/
theorem outputs_eq_iff {M : Machine σ ι ο} {N : Machine τ ι ο} {R : σ → τ → Prop}
    {C : σ → ι → Prop} (hinit : R M.init N.init)
    (hmeets : ∀ s t i, R s t → C s i →
      (M.step s i).1 = (N.step t i).1 ∧ R (M.step s i).2 (N.step t i).2)
    (hfails : ∀ s t i, R s t → ¬ C s i → (M.step s i).1 ≠ (N.step t i).1) (is : List ι) :
    M.outputs is = N.outputs is ↔ M.Along C is := by
  suffices h : ∀ s t, R s t → (M.outputsFrom s is = N.outputsFrom t is ↔ M.AlongFrom C s is) from
    h M.init N.init hinit
  induction is with
  | nil => exact fun s t _ => iff_of_true rfl trivial
  | cons i is ih =>
    intro s t hR
    rw [outputsFrom_cons, outputsFrom_cons, List.cons.injEq, AlongFrom]
    constructor
    · rintro ⟨hout, hrest⟩
      have hC : C s i := by
        by_contra hC
        exact hfails s t i hR hC hout
      exact ⟨hC, (ih _ _ (hmeets s t i hR hC).2).mp hrest⟩
    · rintro ⟨hC, hrest⟩
      obtain ⟨hout, hR'⟩ := hmeets s t i hR hC
      exact ⟨hout, (ih _ _ hR').mpr hrest⟩

end Machine

end Reactive
