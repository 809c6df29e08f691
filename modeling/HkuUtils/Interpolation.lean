import Mathlib.Algebra.Order.Field.Basic
import Mathlib.Algebra.Order.Floor.Ring
import Mathlib.Tactic.Linarith
import Mathlib.Tactic.Ring

set_option relaxedAutoImplicit false
set_option autoImplicit false

/-!
# Linear interpolation

The points of a sequence, joined by straight lines.

## Main definitions

* `Interpolation.lin` — the value of the polygon at a place.

## Main results

* `Interpolation.lin_mono` — the polygon of an increasing sequence is increasing.
* `Interpolation.lin_le_lin_iff` — and strictly so between two different points.
-/

namespace Interpolation

universe u

variable {K : Type u} [Field K] [LinearOrder K] [IsStrictOrderedRing K] [FloorRing K]
  {v : ℕ → K} {x y t : K} {k : ℕ}

/-- The value at the place `x` of the polygon through the points of a sequence. -/
def lin (v : ℕ → K) (x : K) : K :=
  v ⌊x⌋₊ + (x - ⌊x⌋₊) * (v (⌊x⌋₊ + 1) - v ⌊x⌋₊)

/-- Between two neighbouring points. -/
lemma lin_add (v : ℕ → K) (k : ℕ) (h0 : 0 ≤ t) (h1 : t < 1) :
    lin v (k + t) = v k + t * (v (k + 1) - v k) := by
  have hfloor : ⌊(k : K) + t⌋₊ = k := by
    rw [Nat.floor_eq_iff (by positivity)]
    constructor <;> linarith
  rw [lin, hfloor]
  ring

/-- At a point. -/
@[simp]
lemma lin_natCast (v : ℕ → K) (k : ℕ) : lin v k = v k := by
  simpa using lin_add v k le_rfl (zero_lt_one (α := K))

/-- Each place is behind the point before it. -/
lemma exists_place (hx : 0 ≤ x) : ∃ (k : ℕ) (t : K), x = k + t ∧ 0 ≤ t ∧ t < 1 := by
  refine ⟨⌊x⌋₊, x - ⌊x⌋₊, by ring, ?_, ?_⟩
  · have := Nat.floor_le hx
    linarith
  · have := Nat.lt_floor_add_one x
    linarith

/-- The value is not below that of the point before. -/
lemma le_lin_add (hv : Monotone v) (h0 : 0 ≤ t) (h1 : t < 1) : v k ≤ lin v (k + t) := by
  rw [lin_add v k h0 h1]
  have hstep : 0 ≤ v (k + 1) - v k := sub_nonneg.mpr (hv k.le_succ)
  have := mul_nonneg h0 hstep
  linarith

/-- Nor above that of the point behind. -/
lemma lin_add_le (hv : Monotone v) (h0 : 0 ≤ t) (h1 : t < 1) : lin v (k + t) ≤ v (k + 1) := by
  rw [lin_add v k h0 h1]
  have hstep : 0 ≤ v (k + 1) - v k := sub_nonneg.mpr (hv k.le_succ)
  have := mul_le_of_le_one_left hstep h1.le
  linarith

/-- **The polygon of an increasing sequence is increasing.**

**Proof sketch.** Both places are on lines of the polygon. On the same line its slope is not
negative; otherwise a vertex lies between them. -/
theorem lin_mono (hv : Monotone v) (hx : 0 ≤ x) (hxy : x ≤ y) : lin v x ≤ lin v y := by
  obtain ⟨j, s, rfl, hs0, hs1⟩ := exists_place hx
  obtain ⟨k, t, rfl, ht0, ht1⟩ := exists_place (hx.trans hxy)
  have hjk : j ≤ k := by
    have hlt : (j : K) < (k + 1 : ℕ) := by
      push_cast
      linarith
    exact Nat.lt_succ_iff.mp (Nat.cast_lt.mp hlt)
  rcases hjk.eq_or_lt with rfl | hlt
  · -- on one line
    rw [lin_add v j hs0 hs1, lin_add v j ht0 ht1]
    have hstep : 0 ≤ v (j + 1) - v j := sub_nonneg.mpr (hv j.le_succ)
    have := mul_le_mul_of_nonneg_right (show s ≤ t by linarith) hstep
    linarith
  · calc lin v (j + s) ≤ v (j + 1) := lin_add_le hv hs0 hs1
      _ ≤ v k := hv hlt
      _ ≤ lin v (k + t) := le_lin_add hv ht0 ht1

/-- **Two places on one line**, in their order: the values are in the other one when the points
differ. -/
theorem lin_le_lin_iff {s : K} (hs : 0 ≤ s) (hst : s < t) (ht : t < 1) :
    lin v (k + t) ≤ lin v (k + s) ↔ v (k + 1) ≤ v k := by
  rw [lin_add v k (hs.trans hst.le) ht, lin_add v k hs (hst.trans ht)]
  have hdiff : v k + s * (v (k + 1) - v k) - (v k + t * (v (k + 1) - v k)) =
      (t - s) * (v k - v (k + 1)) := by ring
  rw [← sub_nonneg, hdiff, mul_nonneg_iff_of_pos_left (sub_pos.mpr hst), sub_nonneg]

end Interpolation
