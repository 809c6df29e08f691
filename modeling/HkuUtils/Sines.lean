import Mathlib.Analysis.Complex.Trigonometric
import Mathlib.NumberTheory.Zsqrtd.GaussianInt
import Mathlib.Algebra.Order.Floor.Semiring
import Mathlib.Analysis.SpecialFunctions.Exp

set_option relaxedAutoImplicit false
set_option autoImplicit false

/-!
# Digits of the sines of whole numbers

The point of the circle at the angle `k` is the `k`-th power of the point at the angle `1`, for
which there are the partial sums of the exponential series. They are Gaussian integers over a
factorial, and a power of a point within the circle has at most `k` times its error. So a number of
digits of the sine of `k` is decided by a computation with Gaussian integers.

## Main definitions

* `Sines.partialSum` — a partial sum of the series at `i`, times a factorial.
* `Sines.Decides` — the partial sum is exact enough to tell the whole part of a multiple of a sine.

## Main results

* `Sines.abs_sin_sub_le` — how far the power of a partial sum is from the sine.
* `Sines.floor_mul_abs_sin` — the whole part of a multiple of a sine, from a computation.
-/

namespace Sines

open GaussianInt

/-! ## Partial sums -/

/-- The partial sum up to the `n`-th term of the exponential series at `i`, times `n!`. -/
def partialSum : ℕ → GaussianInt
  | 0 => 1
  | n + 1 => (n + 1) * partialSum n + ⟨0, 1⟩ ^ (n + 1)

/-- The imaginary unit. -/
lemma toComplex_unit : GaussianInt.toComplex ⟨0, 1⟩ = Complex.I := by
  rw [toComplex_def']
  simp

/-- The sums of the series, times a factorial, are whole numbers. -/
lemma toComplex_partialSum (n : ℕ) :
    GaussianInt.toComplex (partialSum n) =
      n.factorial * ∑ m ∈ Finset.range (n + 1), Complex.I ^ m / m.factorial := by
  induction n with
  | zero => simp [partialSum]
  | succ n ih =>
    have hne : ((n + 1).factorial : ℂ) ≠ 0 := Nat.cast_ne_zero.2 (Nat.factorial_ne_zero _)
    rw [partialSum, toComplex_add, toComplex_mul, ih, map_pow, toComplex_unit,
      Finset.sum_range_succ _ (n + 1), mul_add, mul_div_cancel₀ _ hne, Nat.factorial_succ]
    simp
    ring

/-- The point that a partial sum gives. -/
noncomputable def point (n : ℕ) : ℂ := GaussianInt.toComplex (partialSum n) / n.factorial

/-- How far it is from the point of the circle. -/
lemma norm_exp_sub_point_le (n : ℕ) :
    ‖Complex.exp Complex.I - point n‖ ≤ 2 / (n + 1).factorial := by
  have hne : (n.factorial : ℂ) ≠ 0 := Nat.cast_ne_zero.2 (Nat.factorial_ne_zero _)
  have hpoint : point n = ∑ m ∈ Finset.range (n + 1), Complex.I ^ m / m.factorial := by
    rw [point, toComplex_partialSum, mul_div_cancel_left₀ _ hne]
  have hbound := Complex.exp_bound (x := Complex.I) (by simp) (Nat.succ_pos n)
  rw [hpoint]
  refine hbound.trans ?_
  have hpos : (0 : ℝ) < (n + 1).factorial := Nat.cast_pos.2 (Nat.factorial_pos _)
  have hn : (0 : ℝ) < (n : ℝ) + 1 := by positivity
  rw [Complex.norm_I, one_pow, one_mul, ← div_eq_mul_inv, div_le_div_iff₀ (by positivity) hpos]
  push_cast
  nlinarith [mul_nonneg hpos.le (Nat.cast_nonneg (α := ℝ) n)]

/-! ## Powers -/

/-- Powers of two points within the circle.

**Proof sketch.** By induction on the power; the difference of the next powers is split at the
mixed product. -/
lemma norm_pow_sub_pow_le {z w : ℂ} (hz : ‖z‖ ≤ 1) (hw : ‖w‖ ≤ 1) (k : ℕ) :
    ‖z ^ k - w ^ k‖ ≤ k * ‖z - w‖ := by
  induction k with
  | zero => simp
  | succ k ih =>
    have hsplit : z ^ (k + 1) - w ^ (k + 1) = z ^ k * (z - w) + (z ^ k - w ^ k) * w := by ring
    have hzk : ‖z ^ k‖ ≤ 1 := by
      rw [norm_pow]
      exact pow_le_one₀ (norm_nonneg z) hz
    calc ‖z ^ (k + 1) - w ^ (k + 1)‖
        ≤ ‖z ^ k‖ * ‖z - w‖ + ‖z ^ k - w ^ k‖ * ‖w‖ := by
          rw [hsplit, ← norm_mul, ← norm_mul]
          exact norm_add_le _ _
      _ ≤ 1 * ‖z - w‖ + k * ‖z - w‖ * 1 := by
          apply add_le_add
          · exact mul_le_mul_of_nonneg_right hzk (norm_nonneg _)
          · exact mul_le_mul ih hw (norm_nonneg _) (by positivity)
      _ = (k + 1 : ℕ) * ‖z - w‖ := by
          push_cast
          ring

/-- The sine of `k` is the height of the `k`-th power. -/
lemma exp_pow_im (k : ℕ) : (Complex.exp Complex.I ^ k).im = Real.sin k := by
  rw [← Complex.exp_nat_mul, ← Complex.ofReal_natCast, Complex.exp_ofReal_mul_I_im]

/-- A partial sum within the circle. -/
lemma norm_point_le {n : ℕ} (h : (partialSum n).norm ≤ (n.factorial : ℤ) ^ 2) : ‖point n‖ ≤ 1 := by
  have hpos : (0 : ℝ) < n.factorial := Nat.cast_pos.2 (Nat.factorial_pos _)
  have hsq : ‖GaussianInt.toComplex (partialSum n)‖ ^ 2 ≤ (n.factorial : ℝ) ^ 2 := by
    rw [Complex.sq_norm, ← intCast_real_norm]
    exact_mod_cast h
  rw [point, norm_div, Complex.norm_natCast, div_le_one hpos]
  exact le_of_pow_le_pow_left₀ two_ne_zero hpos.le hsq

/-- **How far the power of a partial sum is from the sine.** -/
theorem abs_sin_sub_le {n : ℕ} (h : (partialSum n).norm ≤ (n.factorial : ℤ) ^ 2) (k : ℕ) :
    |Real.sin k - ((partialSum n ^ k).im : ℝ) / (n.factorial : ℝ) ^ k| ≤
      k * (2 / (n + 1).factorial) := by
  have hheight : (point n ^ k).im = ((partialSum n ^ k).im : ℝ) / (n.factorial : ℝ) ^ k := by
    rw [point, div_pow, ← map_pow, ← Nat.cast_pow, Complex.div_natCast_im, intCast_im]
    push_cast
    rfl
  have hexp : ‖Complex.exp Complex.I‖ ≤ 1 := by
    rw [Complex.norm_exp, Complex.I_re, Real.exp_zero]
  calc |Real.sin k - ((partialSum n ^ k).im : ℝ) / (n.factorial : ℝ) ^ k|
      = |(Complex.exp Complex.I ^ k - point n ^ k).im| := by
        rw [Complex.sub_im, exp_pow_im, hheight]
    _ ≤ ‖Complex.exp Complex.I ^ k - point n ^ k‖ := Complex.abs_im_le_norm _
    _ ≤ k * ‖Complex.exp Complex.I - point n‖ := norm_pow_sub_pow_le hexp (norm_point_le h) k
    _ ≤ k * (2 / (n + 1).factorial) :=
        mul_le_mul_of_nonneg_left (norm_exp_sub_point_le n) (Nat.cast_nonneg k)

/-! ## Whole parts -/

/-- The partial sum is within the circle, and it is exact enough to tell that the whole part of `b`
times the size of the sine of `k` is `d`. -/
structure Decides (n b k d : ℕ) : Prop where
  within : (partialSum n).norm ≤ (n.factorial : ℤ) ^ 2
  above : d * n.factorial ^ k * (n + 1).factorial + 2 * b * k * n.factorial ^ k ≤
    b * (partialSum n ^ k).im.natAbs * (n + 1).factorial
  below : b * (partialSum n ^ k).im.natAbs * (n + 1).factorial + 2 * b * k * n.factorial ^ k <
    (d + 1) * n.factorial ^ k * (n + 1).factorial

instance (n b k d : ℕ) : Decidable (Decides n b k d) :=
  decidable_of_iff ((partialSum n).norm ≤ (n.factorial : ℤ) ^ 2 ∧
      d * n.factorial ^ k * (n + 1).factorial + 2 * b * k * n.factorial ^ k ≤
        b * (partialSum n ^ k).im.natAbs * (n + 1).factorial ∧
      b * (partialSum n ^ k).im.natAbs * (n + 1).factorial + 2 * b * k * n.factorial ^ k <
        (d + 1) * n.factorial ^ k * (n + 1).factorial)
    ⟨fun h => ⟨h.1, h.2.1, h.2.2⟩, fun h => ⟨h.within, h.above, h.below⟩⟩

/-- **The whole part of a multiple of a sine, from a computation.**

**Proof sketch.** The imaginary part of the power of the partial sum, over the power of the
factorial, is within `k · 2 / (n + 1)!` of the sine. The two inequalities of `Decides`, divided by
what is positive in them, say that a multiple of it lies between `d` and `d + 1` with room for this
error. -/
theorem floor_mul_abs_sin {n b k d : ℕ} (h : Decides n b k d) :
    ⌊(b : ℝ) * |Real.sin k|⌋₊ = d := by
  have hfac : (0 : ℝ) < (n.factorial : ℝ) ^ k := by
    have := n.factorial_pos
    positivity
  have hnext : (0 : ℝ) < (n + 1).factorial := Nat.cast_pos.2 (Nat.factorial_pos _)
  have habs : ((partialSum n ^ k).im.natAbs : ℝ) = |((partialSum n ^ k).im : ℝ)| := by
    rw [Nat.cast_natAbs, Int.cast_abs]
  have habove : (d : ℝ) * (n.factorial : ℝ) ^ k * (n + 1).factorial
      + 2 * b * k * (n.factorial : ℝ) ^ k ≤
      b * |((partialSum n ^ k).im : ℝ)| * (n + 1).factorial := by
    rw [← habs]
    exact_mod_cast h.above
  have hbelow : b * |((partialSum n ^ k).im : ℝ)| * (n + 1).factorial
      + 2 * b * k * (n.factorial : ℝ) ^ k <
      ((d : ℝ) + 1) * (n.factorial : ℝ) ^ k * (n + 1).factorial := by
    rw [← habs]
    exact_mod_cast h.below
  -- the height that is computed, and how far the sine may be from it
  set q : ℝ := |((partialSum n ^ k).im : ℝ)| / (n.factorial : ℝ) ^ k with hq
  set e : ℝ := k * (2 / (n + 1).factorial) with he
  have hnear : |(|Real.sin k| - q)| ≤ e := by
    rw [hq, ← abs_of_pos hfac, ← abs_div]
    exact (abs_abs_sub_abs_le _ _).trans (abs_sin_sub_le h.within k)
  have hlow : (d : ℝ) + b * e ≤ b * q := by
    have hsum : (d : ℝ) + b * e = (d * (n.factorial : ℝ) ^ k * (n + 1).factorial
        + 2 * b * k * (n.factorial : ℝ) ^ k) / ((n.factorial : ℝ) ^ k * (n + 1).factorial) := by
      rw [he]
      field_simp
    have hprod : b * q = b * |((partialSum n ^ k).im : ℝ)| * (n + 1).factorial
        / ((n.factorial : ℝ) ^ k * (n + 1).factorial) := by
      rw [hq]
      field_simp
    rw [hsum, hprod]
    exact div_le_div_of_nonneg_right habove (by positivity)
  have hhigh : b * q + b * e < (d : ℝ) + 1 := by
    have hsum : b * q + b * e = (b * |((partialSum n ^ k).im : ℝ)| * (n + 1).factorial
        + 2 * b * k * (n.factorial : ℝ) ^ k) / ((n.factorial : ℝ) ^ k * (n + 1).factorial) := by
      rw [hq, he]
      field_simp
    rw [hsum, div_lt_iff₀ (by positivity), ← mul_assoc]
    exact hbelow
  have hb : (0 : ℝ) ≤ b := Nat.cast_nonneg b
  obtain ⟨hleft, hright⟩ := abs_le.1 hnear
  rw [Nat.floor_eq_iff (mul_nonneg hb (abs_nonneg _))]
  constructor
  · nlinarith [mul_le_mul_of_nonneg_left (neg_le_sub_iff_le_add.1 hleft) hb]
  · nlinarith [mul_le_mul_of_nonneg_left hright hb]

end Sines
