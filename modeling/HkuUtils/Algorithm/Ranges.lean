import Mathlib.Algebra.Group.Nat.Defs
import Mathlib.Data.List.Basic
import Mathlib.Order.Nat

set_option relaxedAutoImplicit false
set_option autoImplicit false

/-!
# Splitting an index range

`parallelIndexRange` splits the indices of a loop into ranges: one of the same size for each thread,
and then one for each index that is left.

## Main definitions

* `HkuUtils.Algorithm.parallelIndexRange` — the function, with the arithmetic of `size_t`.
* `HkuUtils.Algorithm.Splits` — consecutive ranges that are not empty and together make up a range.

## Main results

* `HkuUtils.Algorithm.splits_parallelIndexRange` — the ranges split the given one.
* `HkuUtils.Algorithm.Splits.flatMap_indices`, `Splits.flatMap_eq` — what is computed range by range
  is computed for the whole range.
-/

namespace HkuUtils.Algorithm

/-! ## The function -/

/-- The value of an expression of the type `size_t`. -/
def wrap (n : ℕ) : ℕ := n % 2 ^ 64

/-- The indices of the loop `for (size_t i = first; i < last; i++)`. -/
def indices (first last : ℕ) : List ℕ := List.range' first (last - first)

/-- `parallelIndexRange`: as many ranges of the same length as there are threads, and the indices
that are left one by one.

The arithmetic is that of `size_t`; `hardware` is what `std::thread::hardware_concurrency`
returns. -/
def parallelIndexRange (hardware start stop cpuNum : ℕ) : List (ℕ × ℕ) :=
  if stop ≤ start then []
  else
    let total := stop - start
    let cpuNum := if cpuNum = 0 then hardware else cpuNum
    if cpuNum ≤ 1 then [(start, stop)]
    else
      let perNum := total / cpuNum
      (if 0 < perNum then
        (List.range cpuNum).map fun i =>
          (wrap (i * perNum + start), wrap (wrap (i * perNum + start) + perNum))
      else []) ++
        (indices (wrap (perNum * cpuNum + start)) stop).map fun i => (i, i + 1)

/-! ## Ranges -/

/-- Consecutive ranges that are not empty, from `a` to `b`. -/
def Splits (a b : ℕ) : List (ℕ × ℕ) → Prop
  | [] => a = b
  | r :: rs => r.1 = a ∧ r.1 < r.2 ∧ Splits r.2 b rs

instance decidableSplits (a b : ℕ) : ∀ rs, Decidable (Splits a b rs)
  | [] => inferInstanceAs (Decidable (a = b))
  | r :: rs =>
    have := decidableSplits r.2 b rs
    inferInstanceAs (Decidable (_ ∧ _ ∧ _))

namespace Splits

variable {a b c : ℕ} {rs rs' : List (ℕ × ℕ)}

/-- Ranges do not go back. -/
lemma le (h : Splits a b rs) : a ≤ b := by
  induction rs generalizing a with
  | nil => exact Nat.le_of_eq h
  | cons r rs ih =>
    obtain ⟨rfl, hlt, hrest⟩ := h
    exact hlt.le.trans (ih hrest)

/-- Ranges from `a` to `b` and from `b` to `c`. -/
lemma append (h : Splits a b rs) (h' : Splits b c rs') : Splits a c (rs ++ rs') := by
  induction rs generalizing a with
  | nil =>
    obtain rfl : a = b := h
    exact h'
  | cons r rs ih => exact ⟨h.1, h.2.1, ih h.2.2⟩

/-- Ranges of the same size. -/
lemma chunks (a n : ℕ) {k : ℕ} (hk : 0 < k) :
    Splits a (n * k + a) ((List.range n).map fun i => (i * k + a, i * k + a + k)) := by
  induction n with
  | zero => simp [Splits]
  | succ n ih =>
    rw [List.range_succ, List.map_append, List.map_singleton]
    refine ih.append ⟨rfl, ?_, ?_⟩
    · exact Nat.lt_add_of_pos_right hk
    · show n * k + a + k = (n + 1) * k + a
      rw [Nat.succ_mul]
      omega

/-- Ranges of one index. -/
lemma singles {a b : ℕ} (h : a ≤ b) : Splits a b ((indices a b).map fun i => (i, i + 1)) := by
  obtain ⟨n, rfl⟩ := Nat.exists_eq_add_of_le h
  rw [indices, Nat.add_sub_cancel_left]
  induction n generalizing a with
  | zero => rfl
  | succ n ih =>
    rw [List.range'_succ, List.map_cons]
    refine ⟨rfl, Nat.lt_succ_self a, ?_⟩
    have := ih (Nat.le_add_right (a + 1) n)
    rwa [Nat.add_right_comm] at this

/-- The indices of the ranges are the indices of the whole. -/
lemma flatMap_indices (h : Splits a b rs) :
    rs.flatMap (fun r => indices r.1 r.2) = indices a b := by
  induction rs generalizing a with
  | nil =>
    obtain rfl : a = b := h
    simp [indices]
  | cons r rs ih =>
    obtain ⟨rfl, hlt, hrest⟩ := h
    have hle := hrest.le
    rw [List.flatMap_cons, ih hrest, indices, indices, indices]
    have hmid : r.2 = r.1 + 1 * (r.2 - r.1) := by omega
    conv_lhs => rw [hmid]
    rw [Nat.one_mul, Nat.add_sub_cancel_left]
    have happ := @List.range'_append r.1 (r.2 - r.1) (b - r.2) 1
    rw [Nat.one_mul] at happ
    have hlen : b - r.1 = r.2 - r.1 + (b - r.2) := by omega
    rw [hlen, ← happ]
    congr 2
    omega

/-- What composes over adjacent ranges is computed range by range. -/
lemma flatMap_eq {β : Type} {f : ℕ × ℕ → List β} (h : Splits a b rs) (hne : rs ≠ [])
    (hf : ∀ x y z, a ≤ x → x ≤ y → y ≤ z → z ≤ b → f (x, y) ++ f (y, z) = f (x, z)) :
    rs.flatMap f = f (a, b) := by
  induction rs generalizing a with
  | nil => exact absurd rfl hne
  | cons r rs ih =>
    obtain ⟨rfl, hlt, hrest⟩ := h
    rw [List.flatMap_cons]
    cases rs with
    | nil =>
      obtain rfl : r.2 = b := hrest
      simp
    | cons r' rs =>
      have hle := hlt.le
      rw [ih hrest (by simp) fun x y z hx => hf x y z (hle.trans hx)]
      exact hf r.1 r.2 b le_rfl hle hrest.le le_rfl

end Splits

/-! ## The ranges of the function -/

/-- An empty range has no parts. -/
lemma parallelIndexRange_nil {start stop : ℕ} (h : stop ≤ start) (hardware cpuNum : ℕ) :
    parallelIndexRange hardware start stop cpuNum = [] := if_pos h

/-- **The ranges split the given one.** The products and sums are at most `stop`, so that none of
them wraps.

**Proof sketch.** The ranges begin where the one before ends, each with the quotient of indices,
and the last one has what is left. No product or sum is above `stop`, so that none of them is cut
to 64 bits. -/
theorem splits_parallelIndexRange {start stop : ℕ} (h : start < stop) (hstop : stop < 2 ^ 64)
    (hardware cpuNum : ℕ) :
    Splits start stop (parallelIndexRange hardware start stop cpuNum) := by
  rw [parallelIndexRange, if_neg (not_le.2 h)]
  dsimp only
  generalize (if cpuNum = 0 then hardware else cpuNum) = n
  split
  · exact ⟨rfl, h, rfl⟩
  · next hn =>
    have hdiv := Nat.div_mul_le_self (stop - start) n
    have hwrap : ∀ i ≤ n, i * ((stop - start) / n) + start ≤ stop := by
      intro i hi
      have := Nat.mul_le_mul_right ((stop - start) / n) hi
      rw [Nat.mul_comm n] at this
      omega
    have hbase : wrap ((stop - start) / n * n + start) = n * ((stop - start) / n) + start := by
      have := hwrap n le_rfl
      rw [wrap, Nat.mul_comm, Nat.mod_eq_of_lt (by omega)]
    rw [hbase]
    refine Splits.append (b := n * ((stop - start) / n) + start) ?_
      (Splits.singles (hwrap n le_rfl))
    split
    · next hper =>
      have hmap : (List.range n).map (fun i =>
          (wrap (i * ((stop - start) / n) + start),
            wrap (wrap (i * ((stop - start) / n) + start) + (stop - start) / n))) =
          (List.range n).map fun i => (i * ((stop - start) / n) + start,
            i * ((stop - start) / n) + start + (stop - start) / n) := by
        refine List.map_congr_left fun i hi => ?_
        have hi' := hwrap (i + 1) (List.mem_range.1 hi)
        rw [Nat.succ_mul] at hi'
        have hfirst : wrap (i * ((stop - start) / n) + start) =
            i * ((stop - start) / n) + start := Nat.mod_eq_of_lt (by omega)
        rw [hfirst, wrap, Nat.mod_eq_of_lt (by omega)]
      rw [hmap]
      exact Splits.chunks start n hper
    · next hper =>
      rw [Nat.eq_zero_of_not_pos hper, Nat.mul_zero, Nat.zero_add]
      exact rfl

/-- A range that is not empty has parts. -/
lemma parallelIndexRange_ne_nil {start stop : ℕ} (h : start < stop) (hstop : stop < 2 ^ 64)
    (hardware cpuNum : ℕ) : parallelIndexRange hardware start stop cpuNum ≠ [] := by
  intro hnil
  have hsplits := splits_parallelIndexRange h hstop hardware cpuNum
  rw [hnil] at hsplits
  exact h.ne hsplits

end HkuUtils.Algorithm
