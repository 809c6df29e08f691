import Mathlib.Algebra.Order.Ring.Rat
import Mathlib.Data.List.GetD
import Mathlib.Data.List.Sort
import Mathlib.Data.Rat.Floor
import Mathlib.Tactic.NormNum
import HkuUtils.Interpolation

set_option relaxedAutoImplicit false
set_option autoImplicit false

/-!
# Quantiles of a sorted vector

`get_quantile` joins the elements of a vector by straight lines, and at the whole positions it takes
the mean of the two neighbours instead, which is the value half a cell further on. So just behind a
whole position the value is less than at it.

## Main definitions

* `HkuUtils.Arithmetic.getQuantile`, `isInteger` — the functions of the source, on exact numbers.
* `HkuUtils.Arithmetic.cells`, `place` — the points of the polygon, and the place at which it is
  read.
* `HkuUtils.Arithmetic.Overshoots` — two quantiles in the wrong order.

## Main results

* `HkuUtils.Arithmetic.getQuantile_eq` — every quantile is a value of the polygon; no access is
  outside of the vector.
* `HkuUtils.Arithmetic.getQuantile_bounds` — quantiles lie between the ends of the vector, and are
  in order unless they overshoot.

## Design

The numbers are rational, and the tolerance of `isInteger` is 0. An access outside of the vector is
`none`; an index is an integer, for `pos - 1` may be negative.
-/

namespace HkuUtils.Arithmetic

open Interpolation

/-- A floating point number. -/
inductive Value where
  | nan
  | number (x : ℚ)
  deriving DecidableEq

/-- `isInteger`. -/
def isInteger (num : ℚ) : Bool := num - ⌊num⌋ = 0

/-- `vec[i]`. -/
def element (vec : List ℚ) (i : ℤ) : Option ℚ := if 0 ≤ i then vec[i.toNat]? else none

/-- `get_quantile`.

A position that is whole takes the mean of two neighbours, and any other one a point between two
neighbours. An access outside of the vector is `none`. -/
def getQuantile (vec : List ℚ) (quantile : ℚ) : Option Value :=
  if vec.isEmpty then some .nan
  else if quantile ≤ 0 then vec.head?.map .number
  else if 1 ≤ quantile then vec.getLast?.map .number
  else
    let qpos := vec.length * quantile
    if qpos ≤ 1 then (element vec 0).map .number
    else if isInteger qpos then do
      let pos : ℤ := ⌊qpos⌋₊
      let a ← element vec (pos - 1)
      let b ← element vec pos
      return .number ((a + b) / 2)
    else do
      let pos : ℤ := ⌊qpos⌋₊
      let x := qpos - pos
      let a ← element vec (pos - 1)
      let b ← element vec pos
      return .number (a + x * (b - a))

/-! ## The polygon -/

variable {vec : List ℚ} {p q : ℚ} {k : ℕ}

/-- The points of the polygon: the elements from the place 1 on, with the first one at the place 0
as well, and the last one behind the others. -/
def cells (vec : List ℚ) (k : ℕ) : ℚ := vec.getD (min (k - 1) (vec.length - 1)) 0

/-- The place at which `get_quantile` reads the polygon. -/
def place (vec : List ℚ) (quantile : ℚ) : ℚ :=
  if quantile ≤ 0 then 0
  else if 1 ≤ quantile then vec.length
  else
    let qpos := vec.length * quantile
    if 1 < qpos ∧ isInteger qpos then qpos + 1 / 2 else qpos

/-- A number is whole if it is its own floor. -/
lemma isInteger_iff : isInteger p = true ↔ p = ⌊p⌋ := by
  rw [isInteger, decide_eq_true_iff, sub_eq_zero]

/-- An element of the vector as a point of the polygon. -/
lemma cells_eq (h : k < vec.length) : cells vec (k + 1) = vec[k] := by
  rw [cells, Nat.add_sub_cancel, min_eq_left (by omega), List.getD_eq_getElem _ _ h]

/-- The points of an ascending vector ascend. -/
lemma cells_mono (hne : vec ≠ []) (hvec : vec.SortedLE) : Monotone (cells vec) := by
  have hpos := List.length_pos_of_ne_nil hne
  have hlt : ∀ m, min m (vec.length - 1) < vec.length := fun m => by omega
  intro i j hij
  rw [cells, cells, List.getD_eq_getElem _ _ (hlt _), List.getD_eq_getElem _ _ (hlt _)]
  apply hvec.getElem_le_getElem_of_le
  omega

/-- The first point. -/
lemma cells_zero (hne : vec ≠ []) : cells vec 0 = vec.head hne := by
  have hpos := List.length_pos_of_ne_nil hne
  rw [cells, Nat.zero_sub, Nat.zero_min, List.getD_eq_getElem _ _ hpos, List.head_eq_getElem]

/-- The last point. -/
lemma cells_length (hne : vec ≠ []) : cells vec vec.length = vec.getLast hne := by
  have hpos := List.length_pos_of_ne_nil hne
  rw [cells, min_self, List.getD_eq_getElem _ _ (by omega), List.getLast_eq_getElem]

/-- An access inside of the vector. -/
lemma element_eq (h : k < vec.length) : element vec k = some (cells vec (k + 1)) := by
  rw [element, if_pos (Int.natCast_nonneg k), Int.toNat_natCast, List.getElem?_eq_getElem h,
    cells_eq h]

/-! ## The value of a quantile -/

/-- The place lies between the first point and the last.

**Proof sketch.** By cases on the quantile: it is clamped to the first or the last point, or lies
between them. At a whole position the next cell is added, and there is one, since the position is
before the last. -/
lemma place_bounds (hne : vec ≠ []) (quantile : ℚ) :
    0 ≤ place vec quantile ∧ place vec quantile ≤ vec.length := by
  have hpos : (0 : ℚ) < vec.length := by exact_mod_cast List.length_pos_of_ne_nil hne
  rw [place]
  split
  · exact ⟨le_rfl, hpos.le⟩
  next h0 =>
  split
  · exact ⟨hpos.le, le_rfl⟩
  next h1 =>
  rw [not_le] at h0 h1
  have hq0 : 0 < vec.length * quantile := mul_pos hpos h0
  have hq1 : vec.length * quantile < vec.length := mul_lt_of_lt_one_right hpos h1
  simp only
  split
  · next h =>
    -- there is a whole number of cells behind a whole position
    obtain ⟨k, hk⟩ : ∃ k : ℤ, vec.length * quantile = k := ⟨_, isInteger_iff.mp h.2⟩
    rw [hk] at hq0 hq1 ⊢
    have hlt : k + 1 ≤ (vec.length : ℤ) := by exact_mod_cast hq1
    have hle : (k : ℚ) + 1 ≤ vec.length := by exact_mod_cast hlt
    constructor <;> linarith
  · exact ⟨hq0.le, hq1.le⟩

/-- In front of the first element the polygon is level. -/
lemma lin_cells_of_le_one {x : ℚ} (h0 : 0 ≤ x) (h1 : x ≤ 1) :
    lin (cells vec) x = cells vec 1 := by
  rcases h1.eq_or_lt with rfl | hlt
  · simpa using lin_natCast (cells vec) 1
  · have hsame : cells vec (0 + 1) = cells vec 0 := rfl
    have := lin_add (cells vec) 0 h0 hlt
    simpa [hsame] using this

/-- A whole position. -/
lemma isInteger_natCast_add {t : ℚ} (h0 : 0 ≤ t) (h1 : t < 1) :
    isInteger (k + t) = true ↔ t = 0 := by
  have hfloor : ⌊(k : ℚ) + t⌋ = k := by
    rw [Int.floor_natCast_add, Int.floor_eq_zero_iff.mpr ⟨h0, h1⟩, add_zero]
  rw [isInteger_iff, hfloor, Int.cast_natCast, add_eq_left]

/-- **The value of a quantile** is that of the polygon, and no access is outside of the vector.

**Proof sketch.** One case for each branch of the source: below the first place, behind the last
one, up to the first cell, at a whole position and between two. In each, the elements that are read
are cells of the vector. -/
theorem getQuantile_eq (hne : vec ≠ []) (quantile : ℚ) :
    getQuantile vec quantile = some (.number (lin (cells vec) (place vec quantile))) := by
  have hlen := List.length_pos_of_ne_nil hne
  have hpos : (0 : ℚ) < vec.length := by exact_mod_cast hlen
  rw [getQuantile, if_neg (by simpa using hne), place]
  split
  · rw [List.head?_eq_some_head hne, Option.map_some, ← cells_zero hne]
    simpa using (lin_natCast (cells vec) 0).symm
  next h0 =>
  split
  · rw [List.getLast?_eq_some_getLast hne, Option.map_some, ← cells_length hne, lin_natCast]
  next h1 =>
  rw [not_le] at h0 h1
  have hq0 : 0 < vec.length * quantile := mul_pos hpos h0
  have hq1 : vec.length * quantile < vec.length := mul_lt_of_lt_one_right hpos h1
  generalize vec.length * quantile = x at hq0 hq1 ⊢
  simp only
  by_cases hx : x ≤ 1
  · rw [if_pos hx, if_neg (fun h => absurd h.1 (not_lt.mpr hx)), lin_cells_of_le_one hq0.le hx]
    exact congrArg (Option.map Value.number) (element_eq hlen)
  obtain ⟨k, t, rfl, ht0, ht1⟩ := exists_place hq0.le
  rw [not_le] at hx
  have hk1 : 1 ≤ k := by
    have hlt : (1 : ℚ) < (k + 1 : ℕ) := by
      push_cast
      linarith
    exact Nat.lt_succ_iff.mp (by exact_mod_cast hlt)
  have hkn : k < vec.length := by
    have hlt : (k : ℚ) < vec.length := by linarith
    exact_mod_cast hlt
  have hfloor : ⌊(k : ℚ) + t⌋₊ = k := by
    rw [Nat.floor_eq_iff (by positivity)]
    constructor <;> linarith
  -- both of the elements that are read are there
  have hbefore : element vec ((k : ℤ) - 1) = some (cells vec k) := by
    obtain ⟨j, rfl⟩ : ∃ j, k = j + 1 := ⟨k - 1, by omega⟩
    rw [Nat.cast_add, Nat.cast_one, add_sub_cancel_right]
    exact element_eq (by omega)
  have hbehind : element vec k = some (cells vec (k + 1)) := element_eq hkn
  rw [if_neg (not_le.mpr hx), hfloor, hbefore, hbehind]
  by_cases hint : isInteger (k + t) = true
  · rw [if_pos hint, if_pos ⟨hx, hint⟩, (isInteger_natCast_add ht0 ht1).mp hint, add_zero,
      lin_add (cells vec) k (by norm_num) (by norm_num)]
    simp only [Option.bind_eq_bind, Option.bind_some, Option.pure_def, Option.some.injEq,
      Value.number.injEq]
    ring
  · rw [if_neg hint, if_neg (fun h => hint h.2), lin_add (cells vec) k ht0 ht1]
    simp only [Option.bind_eq_bind, Option.bind_some, Option.pure_def, Option.some.injEq,
      Value.number.injEq, Int.cast_natCast]
    ring

/-! ## Quantiles in order -/

/-- The quantile `p` is at a whole position, where the mean of two different neighbours is taken,
and `q` is less than half a cell behind it. -/
def Overshoots (vec : List ℚ) (p q : ℚ) : Prop :=
  ∃ k : ℕ, 2 ≤ k ∧ vec.length * p = k ∧ (k : ℚ) < vec.length * q ∧ vec.length * q < k + 1 / 2 ∧
    ∃ h : k < vec.length, vec[k - 1] < vec[k]

/-- A position inside of the vector comes from a quantile between 0 and 1. -/
lemma quantile_of_position (hkn : k < vec.length) (h0 : 0 < vec.length * p)
    (h1 : vec.length * p < k + 1) : ¬ p ≤ 0 ∧ ¬ 1 ≤ p := by
  have hlen : (0 : ℚ) < vec.length := by exact_mod_cast (Nat.zero_le k).trans_lt hkn
  have hle : (k : ℚ) + 1 ≤ vec.length := by exact_mod_cast hkn
  constructor
  · intro h
    have := mul_nonpos_of_nonneg_of_nonpos hlen.le h
    linarith
  · intro h
    have := le_mul_of_one_le_right hlen.le h
    linarith

/-- At a whole position behind the first element the polygon is read half a cell further on. -/
lemma place_of_whole (hk : 2 ≤ k) (hkn : k < vec.length) (hp : vec.length * p = k) :
    place vec p = k + 1 / 2 := by
  have hk1 : (1 : ℚ) < k := by exact_mod_cast hk
  obtain ⟨h0, h1⟩ := quantile_of_position hkn (p := p) (by linarith) (by linarith)
  have hint : isInteger (k : ℚ) = true := by simp [isInteger]
  rw [place, if_neg h0, if_neg h1, hp, if_pos ⟨hk1, hint⟩]

/-- Elsewhere it is read at the position. -/
lemma place_of_between (hk : 2 ≤ k) (hkn : k < vec.length) (hlt : (k : ℚ) < vec.length * q)
    (hlt' : vec.length * q < k + 1 / 2) : place vec q = vec.length * q := by
  have hk1 : (1 : ℚ) < k := by exact_mod_cast hk
  obtain ⟨h0, h1⟩ := quantile_of_position hkn (p := q) (by linarith) (by linarith)
  have hint : ¬ isInteger (k + (vec.length * q - k)) = true := by
    rw [isInteger_natCast_add (by linarith) (by linarith)]
    linarith
  rw [add_sub_cancel] at hint
  rw [place, if_neg h0, if_neg h1, if_neg (fun h => hint h.2)]

/-- The place is not in front of the position. -/
lemma le_place (h0 : ¬ p ≤ 0) (h1 : ¬ 1 ≤ p) : vec.length * p ≤ place vec p := by
  rw [place, if_neg h0, if_neg h1]
  simp only
  split
  · linarith
  · exact le_rfl

/-- **The places of two quantiles** are in their order, unless the first is at a whole position and
the second less than half a cell behind it.

**Proof sketch.** At a whole position from 2 on the place is half a cell further than the position;
everywhere else it is the position, pushed up to the first cell. So the order can only fail if the
first quantile is at a whole position and the second in the half cell behind it. -/
lemma place_le_or (hne : vec ≠ []) (hpq : p ≤ q) :
    place vec p ≤ place vec q ∨
      ∃ k : ℕ, 2 ≤ k ∧ k < vec.length ∧ vec.length * p = k ∧ (k : ℚ) < vec.length * q ∧
        vec.length * q < k + 1 / 2 := by
  have hlen : (0 : ℚ) < vec.length := by exact_mod_cast List.length_pos_of_ne_nil hne
  by_cases hp0 : p ≤ 0
  · left
    rw [place, if_pos hp0]
    exact (place_bounds hne q).1
  by_cases hq1 : 1 ≤ q
  · left
    conv_rhs => rw [place, if_neg (by linarith), if_pos hq1]
    exact (place_bounds hne p).2
  have hp1 : ¬ 1 ≤ p := fun h => hq1 (h.trans hpq)
  have hle : vec.length * p ≤ vec.length * q := mul_le_mul_of_nonneg_left hpq hlen.le
  have hplace : vec.length * q ≤ place vec q := le_place (by linarith) hq1
  by_cases hwhole : 1 < vec.length * p ∧ isInteger (vec.length * p) = true
  · obtain ⟨k, hk⟩ : ∃ k : ℕ, vec.length * p = k := by
      refine ⟨⌊vec.length * p⌋.toNat, ?_⟩
      have hnonneg : 0 ≤ ⌊vec.length * p⌋ := Int.floor_nonneg.mpr (by linarith [hwhole.1])
      conv_lhs => rw [isInteger_iff.mp hwhole.2]
      exact_mod_cast (Int.toNat_of_nonneg hnonneg).symm
    have hk2 : 2 ≤ k := by
      have hlt := hwhole.1
      rw [hk] at hlt
      exact_mod_cast hlt
    have hkn : k < vec.length := by
      have hlt := mul_lt_of_lt_one_right hlen (not_le.mp hp1)
      rw [hk] at hlt
      exact_mod_cast hlt
    rw [hk] at hle
    rcases hle.eq_or_lt with heq | hlt
    · left
      rw [place_of_whole hk2 hkn hk, place_of_whole hk2 hkn heq.symm]
    · rcases lt_or_ge (vec.length * q) (k + 1 / 2) with hlt' | hge
      · exact .inr ⟨k, hk2, hkn, hk, hlt, hlt'⟩
      · left
        rw [place_of_whole hk2 hkn hk]
        exact hge.trans hplace
  · left
    conv_lhs => rw [place, if_neg hp0, if_neg hp1]
    simp only [if_neg hwhole]
    exact hle.trans hplace

/-- The values are in order unless the quantiles overshoot.

**Proof sketch.** The polygon of an ascending vector ascends, so the order of the places is that of
the values. Where the places are in the other order, both are on the line behind the whole position
`k`, whose ends are `vec[k - 1]` and `vec[k]`. -/
lemma lin_place_le_iff (hne : vec ≠ []) (hvec : vec.SortedLE) (hpq : p ≤ q) :
    lin (cells vec) (place vec p) ≤ lin (cells vec) (place vec q) ↔ ¬ Overshoots vec p q := by
  rcases place_le_or hne hpq with hle | ⟨k, hk2, hkn, hp, hlt, hlt'⟩
  · refine iff_of_true (lin_mono (cells_mono hne hvec) (place_bounds hne p).1 hle) ?_
    rintro ⟨k, hk2, hp, hlt, hlt', hkn, -⟩
    rw [place_of_whole hk2 hkn hp, place_of_between hk2 hkn hlt hlt'] at hle
    linarith
  · obtain ⟨j, rfl⟩ : ∃ j, k = j + 1 := ⟨k - 1, by omega⟩
    have hq : vec.length * q = (j + 1 : ℕ) + (vec.length * q - (j + 1 : ℕ)) := by ring
    rw [place_of_whole hk2 hkn hp, place_of_between hk2 hkn hlt hlt', hq,
      lin_le_lin_iff (by linarith) (by linarith) (by norm_num), cells_eq hkn,
      cells_eq (by omega : j < vec.length)]
    constructor
    · rintro hge ⟨m, hm2, hm, -, -, hmn, hstep⟩
      obtain rfl : j + 1 = m := by exact_mod_cast hp.symm.trans hm
      exact absurd hstep (not_lt.mpr hge)
    · intro hnot
      by_contra hge
      exact hnot ⟨j + 1, hk2, hp, hlt, hlt', hkn, not_le.mp hge⟩

/-- **Quantiles lie between the ends of the vector**, no access is outside of it, and they are in
order unless they overshoot.

**Proof sketch.** A quantile is the value of a piecewise linear function at its place, which is
between the first point and the last. The function is monotone, so two quantiles are in order
unless their places are not. -/
theorem getQuantile_bounds (vec : List ℚ) (hne : vec ≠ []) (hvec : vec.SortedLE) (p q : ℚ)
    (hpq : p ≤ q) :
    ∃ x y, getQuantile vec p = some (.number x) ∧ getQuantile vec q = some (.number y) ∧
      (vec.head hne ≤ x ∧ x ≤ vec.getLast hne) ∧ (vec.head hne ≤ y ∧ y ≤ vec.getLast hne) ∧
      (x ≤ y ↔ ¬ Overshoots vec p q) := by
  have hmono := cells_mono hne hvec
  have hbounds : ∀ r, vec.head hne ≤ lin (cells vec) (place vec r) ∧
      lin (cells vec) (place vec r) ≤ vec.getLast hne := by
    intro r
    obtain ⟨h0, h1⟩ := place_bounds hne r
    constructor
    · have hfirst := lin_mono hmono le_rfl h0
      rwa [show (0 : ℚ) = (0 : ℕ) from Nat.cast_zero.symm, lin_natCast, cells_zero hne] at hfirst
    · have hlast := lin_mono hmono h0 h1
      rwa [lin_natCast, cells_length hne] at hlast
  exact ⟨_, _, getQuantile_eq hne p, getQuantile_eq hne q, hbounds p, hbounds q,
    lin_place_le_iff hne hvec hpq⟩

/-- The median and the third quartile of four elements, both at whole positions. -/
theorem getQuantile_bounds_quartiles :
    ∃ x y, getQuantile [0, 1, 2, 3] (1 / 2) = some (.number x) ∧
      getQuantile [0, 1, 2, 3] (3 / 4) = some (.number y) ∧ (0 ≤ x ∧ x ≤ 3) ∧ (0 ≤ y ∧ y ≤ 3) ∧
      (x ≤ y ↔ ¬ Overshoots [0, 1, 2, 3] (1 / 2) (3 / 4)) :=
  getQuantile_bounds [0, 1, 2, 3] (by decide) (by decide) (1 / 2) (3 / 4) (by norm_num)

/-- The median of four elements is greater than the quantile 11/20 of them. -/
theorem not_getQuantile_mono :
    ¬ ∀ vec : List ℚ, ∀ hne : vec ≠ [], vec.SortedLE → ∀ p q : ℚ, p ≤ q →
      ∃ x y, getQuantile vec p = some (.number x) ∧ getQuantile vec q = some (.number y) ∧
        vec.head hne ≤ x ∧ x ≤ y ∧ y ≤ vec.getLast hne := by
  intro hall
  have hne : ([0, 1, 2, 3] : List ℚ) ≠ [] := by decide
  obtain ⟨x, y, hx, hy, -, hle, -⟩ := hall _ hne (by decide) (1 / 2) (11 / 20) (by norm_num)
  have hp : place [0, 1, 2, 3] (1 / 2) = (2 : ℕ) + 1 / 2 :=
    place_of_whole le_rfl (by decide) (by norm_num)
  have hq : place [0, 1, 2, 3] (11 / 20) = (2 : ℕ) + 1 / 5 := by
    rw [place_of_between (k := 2) le_rfl (by decide) (by norm_num) (by norm_num)]
    norm_num
  rw [getQuantile_eq hne, hp, lin_add _ _ (by norm_num) (by norm_num)] at hx
  rw [getQuantile_eq hne, hq, lin_add _ _ (by norm_num) (by norm_num)] at hy
  norm_num [cells] at hx hy
  linarith

end HkuUtils.Arithmetic
