import Mathlib.Algebra.Order.Ring.Int
import HkuUtils.Http

set_option relaxedAutoImplicit false
set_option autoImplicit false

/-!
# Padded texts and their order

Texts that are filled up to a width, and numbers written with leading zeros. Texts are compared byte
by byte; where all numbers have the same width, their texts are in the order of the numbers.

## Main definitions

* `Padding.alignRight`, `alignLeft` — a text filled up on its left, or on its right.
* `Padding.zeroPadded` — a number with leading zeros.

## Main results

* `Padding.append_lt_append_iff` — texts with fronts of the same length.
* `Padding.zeroPadded_lt_iff` — the order of numbers of some width.
-/

namespace Padding

open Http (decimal)

/-! ## Widths -/

/-- A text with a fill on its left. -/
def alignRight (fill : UInt8) (width : ℕ) (t : List UInt8) : List UInt8 :=
  List.replicate (width - t.length) fill ++ t

/-- A text with a fill on its right. -/
def alignLeft (fill : UInt8) (width : ℕ) (t : List UInt8) : List UInt8 :=
  t ++ List.replicate (width - t.length) fill

/-- A number with leading zeros. -/
def zeroPadded (width n : ℕ) : List UInt8 := alignRight 48 width (decimal n)

/-- A digit. -/
def digit (n : ℕ) : UInt8 := 48 + UInt8.ofNat n

example : zeroPadded 4 37 = [48, 48, 51, 55] := by decide +kernel

/-- Nothing is filled into a text that is wide enough. -/
lemma alignRight_eq_self {fill : UInt8} {width : ℕ} {t : List UInt8} (h : width ≤ t.length) :
    alignRight fill width t = t := by
  rw [alignRight, Nat.sub_eq_zero_of_le h]
  rfl

/-- Nothing is filled into a text that is wide enough. -/
lemma alignLeft_eq_self {fill : UInt8} {width : ℕ} {t : List UInt8} (h : width ≤ t.length) :
    alignLeft fill width t = t := by
  rw [alignLeft, Nat.sub_eq_zero_of_le h]
  exact List.append_nil t

/-! ## Digits -/

/-- A number of one digit. -/
lemma decimal_of_lt {n : ℕ} (h : n < 10) : decimal n = [digit n] := by
  rw [decimal]
  split
  · rename_i hn
    rw [hn]
    rfl
  · rename_i hn
    rw [Nat.digits_of_lt 10 n hn h]
    rfl

/-- The last digit of a number. -/
lemma decimal_of_le {n : ℕ} (h : 10 ≤ n) : decimal n = decimal (n / 10) ++ [digit (n % 10)] := by
  have hn : n ≠ 0 := by omega
  have hquot : n / 10 ≠ 0 := by omega
  rw [decimal, if_neg hn, decimal, if_neg hquot, Nat.digits_eq_cons_digits_div (by omega) hn,
    List.reverse_cons, List.map_append]
  rfl

/-- The last digit of a number with leading zeros. -/
lemma zeroPadded_succ {width n : ℕ} (hwidth : 0 < width) :
    zeroPadded (width + 1) n = zeroPadded width (n / 10) ++ [digit (n % 10)] := by
  rw [zeroPadded, zeroPadded]
  by_cases h : n < 10
  · have hquot : n / 10 = 0 := by omega
    have hmod : n % 10 = n := by omega
    have hzero : decimal 0 = [48] := rfl
    rw [hquot, hmod, decimal_of_lt h, hzero]
    obtain ⟨w, rfl⟩ := Nat.exists_eq_succ_of_ne_zero hwidth.ne'
    simp [alignRight, List.replicate_succ']
  · rw [decimal_of_le (not_lt.mp h), alignRight, alignRight, List.append_assoc, List.length_append]
    simp

/-- The width of a number that fits. -/
lemma length_zeroPadded {width n : ℕ} (hwidth : 0 < width) (hn : n < 10 ^ width) :
    (zeroPadded width n).length = width := by
  induction width generalizing n with
  | zero => omega
  | succ w ih =>
    by_cases hw : w = 0
    · rw [hw] at hn ⊢
      rw [zeroPadded, decimal_of_lt (by simpa using hn)]
      rfl
    · have hquot : n / 10 < 10 ^ w := by
        rw [pow_succ] at hn
        omega
      rw [zeroPadded_succ (by omega), List.length_append, ih (by omega) hquot]
      rfl

/-! ## Order -/

/-- Texts with fronts of the same length: the fronts decide, or they are the same. -/
lemma append_lt_append_iff {a b : List UInt8} (h : a.length = b.length) (x y : List UInt8) :
    a ++ x < b ++ y ↔ a < b ∨ a = b ∧ x < y := by
  induction a generalizing b with
  | nil =>
    rw [List.length_nil, eq_comm, List.length_eq_zero_iff] at h
    simp [h]
  | cons c a ih =>
    cases b with
    | nil => cases h
    | cons d b =>
      rw [List.cons_append, List.cons_append, List.cons_lt_cons_iff, List.cons_lt_cons_iff,
        ih (Nat.succ.inj h), List.cons.injEq]
      tauto

/-- Digits are in the order of their numbers. -/
lemma digit_lt_iff {n k : ℕ} (hn : n < 10) (hk : k < 10) : digit n < digit k ↔ n < k := by
  rw [UInt8.lt_iff_toNat_lt, digit, digit, Http.toNat_digit hn, Http.toNat_digit hk]
  omega

/-- Texts in the order of their numbers are different for different numbers. -/
lemma eq_iff_of_lt_iff {text : ℕ → List UInt8} {bound : ℕ}
    (h : ∀ n k, n < bound → k < bound → (text n < text k ↔ n < k)) {n k : ℕ} (hn : n < bound)
    (hk : k < bound) : text n = text k ↔ n = k := by
  refine ⟨fun heq => ?_, fun heq => by rw [heq]⟩
  rcases Nat.lt_trichotomy n k with hlt | heq' | hlt
  · have htext := (h n k hn hk).mpr hlt
    rw [heq, h k k hk hk] at htext
    exact absurd htext (lt_irrefl k)
  · exact heq'
  · have htext := (h k n hk hn).mpr hlt
    rw [heq, h k k hk hk] at htext
    exact absurd htext (lt_irrefl k)

/-- **Numbers with leading zeros are in their order.**

**Proof sketch.** By induction on the width: the last digits decide only where the fronts, which
have the same width, are the same. -/
lemma zeroPadded_lt_iff {width n k : ℕ} (hwidth : 0 < width) (hn : n < 10 ^ width)
    (hk : k < 10 ^ width) : zeroPadded width n < zeroPadded width k ↔ n < k := by
  induction width generalizing n k with
  | zero => omega
  | succ w ih =>
    by_cases hw : w = 0
    · rw [hw, Nat.zero_add, pow_one] at hn hk
      have hfit : ∀ j < 10, zeroPadded (w + 1) j = [digit j] := fun j hj => by
        rw [hw, zeroPadded, decimal_of_lt hj]
        rfl
      rw [hfit n hn, hfit k hk, List.cons_lt_cons_iff, digit_lt_iff hn hk]
      simp
    · have hwidth' : 0 < w := Nat.pos_of_ne_zero hw
      have hn' : n / 10 < 10 ^ w := by
        rw [pow_succ] at hn
        omega
      have hk' : k / 10 < 10 ^ w := by
        rw [pow_succ] at hk
        omega
      have hlength : (zeroPadded w (n / 10)).length = (zeroPadded w (k / 10)).length := by
        rw [length_zeroPadded hwidth' hn', length_zeroPadded hwidth' hk']
      have hsame := eq_iff_of_lt_iff (fun a b ha hb => ih hwidth' ha hb) hn' hk'
      rw [zeroPadded_succ hwidth', zeroPadded_succ hwidth', append_lt_append_iff hlength,
        ih hwidth' hn' hk', hsame, List.cons_lt_cons_iff,
        digit_lt_iff (Nat.mod_lt n (by omega)) (Nat.mod_lt k (by omega))]
      simp only [List.lt_irrefl, and_false, or_false]
      omega

/-- Different numbers have different texts. -/
lemma zeroPadded_inj {width n k : ℕ} (hwidth : 0 < width) (hn : n < 10 ^ width)
    (hk : k < 10 ^ width) : zeroPadded width n = zeroPadded width k ↔ n = k :=
  eq_iff_of_lt_iff (fun _ _ ha hb => zeroPadded_lt_iff hwidth ha hb) hn hk

end Padding
