import Mathlib.Data.List.DropRight
import Mathlib.Data.Nat.Digits.Lemmas
import HkuUtils.Binary
import HkuUtils.Padding

set_option relaxedAutoImplicit false
set_option autoImplicit false

/-!
# Numbers with six digits

The format `%g`: six significant digits, without the zeros at the end, with an exponent where the
number is below `10 ^ -4` or has more than six digits before its point.

## Main definitions

* `Decimal.scaled` — the six digits and the exponent of a number.
* `Decimal.general` — the format.
* `Decimal.Leading`, `Exponent` — the digits before a point, and an exponent.

## Main results

* `Decimal.magnitude_parts` — what a number without its sign looks like.
* `Decimal.isNumeric_general` — the characters of a number.
-/

namespace Decimal

open Http (decimal isDigit)

/-! ## The format -/

/-- The six digits of a positive number and its exponent. -/
def scaled (a : ℚ) : ℕ × ℤ :=
  let e := Int.log 10 a
  let m := (Binary.roundEven (a / 10 ^ (e - 5))).toNat
  -- rounding may give a seventh digit
  if m = 1000000 then (100000, e + 1) else (m, e)

/-- Digits without the zeros at their end. -/
def stripZeros (ds : List UInt8) : List UInt8 := ds.rdropWhile (· == 48)

/-- The digits behind a point, if there are some. -/
def point (ds : List UInt8) : List UInt8 := if ds = [] then [] else 46 :: ds

/-- Digits with a point among them or before them. -/
def fixed (ds : List UInt8) (e : ℤ) : List UInt8 :=
  if 0 ≤ e then ds.take (e.toNat + 1) ++ point (stripZeros (ds.drop (e.toNat + 1)))
  else 48 :: point (stripZeros (List.replicate (-e - 1).toNat 48 ++ ds))

/-- The exponent: a sign and two digits or more. -/
def exponent (e : ℤ) : List UInt8 :=
  101 :: (if e < 0 then 45 else 43) :: Padding.zeroPadded 2 e.natAbs

/-- A digit, the others behind a point, and an exponent. -/
def scientific (ds : List UInt8) (e : ℤ) : List UInt8 :=
  ds.take 1 ++ (point (stripZeros (ds.drop 1)) ++ exponent e)

/-- A positive number. -/
def magnitude (a : ℚ) : List UInt8 :=
  if -4 ≤ (scaled a).2 ∧ (scaled a).2 < 6 then fixed (decimal (scaled a).1) (scaled a).2
  else scientific (decimal (scaled a).1) (scaled a).2

/-- The format `%g`. -/
def general (q : ℚ) : List UInt8 :=
  if q = 0 then [48] else if q < 0 then 45 :: magnitude (-q) else magnitude q

/-! ## What is written -/

/-- Digits, with no zero at their beginning. -/
structure Leading (ds : List UInt8) : Prop where
  ne_nil : ds ≠ []
  isDigit : ∀ c ∈ ds, isDigit c = true
  zero : ds.head? = some 48 → ds = [48]

/-- An exponent, or nothing. -/
def Exponent (x : List UInt8) : Prop :=
  x = [] ∨ ∃ s ds, (s = 43 ∨ s = 45) ∧ ds ≠ [] ∧ (∀ c ∈ ds, isDigit c = true) ∧ x = 101 :: s :: ds

/-- A zero stands at the beginning of zero alone. -/
lemma leading_decimal (n : ℕ) : Leading (decimal n) where
  ne_nil := Http.decimal_ne_nil n
  isDigit _ := Http.isDigit_of_mem_decimal
  zero h := by
    rw [decimal] at h ⊢
    split
    · rfl
    next hn =>
      rw [if_neg hn, List.map_reverse, List.head?_reverse, List.getLast?_map,
        List.getLast?_eq_getLast_of_ne_nil (Nat.digits_ne_nil_iff_ne_zero.mpr hn),
        Option.map_some, Option.some.injEq] at h
      have hlt : (Nat.digits 10 n).getLast (Nat.digits_ne_nil_iff_ne_zero.mpr hn) < 10 :=
        Nat.digits_lt_base (by omega) (List.getLast_mem _)
      have hzero := congrArg UInt8.toNat h
      have htoNat : (48 : UInt8).toNat = 48 := rfl
      rw [Http.toNat_digit hlt, htoNat] at hzero
      exact absurd (by omega) (Nat.getLast_digit_ne_zero 10 hn)

/-- The first digits of some. -/
lemma Leading.take {ds : List UInt8} (h : Leading ds) (k : ℕ) : Leading (ds.take (k + 1)) where
  ne_nil := by simp [h.ne_nil]
  isDigit c hc := h.isDigit c (List.mem_of_mem_take hc)
  zero hzero := by
    rw [List.head?_take, if_neg (by omega)] at hzero
    rw [h.zero hzero]
    simp

/-- Digits stay digits. -/
lemma isDigit_stripZeros {ds : List UInt8} (h : ∀ c ∈ ds, isDigit c = true) :
    ∀ c ∈ stripZeros ds, isDigit c = true :=
  fun c hc => h c ((List.rdropWhile_prefix _ _).sublist.subset hc)

/-- A number with zeros in front is written with digits. -/
lemma isDigit_zeroPadded (w n : ℕ) : ∀ c ∈ Padding.zeroPadded w n, isDigit c = true := by
  intro c hc
  rcases List.mem_append.mp hc with hc | hc
  · rw [List.eq_of_mem_replicate hc]
    rfl
  · exact Http.isDigit_of_mem_decimal hc

/-- An exponent has a sign and digits. -/
lemma exponent_exponent (e : ℤ) : Exponent (exponent e) := by
  refine Or.inr ⟨_, _, ?_, ?_, isDigit_zeroPadded 2 e.natAbs, rfl⟩
  · split
    · exact Or.inr rfl
    · exact Or.inl rfl
  · exact List.append_ne_nil_of_right_ne_nil _ (Http.decimal_ne_nil _)

/-- **What a number looks like**: digits, a point with others behind it, an exponent.

**Proof sketch.** By cases on the notation: the point stands within the digits, in front of them
behind some zeros, or behind the first one with an exponent. -/
theorem magnitude_parts (a : ℚ) : ∃ i f x, magnitude a = i ++ (point f ++ x) ∧ Leading i ∧
    (∀ c ∈ f, isDigit c = true) ∧ Exponent x := by
  have hlead := leading_decimal (scaled a).1
  have hdrop : ∀ k, ∀ c ∈ (decimal (scaled a).1).drop k, isDigit c = true :=
    fun k c hc => hlead.isDigit c (List.mem_of_mem_drop hc)
  rw [magnitude]
  split
  · rw [fixed]
    split
    · exact ⟨_, _, [], by rw [List.append_nil], hlead.take _, isDigit_stripZeros (hdrop _),
        Or.inl rfl⟩
    · have hzero : Leading [48] := leading_decimal 0
      refine ⟨[48], _, [], by rw [List.append_nil]; rfl, hzero,
        isDigit_stripZeros fun c hc => ?_, Or.inl rfl⟩
      rcases List.mem_append.mp hc with hc | hc
      · rw [List.eq_of_mem_replicate hc]
        rfl
      · exact hlead.isDigit c hc
  · exact ⟨_, _, _, rfl, hlead.take 0, isDigit_stripZeros (hdrop 1), exponent_exponent _⟩

/-- A character of a number. -/
def isNumeric (c : UInt8) : Bool := isDigit c || c == 43 || c == 45 || c == 46 || c == 101

/-- Digits are such characters. -/
lemma isNumeric_of_isDigit {c : UInt8} (h : isDigit c = true) : isNumeric c = true := by
  simp [isNumeric, h]

/-- **The characters of a number.**

**Proof sketch.** A magnitude is digits, perhaps a point and digits, perhaps an exponent; in front
of it there is a sign or none. -/
theorem isNumeric_general (q : ℚ) : ∀ c ∈ general q, isNumeric c = true := by
  have hmagnitude : ∀ a, ∀ c ∈ magnitude a, isNumeric c = true := by
    intro a c hc
    obtain ⟨i, f, x, heq, hi, hf, hx⟩ := magnitude_parts a
    rw [heq] at hc
    rcases List.mem_append.mp hc with hc | hc
    · exact isNumeric_of_isDigit (hi.isDigit c hc)
    rcases List.mem_append.mp hc with hc | hc
    · rw [point] at hc
      split at hc
      · cases hc
      · rcases List.mem_cons.mp hc with rfl | hc
        · rfl
        · exact isNumeric_of_isDigit (hf c hc)
    · rcases hx with rfl | ⟨s, ds, hs, -, hds, rfl⟩
      · cases hc
      · rcases List.mem_cons.mp hc with rfl | hc
        · rfl
        rcases List.mem_cons.mp hc with rfl | hc
        · rcases hs with rfl | rfl <;> rfl
        · exact isNumeric_of_isDigit (hds c hc)
  intro c hc
  rw [general] at hc
  split_ifs at hc
  · obtain rfl := List.mem_singleton.mp hc
    rfl
  · rcases List.mem_cons.mp hc with rfl | hc
    · rfl
    · exact hmagnitude _ c hc
  · exact hmagnitude _ c hc

/-- No number is written as nothing. -/
lemma general_ne_nil (q : ℚ) : general q ≠ [] := by
  have hmagnitude : ∀ a, magnitude a ≠ [] := by
    intro a
    obtain ⟨i, f, x, heq, hi, -, -⟩ := magnitude_parts a
    rw [heq]
    exact List.append_ne_nil_of_left_ne_nil hi.ne_nil _
  rw [general]
  split_ifs
  · exact List.cons_ne_nil _ _
  · exact List.cons_ne_nil _ _
  · exact hmagnitude q

end Decimal
