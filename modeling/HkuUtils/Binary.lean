import Mathlib.Data.Int.Log
import Mathlib.Data.Rat.Floor
import Mathlib.Tactic.Linarith
import Mathlib.Tactic.Positivity

set_option relaxedAutoImplicit false
set_option autoImplicit false

/-!
# Binary floating-point formats

The finite numbers of a format are the rationals `m * 2 ^ e` with a bounded significand `m` and a
bounded exponent `e`. A rational is rounded to the nearest number of a format, to the one with an
even significand where there are two.

## Main definitions

* `Binary.Format`, `Binary.Format.Representable` — a format and its finite numbers.
* `Binary.roundEven` — the nearest integer.
* `Binary.Format.round` — the nearest number of a format.
* `Binary.Floating` — the values of a format, with the zero of negative sign, the infinities and
  NaN.
* `Binary.Floating.cast` — the conversion to another format.

## Main results

* `Binary.Format.round_representable`, `Binary.Format.round_eq_self` — rounding gives a number of
  the format unless it overflows, and changes none.
* `Binary.Floating.cast_cast` — a conversion to a larger format and back.
-/

namespace Binary

/-- A format. -/
structure Format where
  /-- The number of digits of a significand. -/
  precision : ℕ
  minExp : ℤ
  maxExp : ℤ
  precision_pos : 0 < precision
  minExp_le_maxExp : minExp ≤ maxExp

namespace Format

variable (F : Format)

/-- The finite numbers of a format. -/
def Representable (q : ℚ) : Prop :=
  ∃ m e : ℤ, q = m * 2 ^ e ∧ |m| < 2 ^ F.precision ∧ F.minExp ≤ e ∧ e ≤ F.maxExp

/-- The largest one. -/
def max : ℚ := (2 ^ F.precision - 1 : ℤ) * 2 ^ F.maxExp

/-- The least one with a significand of full length. -/
def minNormal : ℚ := 2 ^ (F.minExp + F.precision - 1)

/-- The numbers of the first format are numbers of the second. -/
structure LE (F G : Format) : Prop where
  precision : F.precision ≤ G.precision
  minExp : G.minExp ≤ F.minExp
  maxExp : F.maxExp ≤ G.maxExp

variable {F}

/-- Zero is a number of every format. -/
lemma representable_zero : F.Representable 0 :=
  ⟨0, F.minExp, by simp, by simp, le_rfl, F.minExp_le_maxExp⟩

/-- A larger format has more numbers. -/
lemma Representable.mono {G : Format} (h : F.LE G) {q : ℚ} (hq : F.Representable q) :
    G.Representable q := by
  obtain ⟨m, e, rfl, hm, hmin, hmax⟩ := hq
  exact ⟨m, e, rfl, hm.trans_le (pow_le_pow_right₀ (by norm_num) h.precision),
    h.minExp.trans hmin, hmax.trans h.maxExp⟩

/-- A number is between the largest one and its negative. -/
lemma Representable.abs_le_max {q : ℚ} (hq : F.Representable q) : |q| ≤ F.max := by
  obtain ⟨m, e, rfl, hm, -, he⟩ := hq
  have hm' : |(m : ℚ)| ≤ (2 ^ F.precision - 1 : ℤ) := by
    rw [← Int.cast_abs, Int.cast_le]
    exact Int.le_sub_one_of_lt hm
  rw [abs_mul, abs_of_pos (zpow_pos (by norm_num : (0 : ℚ) < 2) e)]
  exact mul_le_mul hm' (zpow_le_zpow_right₀ (by norm_num) he) (zpow_pos (by norm_num) e).le
    ((abs_nonneg _).trans hm')

/-- The exponent can be made smaller. -/
lemma mul_zpow_eq (m : ℤ) {e e' : ℤ} (h : e' ≤ e) :
    ∃ m' : ℤ, (m : ℚ) * 2 ^ e = m' * 2 ^ e' := by
  refine ⟨m * 2 ^ (e - e').toNat, ?_⟩
  have he : ((2 : ℚ) ^ (e - e').toNat) = 2 ^ (e - e') := by
    rw [← zpow_natCast, Int.toNat_of_nonneg (by omega)]
  rw [Int.cast_mul, Int.cast_pow, Int.cast_ofNat, he, mul_assoc, ← zpow_add₀ (by norm_num)]
  rw [Int.sub_add_cancel]

/-- A significand may be one too large, and an exponent too large, if the number itself is not.

**Proof sketch.** If the exponent is too large, then the number is the product of another
significand with the largest exponent, and its size bounds this significand. If the significand is
one too large, it is even, and half of it goes with the next exponent. -/
lemma representable_of_abs_le {m e : ℤ} (hm : |m| ≤ 2 ^ F.precision) (he : F.minExp ≤ e)
    (hmax : |(m : ℚ) * 2 ^ e| ≤ F.max) : F.Representable (m * 2 ^ e) := by
  by_cases hlarge : F.maxExp ≤ e
  · -- with the largest exponent
    obtain ⟨m', hm'⟩ := mul_zpow_eq m hlarge
    refine ⟨m', F.maxExp, hm', ?_, F.minExp_le_maxExp, le_rfl⟩
    have hpos : (0 : ℚ) < 2 ^ F.maxExp := zpow_pos (by norm_num) _
    rw [hm', abs_mul, abs_of_pos hpos, max] at hmax
    have hle := le_of_mul_le_mul_right hmax hpos
    rw [← Int.cast_abs, Int.cast_le] at hle
    omega
  · rcases hm.lt_or_eq with hlt | heq
    · exact ⟨m, e, rfl, hlt, he, by omega⟩
    · -- half the significand, with the next exponent
      obtain ⟨p, hp⟩ : ∃ p, F.precision = p + 1 := by
        have hpos := F.precision_pos
        exact ⟨F.precision - 1, by omega⟩
      have hpow : (0 : ℤ) < 2 ^ p := by positivity
      rw [hp, pow_succ] at heq
      have hhalf : ∃ k : ℤ, m = 2 * k ∧ |k| = 2 ^ p := by
        rcases abs_choice m with h | h
        · exact ⟨2 ^ p, by omega, abs_of_pos hpow⟩
        · exact ⟨-2 ^ p, by omega, by rw [abs_neg, abs_of_pos hpow]⟩
      obtain ⟨k, rfl, hk⟩ := hhalf
      refine ⟨k, e + 1, ?_, ?_, by omega, by omega⟩
      · rw [zpow_add_one₀ (by norm_num)]
        push_cast
        ring
      · rw [hk, hp, pow_succ]
        omega

end Format

/-! ## Rounding -/

/-- The nearest integer, and the even one of two. -/
def roundEven (x : ℚ) : ℤ :=
  if Int.fract x < 1 / 2 then ⌊x⌋
  else if 1 / 2 < Int.fract x then ⌊x⌋ + 1
  else if Even ⌊x⌋ then ⌊x⌋
  else ⌊x⌋ + 1

/-- An integer is the nearest one to itself. -/
@[simp]
lemma roundEven_intCast (n : ℤ) : roundEven n = n := by
  rw [roundEven, Int.fract_intCast, if_pos (by norm_num), Int.floor_intCast]

/-- The nearest integer is one of the two next to the number. -/
lemma roundEven_cases (x : ℚ) :
    roundEven x = ⌊x⌋ ∨ roundEven x = ⌊x⌋ + 1 ∧ 0 < Int.fract x := by
  rw [roundEven]
  split
  · exact Or.inl rfl
  · rename_i h
    have hpos : 0 < Int.fract x := lt_of_lt_of_le (by norm_num) (not_lt.mp h)
    split
    · exact Or.inr ⟨rfl, hpos⟩
    · split
      · exact Or.inl rfl
      · exact Or.inr ⟨rfl, hpos⟩

/-- The nearest integer stays within integer bounds. -/
lemma abs_roundEven_le {x : ℚ} {n : ℤ} (h : |x| ≤ n) : |roundEven x| ≤ n := by
  obtain ⟨hl, hu⟩ := abs_le.mp h
  have hfloor : -n ≤ ⌊x⌋ := by
    rw [Int.le_floor]
    simpa using hl
  rw [abs_le]
  rcases roundEven_cases x with hx | ⟨hx, hfract⟩
  · have hn : ⌊x⌋ ≤ n := by
      rw [← Int.cast_le (R := ℚ)]
      exact (Int.floor_le x).trans hu
    rw [hx]
    exact ⟨hfloor, hn⟩
  · have hn : ⌊x⌋ < n := by
      rw [← Int.cast_lt (R := ℚ)]
      have hself := Int.self_sub_floor x
      linarith
    rw [hx]
    exact ⟨by omega, by omega⟩

namespace Format

variable (F : Format)

/-- The exponent with which a number is written. -/
def exponent (x : ℚ) : ℤ := Max.max (Int.log 2 |x| + 1 - F.precision) F.minExp

/-- The nearest number of a format with unbounded exponents. -/
def round (x : ℚ) : ℚ := roundEven (x / 2 ^ F.exponent x) * 2 ^ F.exponent x

variable {F}

/-- The significand of a number with its exponent is short enough. -/
lemma abs_div_le (x : ℚ) : |x / 2 ^ F.exponent x| ≤ (2 ^ F.precision : ℤ) := by
  have hpos : (0 : ℚ) < 2 ^ F.exponent x := zpow_pos (by norm_num) _
  rw [abs_div, abs_of_pos hpos, div_le_iff₀ hpos]
  have hlog := (Int.lt_zpow_succ_log_self (by norm_num : 1 < 2) |x|).le
  refine hlog.trans ?_
  rw [Int.cast_pow, Int.cast_ofNat, ← zpow_natCast, ← zpow_add₀ (by norm_num), Nat.cast_ofNat]
  refine zpow_le_zpow_right₀ (by norm_num) ?_
  have hexp : Int.log 2 |x| + 1 - F.precision ≤ F.exponent x := le_max_left _ _
  omega

/-- The exponent of a number is the least one that its significand allows. -/
lemma exponent_le {x : ℚ} {e : ℤ} (hx : x ≠ 0) (he : F.minExp ≤ e)
    (hlt : |x| < 2 ^ (F.precision + e)) : F.exponent x ≤ e := by
  have hlog : Int.log 2 |x| < F.precision + e :=
    (Int.lt_zpow_iff_log_lt (by norm_num) (abs_pos.mpr hx)).mp (by exact_mod_cast hlt)
  exact max_le (by omega) he

/-- Rounding changes no number of the format. -/
lemma round_eq_self {x : ℚ} (h : F.Representable x) : F.round x = x := by
  rcases eq_or_ne x 0 with rfl | hx
  · rw [round, zero_div, ← Int.cast_zero, roundEven_intCast, Int.cast_zero, zero_mul]
  · obtain ⟨m, e, rfl, hm, hmin, -⟩ := h
    have hpos : (0 : ℚ) < 2 ^ e := zpow_pos (by norm_num) e
    have hlt : |(m : ℚ) * 2 ^ e| < 2 ^ (F.precision + e) := by
      rw [abs_mul, abs_of_pos hpos, zpow_add₀ (by norm_num), zpow_natCast]
      exact mul_lt_mul_of_pos_right (by exact_mod_cast hm) hpos
    obtain ⟨m', hm'⟩ := mul_zpow_eq m (exponent_le hx hmin hlt)
    have hne : (2 : ℚ) ^ F.exponent (m * 2 ^ e) ≠ 0 := (zpow_pos (by norm_num) _).ne'
    have hquot : (m : ℚ) * 2 ^ e / 2 ^ F.exponent (m * 2 ^ e) = m' := by
      rw [div_eq_iff hne]
      exact hm'
    rw [round, hquot, roundEven_intCast]
    exact hm'.symm

/-- Rounding gives a number of the format unless it overflows. -/
lemma round_representable {x : ℚ} (h : |F.round x| ≤ F.max) : F.Representable (F.round x) := by
  have hm : |roundEven (x / 2 ^ F.exponent x)| ≤ 2 ^ F.precision :=
    abs_roundEven_le (abs_div_le x)
  exact representable_of_abs_le hm (le_max_right _ _) h

end Format

/-! ## Values -/

/-- The values of a format. -/
inductive Floating (F : Format) where
  | finite (q : ℚ) (h : F.Representable q)
  /-- The zero of negative sign. -/
  | negZero
  | infinity (negative : Bool)
  | nan

namespace Floating

variable {F G : Format}

/-- The value is greater than a number. -/
def above (q : ℚ) : Floating F → Bool
  | finite x _ => q < x
  | negZero => q < 0
  | infinity negative => !negative
  | nan => false

/-- The value is less than a number. -/
def below (q : ℚ) : Floating F → Bool
  | finite x _ => x < q
  | negZero => 0 < q
  | infinity negative => negative
  | nan => false

/-- The value in another format, rounded to the nearest number. -/
def cast : Floating F → Floating G
  | finite x _ =>
    if h : |G.round x| ≤ G.max then finite (G.round x) (Format.round_representable h)
    else infinity (x < 0)
  | negZero => negZero
  | infinity negative => infinity negative
  | nan => nan

/-- A number of both formats is not changed. -/
lemma cast_finite {x : ℚ} (h : F.Representable x) (h' : G.Representable x) :
    (cast (finite x h) : Floating G) = finite x h' := by
  have hround : G.round x = x := Format.round_eq_self h'
  have hle : |G.round x| ≤ G.max := by
    rw [hround]
    exact h'.abs_le_max
  rw [cast, dif_pos hle]
  simp only [hround]

/-- **A conversion to a larger format and back** changes nothing. -/
theorem cast_cast (h : F.LE G) (x : Floating F) : cast (cast x : Floating G) = x := by
  cases x with
  | finite x hx =>
    rw [cast_finite hx (hx.mono h), cast_finite _ hx]
  | negZero => rfl
  | infinity negative => rfl
  | nan => rfl

/-- A conversion to a larger format changes no comparison. -/
lemma below_cast (h : F.LE G) (x : Floating F) (q : ℚ) :
    below q (cast x : Floating G) = below q x := by
  cases x with
  | finite x hx =>
    rw [cast_finite hx (hx.mono h)]
    rfl
  | negZero => rfl
  | infinity negative => rfl
  | nan => rfl

/-- A conversion to a larger format changes no comparison. -/
lemma above_cast (h : F.LE G) (x : Floating F) (q : ℚ) :
    above q (cast x : Floating G) = above q x := by
  cases x with
  | finite x hx =>
    rw [cast_finite hx (hx.mono h)]
    rfl
  | negZero => rfl
  | infinity negative => rfl
  | nan => rfl

end Floating

end Binary
