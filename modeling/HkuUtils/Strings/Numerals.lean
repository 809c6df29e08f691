import Mathlib.Data.Rat.Defs
import Mathlib.Tactic.Ring
import HkuUtils.CString
import HkuUtils.Json.Numbers

set_option relaxedAutoImplicit false
set_option autoImplicit false

/-!
# Numbers in texts

The functions `std::stoll` and `std::stod`: blanks and a sign may stand in front of a number, and
what follows it is ignored. A decimal is read exactly, without the rounding of a `double`; numbers
that are too small for one, infinities, NaN and hexadecimal digits are left out.

## Main definitions

* `Strings.stoll`, `stod` — the functions.
* `Strings.NatText`, `IntText`, `DecimalText` — the texts of numbers.

## Main results

* `Strings.stoll_eq`, `stod_eq` — numbers are read back.
* `Strings.natText_zeroPadded`, `intText_decimalInt`, `decimalText_zeroPadded` — numbers as they are
  written.
-/

namespace Strings

open Http (decimal isDigit)
open Json (natural)
open Padding (zeroPadded)

/-- The exceptions. -/
inductive NumberFault where
  | invalidArgument
  | outOfRange
  deriving DecidableEq, Repr

/-- `isspace`. -/
def isSpace (c : UInt8) : Bool := c == 32 || (9 ≤ c && c ≤ 13)

/-- A sign, and what stands behind it. -/
def sign : List UInt8 → Bool × List UInt8
  | [] => (false, [])
  | c :: s => if c = 45 then (true, s) else if c = 43 then (false, s) else (false, c :: s)

/-- `std::stoll`. -/
def stoll (t : List UInt8) : Except NumberFault ℤ :=
  let (negative, s) := sign (t.dropWhile isSpace)
  let ds := s.takeWhile isDigit
  if ds = [] then .error .invalidArgument
  else
    let x : ℤ := if negative then -natural ds else natural ds
    if -2 ^ 63 ≤ x ∧ x < 2 ^ 63 then .ok x else .error .outOfRange

/-- The exponent behind a decimal. -/
def exponent : List UInt8 → ℤ
  | [] => 0
  | c :: s =>
    if c = 101 ∨ c = 69 then
      let (negative, s) := sign s
      if negative then -natural (s.takeWhile isDigit) else natural (s.takeWhile isDigit)
    else 0

/-- The digits in front of a point and behind it, and what stands behind those. -/
def mantissa (s : List UInt8) : List UInt8 × List UInt8 × List UInt8 :=
  let r := s.dropWhile isDigit
  if r.head? = some 46 then
    (s.takeWhile isDigit, r.tail.takeWhile isDigit, r.tail.dropWhile isDigit)
  else (s.takeWhile isDigit, [], r)

/-- From here on a number is rounded to infinity. -/
def infinity : ℚ := 2 ^ 1024 - 2 ^ 970

/-- `std::stod`. -/
def stod (t : List UInt8) : Except NumberFault ℚ :=
  let (negative, s) := sign (t.dropWhile isSpace)
  let (ds, fs, s) := mantissa s
  if ds ++ fs = [] then .error .invalidArgument
  else
    let q : ℚ := natural (ds ++ fs) * 10 ^ (exponent s - fs.length)
    if infinity ≤ q then .error .outOfRange else .ok (if negative then -q else q)

/-- No sign, or one of the two. -/
def IsSign (t : List UInt8) : Prop := t = [] ∨ t = [43] ∨ t = [45]

/-- Only digits. -/
def Digits (t : List UInt8) : Prop := ∀ c ∈ t, isDigit c = true

instance (t : List UInt8) : Decidable (Digits t) :=
  List.decidableBAll _ t

/-- A text of a natural number. -/
structure NatText (t : List UInt8) (n : ℕ) : Prop where
  ne_nil : t ≠ []
  digits : Digits t
  natural_eq : natural t = n

/-- A text of an integer: perhaps a sign, and digits. -/
def IntText (t : List UInt8) (x : ℤ) : Prop :=
  ∃ sgn ds, IsSign sgn ∧ ds ≠ [] ∧ Digits ds ∧ t = sgn ++ ds ∧
    x = if sgn = [45] then -(natural ds : ℤ) else natural ds

/-- A text of a decimal with `k` digits behind its point: perhaps a sign, digits, and perhaps a
point and digits. -/
def DecimalText (t : List UInt8) (k : ℕ) (q : ℚ) : Prop :=
  ∃ sgn ds point fs, IsSign sgn ∧ ds ++ fs ≠ [] ∧ Digits ds ∧ Digits fs ∧
    (point = [] ∧ fs = [] ∨ point = [46]) ∧ fs.length = k ∧ t = sgn ++ (ds ++ (point ++ fs)) ∧
    q = if sgn = [45] then -(natural (ds ++ fs) / 10 ^ k : ℚ) else natural (ds ++ fs) / 10 ^ k

/-! ## Reading -/

/-- A digit is no blank, no sign and no point. -/
lemma not_special {c : UInt8} (hc : isDigit c = true) :
    isSpace c = false ∧ c ≠ 43 ∧ c ≠ 45 ∧ c ≠ 46 := by
  revert hc
  refine CString.forall_byte (P := fun c => isDigit c = true →
    isSpace c = false ∧ c ≠ 43 ∧ c ≠ 45 ∧ c ≠ 46) ?_ c
  decide +kernel

/-- The sign in front of a text that begins with none, and with no blank. -/
lemma sign_append {sgn s : List UInt8} (hsgn : IsSign sgn)
    (hs : ∀ c ∈ s.head?, isSpace c = false ∧ c ≠ 43 ∧ c ≠ 45) :
    sign ((sgn ++ s).dropWhile isSpace) = (decide (sgn = [45]), s) := by
  rcases hsgn with rfl | rfl | rfl
  · cases s with
    | nil => rfl
    | cons c s =>
      obtain ⟨hspace, hplus, hminus⟩ := hs c rfl
      simp [hspace, sign, hplus, hminus]
  · simp [isSpace, sign]
  · simp [isSpace, sign]

/-- **An integer is read back.** -/
theorem stoll_eq {t : List UInt8} {x : ℤ} (h : IntText t x) (hx : -2 ^ 63 ≤ x ∧ x < 2 ^ 63) :
    stoll t = .ok x := by
  obtain ⟨sgn, ds, hsgn, hne, hds, rfl, rfl⟩ := h
  have hhead : ∀ c ∈ ds.head?, isSpace c = false ∧ c ≠ 43 ∧ c ≠ 45 := by
    intro c hc
    obtain ⟨hspace, hplus, hminus, -⟩ := not_special (hds c (List.mem_of_mem_head? hc))
    exact ⟨hspace, hplus, hminus⟩
  have htake : ds.takeWhile isDigit = ds := List.takeWhile_eq_self_iff.mpr hds
  rw [stoll, sign_append hsgn hhead]
  simp only [htake, hne, if_false, decide_eq_true_eq]
  rw [if_pos hx]

/-- The digits of a decimal. -/
lemma mantissa_append {ds point fs : List UInt8} (hds : Digits ds) (hfs : Digits fs)
    (hpoint : point = [] ∧ fs = [] ∨ point = [46]) :
    mantissa (ds ++ (point ++ fs)) = (ds, fs, []) := by
  have htake : (ds ++ (point ++ fs)).takeWhile isDigit = ds ++ (point ++ fs).takeWhile isDigit :=
    List.takeWhile_append_of_pos hds
  have hdrop : (ds ++ (point ++ fs)).dropWhile isDigit = (point ++ fs).dropWhile isDigit :=
    List.dropWhile_append_of_pos hds
  rw [mantissa, htake, hdrop]
  rcases hpoint with ⟨rfl, rfl⟩ | rfl
  · simp
  · have hdot : isDigit 46 = false := by decide
    have hfsTake : fs.takeWhile isDigit = fs := List.takeWhile_eq_self_iff.mpr hfs
    have hfsDrop : fs.dropWhile isDigit = [] := List.dropWhile_eq_nil_iff.mpr hfs
    simp [hdot, hfsTake, hfsDrop]

/-- **A decimal is read back**, unless it is too large.

**Proof sketch.** Behind the sign there is a digit or the point, so nothing is skipped and none of
the special words begins here. The digits in front of the point and behind it are read as one
number, which is scaled by how many are behind. -/
theorem stod_eq {t : List UInt8} {k : ℕ} {q : ℚ} (h : DecimalText t k q) :
    stod t = if infinity ≤ |q| then .error .outOfRange else .ok q := by
  obtain ⟨sgn, ds, point, fs, hsgn, hne, hds, hfs, hpoint, rfl, rfl, rfl⟩ := h
  have hhead : ∀ c ∈ (ds ++ (point ++ fs)).head?, isSpace c = false ∧ c ≠ 43 ∧ c ≠ 45 := by
    intro c hc
    cases ds with
    | cons d ds =>
      obtain ⟨hspace, hplus, hminus, -⟩ := not_special (hds d List.mem_cons_self)
      simp only [List.cons_append, List.head?_cons, Option.mem_some] at hc
      exact hc ▸ ⟨hspace, hplus, hminus⟩
    | nil =>
      -- without digits in front of it, there is a point
      rcases hpoint with ⟨-, hnil⟩ | rfl
      · exact absurd hnil hne
      · simp only [List.nil_append, List.cons_append, List.head?_cons, Option.mem_some] at hc
        subst hc
        decide
  have hvalue : (natural (ds ++ fs) : ℚ) * 10 ^ (exponent [] - fs.length) =
      natural (ds ++ fs) / 10 ^ fs.length := by
    rw [exponent, zero_sub, zpow_neg, zpow_natCast, div_eq_mul_inv]
  have habs : |if sgn = [45] then -(natural (ds ++ fs) / 10 ^ fs.length : ℚ)
      else natural (ds ++ fs) / 10 ^ fs.length| = natural (ds ++ fs) / 10 ^ fs.length := by
    have hnonneg : (0 : ℚ) ≤ natural (ds ++ fs) / 10 ^ fs.length := by positivity
    split_ifs
    · rw [abs_neg, abs_of_nonneg hnonneg]
    · exact abs_of_nonneg hnonneg
  rw [stod, sign_append hsgn hhead, habs]
  simp only [mantissa_append hds hfs hpoint, hne, if_false, hvalue, decide_eq_true_eq]

/-! ## Writing -/

/-- Digits in front of others. -/
lemma natural_append (a b : List UInt8) :
    natural (a ++ b) = natural a * 10 ^ b.length + natural b := by
  have hshift : ∀ (b : List UInt8) (n : ℕ), b.foldl (fun n c => 10 * n + (c.toNat - 48)) n =
      n * 10 ^ b.length + natural b := by
    intro b
    induction b with
    | nil => simp [natural]
    | cons c b ih =>
      intro n
      rw [natural, List.foldl_cons, List.foldl_cons, ih, ih, List.length_cons, pow_succ]
      ring
  rw [natural, List.foldl_append, hshift]
  rfl

/-- Leading zeros do not count. -/
lemma natural_zeroPadded (w n : ℕ) : natural (zeroPadded w n) = n := by
  have hzeros : ∀ k, natural (List.replicate k 48) = 0 := by
    intro k
    induction k with
    | zero => rfl
    | succ k ih =>
      rw [List.replicate_succ', natural_append, ih]
      rfl
  rw [zeroPadded, Padding.alignRight, natural_append, hzeros, zero_mul, zero_add,
    Json.natural_decimal]

/-- A number with leading zeros. -/
lemma natText_zeroPadded (w n : ℕ) : NatText (zeroPadded w n) n where
  ne_nil := by simp [zeroPadded, Padding.alignRight, Http.decimal_ne_nil]
  digits := Decimal.isDigit_zeroPadded w n
  natural_eq := natural_zeroPadded w n

/-- The digits of a number are a text of it. -/
lemma natText_decimal (n : ℕ) : NatText (decimal n) n where
  ne_nil := Http.decimal_ne_nil n
  digits _ := Http.isDigit_of_mem_decimal
  natural_eq := Json.natural_decimal n

/-- A natural number is an integer. -/
lemma NatText.intText {t : List UInt8} {n : ℕ} (h : NatText t n) : IntText t n := by
  refine ⟨[], t, Or.inl rfl, h.ne_nil, h.digits, rfl, ?_⟩
  rw [if_neg (by decide), h.natural_eq]

/-- An integer. -/
lemma intText_decimalInt (x : ℤ) : IntText (Json.decimalInt x) x := by
  rw [Json.decimalInt]
  split
  next hx =>
    refine ⟨[45], decimal x.natAbs, Or.inr (Or.inr rfl), Http.decimal_ne_nil _,
      (natText_decimal _).digits, rfl, ?_⟩
    rw [if_pos rfl, Json.natural_decimal]
    omega
  next hx =>
    have h := (natText_decimal x.natAbs).intText
    rwa [Int.natAbs_of_nonneg (not_lt.mp hx)] at h

/-- Millionths with leading zeros, behind a point. -/
lemma decimalText_zeroPadded (a : ℕ) {b : ℕ} (hb : b < 1000000) :
    DecimalText (decimal a ++ 46 :: zeroPadded 6 b) 6 ((a * 1000000 + b : ℕ) / 1000000) := by
  have hlength : (zeroPadded 6 b).length = 6 := Padding.length_zeroPadded (by omega) (by omega)
  refine ⟨[], decimal a, [46], zeroPadded 6 b, Or.inl rfl, by simp [Http.decimal_ne_nil],
    fun c hc => Http.isDigit_of_mem_decimal hc, Decimal.isDigit_zeroPadded 6 b, Or.inr rfl,
    hlength, rfl, ?_⟩
  rw [if_neg (by decide), natural_append, hlength, natural_zeroPadded, Json.natural_decimal]
  norm_num

end Strings
