import Mathlib.Data.Int.ModEq
import Mathlib.Tactic.FieldSimp
import HkuUtils.Datetime.Components
import HkuUtils.Strings.Numerals
import HkuUtils.Strings.Split

set_option relaxedAutoImplicit false
set_option autoImplicit false

/-!
# Time differences from texts

The constructor of `TimeDelta` from a text such as `-1 days, 12:30:00.5`. Unlike the constructor
from components it checks none of the numbers, only their sum, which is computed modulo `2 ^ 64`.

## Main definitions

* `HkuUtils.TimeDelta.ofString` — the constructor.
* `HkuUtils.TimeDelta.text` — the texts with three numbers and a decimal.
* `HkuUtils.TimeDelta.ReadExactly` — the sum of the numbers, or an exception where it is too large.

## Main results

* `HkuUtils.TimeDelta.ofString_text` — what the constructor does with such a text.
* `HkuUtils.TimeDelta.readExactly_iff` — when the sum is right.
-/

namespace HkuUtils.TimeDelta

open Datetime (IsDelta timeDuration ticksPerDay formatInt twoDigits formatMillionths)
open Strings (split stoll stod NumberFault IntText DecimalText infinity)
open Padding (zeroPadded)

/-- How the constructor fails. It may also do what the language does not define, which is a case of
its own. -/
inductive TextFault where
  /-- The check of the form fails. -/
  | invalidFormat
  /-- `std::stoll` or `std::stod` throws. -/
  | number (fault : NumberFault)
  /-- The check of the range fails. -/
  | outOfRange
  /-- The behaviour of the program is undefined. -/
  | undefined
  deriving DecidableEq, Repr

/-- The arithmetic of `int64_t`, modulo `2 ^ 64`. -/
def wrap (x : ℤ) : ℤ := x.bmod 18446744073709551616

/-- The values of an `int64_t`. -/
def IsInt64 (x : ℤ) : Prop := -2 ^ 63 ≤ x ∧ x < 2 ^ 63

instance (x : ℤ) : Decidable (IsInt64 x) := inferInstanceAs (Decidable (_ ∧ _))

/-- The conversion of a `double`, towards zero. -/
def toInt64 (q : ℚ) : Except TextFault ℤ :=
  if IsInt64 (q.num.tdiv q.den) then .ok (q.num.tdiv q.den) else .error .undefined

/-- The constructor from a text: days, a word, and a time with colons.

The seconds are a `double`, and the sum wraps at 64 bits before the range of the difference is
checked. -/
def ofString (delta : List UInt8) : Except TextFault TimeDelta :=
  match split 32 (delta.map Http.lower) with
  | [first, _, last] => do
    let days ← (stoll first).mapError .number
    match split 58 last with
    | [first, second, third] => do
      let hours ← (stoll first).mapError .number
      let minutes ← (stoll second).mapError .number
      let seconds ← (stod third).mapError .number
      let microseconds ← toInt64 (seconds * 1000000)
      let total := wrap (wrap (wrap (wrap (wrap (wrap (days * 24) + hours) * 60) + minutes) *
        60000000) + microseconds)
      if -99999999 * ticksPerDay ≤ total ∧ total ≤ 100000000 * ticksPerDay - 1 then
        return timeDuration 0 0 0 total
      else .error .outOfRange
    | _ => .error .invalidFormat
  | _ => .error .invalidFormat

/-- The text `<d> days, <h>:<m>:<s>`. -/
def text (d h m s : List UInt8) : List UInt8 :=
  d ++ (" days, ".toUTF8.data.toList ++ (h ++ 58 :: (m ++ 58 :: s)))

/-- **A text gives the difference that it says**, and an exception where there is none. -/
def ReadExactly (delta : List UInt8) (x : ℤ) : Prop :=
  if IsDelta x then ofString delta = .ok x
  else ∃ fault, ofString delta = .error fault ∧ fault ≠ .undefined

/-! ## Arithmetic modulo `2 ^ 64` -/

/-- What a number wraps around to is the same modulo `2 ^ 64`. -/
lemma wrap_modEq (x : ℤ) : wrap x ≡ x [ZMOD 18446744073709551616] := Int.bmod_emod

/-- A number of 64 bits does not wrap around. -/
lemma wrap_eq_self {x : ℤ} (hx : IsInt64 x) : wrap x = x := by
  unfold IsInt64 at hx
  exact Int.bmod_eq_of_le (by omega) (by omega)

/-- Numbers that wrap to the same one. -/
lemma wrap_eq_of_modEq {x y : ℤ} (h : x ≡ y [ZMOD 18446744073709551616]) : wrap x = wrap y := by
  rw [wrap, wrap, Int.bmod_def, Int.bmod_def]
  have hmod : x % ((18446744073709551616 : ℕ) : ℤ) = y % ((18446744073709551616 : ℕ) : ℤ) := h
  rw [hmod]

/-- The constructor wraps at every operation, which is as good as once. -/
lemma wrap_total (d h m u : ℤ) :
    wrap (wrap (wrap (wrap (wrap (wrap (d * 24) + h) * 60) + m) * 60000000) + u) =
      wrap (total d h m 0 0 u) := by
  apply wrap_eq_of_modEq
  have hdays : wrap (wrap (d * 24) + h) ≡ d * 24 + h [ZMOD 18446744073709551616] :=
    (wrap_modEq _).trans ((wrap_modEq _).add_right h)
  have hminutes : wrap (wrap (wrap (wrap (d * 24) + h) * 60) + m) ≡
      (d * 24 + h) * 60 + m [ZMOD 18446744073709551616] :=
    (wrap_modEq _).trans (((wrap_modEq _).trans (hdays.mul_right 60)).add_right m)
  have hmicroseconds := ((wrap_modEq _).trans (hminutes.mul_right 60000000)).add_right u
  have htotal : total d h m 0 0 u = ((d * 24 + h) * 60 + m) * 60000000 + u := by
    rw [total]
    ring
  rw [htotal]
  exact hmicroseconds

/-- A difference is a number of 64 bits. -/
lemma IsDelta.isInt64 {x : ℤ} (hx : IsDelta x) : IsInt64 x := by
  unfold IsDelta ticksPerDay at hx
  unfold IsInt64
  omega

/-- What wraps into the range. -/
lemma isDelta_wrap_iff (x : ℤ) :
    IsDelta (wrap x) ↔ ∃ y, IsDelta y ∧ y ≡ x [ZMOD 18446744073709551616] := by
  constructor
  · exact fun h => ⟨wrap x, h, wrap_modEq x⟩
  · rintro ⟨y, hy, hmod⟩
    rw [← wrap_eq_of_modEq hmod, wrap_eq_self (IsDelta.isInt64 hy)]
    exact hy

/-! ## Reading -/

/-- A letter of a number: neither lower case nor a separator changes anything about it. -/
def Plain (t : List UInt8) : Prop := ∀ c ∈ t, Http.lower c = c ∧ c ≠ 32 ∧ c ≠ 58

/-- Two plain texts behind each other are plain. -/
lemma Plain.append {a b : List UInt8} (ha : Plain a) (hb : Plain b) : Plain (a ++ b) :=
  List.forall_mem_append.mpr ⟨ha, hb⟩

/-- Digits are plain. -/
lemma plain_digits {t : List UInt8} (h : Strings.Digits t) : Plain t := by
  have hdigit : ∀ c : UInt8, Http.isDigit c = true → Http.lower c = c ∧ c ≠ 32 ∧ c ≠ 58 :=
    CString.forall_byte (by decide +kernel)
  exact fun c hc => hdigit c (h c hc)

/-- Signs are plain. -/
lemma plain_sign {t : List UInt8} (h : Strings.IsSign t) : Plain t := by
  rcases h with rfl | rfl | rfl
  · exact List.forall_mem_nil _
  · exact List.forall_mem_singleton.mpr (by decide)
  · exact List.forall_mem_singleton.mpr (by decide)

/-- Texts of integers are plain. -/
lemma plain_intText {t : List UInt8} {x : ℤ} (h : IntText t x) : Plain t := by
  obtain ⟨sgn, ds, hsgn, -, hds, rfl, -⟩ := h
  exact (plain_sign hsgn).append (plain_digits hds)

/-- Texts of decimals are plain. -/
lemma plain_decimalText {t : List UInt8} {k : ℕ} {q : ℚ} (h : DecimalText t k q) : Plain t := by
  obtain ⟨sgn, ds, point, fs, hsgn, -, hds, hfs, hpoint, -, rfl, -⟩ := h
  have hplain : Plain point := by
    rcases hpoint with ⟨rfl, -⟩ | rfl
    · exact List.forall_mem_nil _
    · exact List.forall_mem_singleton.mpr (by decide)
  exact (plain_sign hsgn).append ((plain_digits hds).append (hplain.append (plain_digits hfs)))

/-- A plain text has no capital letters. -/
lemma Plain.map_lower {t : List UInt8} (h : Plain t) : t.map Http.lower = t := by
  conv_rhs => rw [← List.map_id t]
  exact List.map_congr_left fun c hc => (h c hc).1

/-- A plain text has neither of the characters at which the text of a difference is cut. -/
lemma Plain.not_mem {t : List UInt8} (h : Plain t) : 32 ∉ t ∧ 58 ∉ t :=
  ⟨fun hc => (h 32 hc).2.1 rfl, fun hc => (h 58 hc).2.2 rfl⟩

section Text

variable {d h m u : ℤ} {td th tm ts : List UInt8} {k : ℕ}

/-- The three pieces of a text. -/
lemma split_text (hd : Plain td) (hh : Plain th) (hm : Plain tm) (hs : Plain ts) :
    split 32 ((text td th tm ts).map Http.lower) =
      [td, "days,".toUTF8.data.toList, th ++ 58 :: (tm ++ 58 :: ts)] := by
  have hword : " days, ".toUTF8.data.toList.map Http.lower =
      32 :: ("days,".toUTF8.data.toList ++ [32]) := by decide +kernel
  have hcolon : Http.lower 58 = 58 := by decide
  have hlower : (text td th tm ts).map Http.lower = td ++ 32 :: ("days,".toUTF8.data.toList ++
      32 :: (th ++ 58 :: (tm ++ 58 :: ts))) := by
    rw [text, List.map_append, List.map_append, hword, List.map_append, List.map_cons,
      List.map_append, List.map_cons, hd.map_lower, hh.map_lower, hm.map_lower, hs.map_lower,
      hcolon, List.cons_append, List.append_assoc, List.singleton_append]
  have hlast : 32 ∉ th ++ 58 :: (tm ++ 58 :: ts) := by
    simp [hh.not_mem.1, hm.not_mem.1, hs.not_mem.1]
  rw [hlower, Strings.split_append hd.not_mem.1, Strings.split_append (by decide +kernel),
    Strings.split_of_not_mem hlast]

/-- The three pieces behind the days. -/
lemma split_time (hh : Plain th) (hm : Plain tm) (hs : Plain ts) :
    split 58 (th ++ 58 :: (tm ++ 58 :: ts)) = [th, tm, ts] := by
  rw [Strings.split_append hh.not_mem.2, Strings.split_append hm.not_mem.2,
    Strings.split_of_not_mem hs.not_mem.2]

/-- A whole number of microseconds is not rounded. -/
lemma toInt64_millionths (u : ℤ) :
    toInt64 ((u : ℚ) / 1000000 * 1000000) = if IsInt64 u then .ok u else .error .undefined := by
  rw [div_mul_cancel₀ _ (by norm_num), toInt64, Rat.num_intCast, Rat.den_intCast, Nat.cast_one,
    Int.tdiv_one]

/-- **What the constructor does** with three integers and a decimal of whole microseconds.

**Proof sketch.** The text is cut into its parts, since these are plain, and each part is read by
the lemma for its kind. What is left are the three checks, in the order of the source: the number
of seconds, its conversion, and the sum. -/
lemma ofString_text (hd : IntText td d) (hh : IntText th h) (hm : IntText tm m)
    (hs : DecimalText ts k (u / 1000000)) (hd64 : IsInt64 d) (hh64 : IsInt64 h)
    (hm64 : IsInt64 m) :
    ofString (text td th tm ts) =
      if infinity ≤ |(u / 1000000 : ℚ)| then .error (.number .outOfRange)
      else if ¬ IsInt64 u then .error .undefined
      else if IsDelta (wrap (total d h m 0 0 u)) then .ok (wrap (total d h m 0 0 u))
      else .error .outOfRange := by
  have hplain := plain_decimalText hs
  rw [ofString, split_text (plain_intText hd) (plain_intText hh) (plain_intText hm) hplain]
  simp only [split_time (plain_intText hh) (plain_intText hm) hplain, Strings.stoll_eq hd hd64,
    Strings.stoll_eq hh hh64, Strings.stoll_eq hm hm64, Strings.stod_eq hs]
  by_cases hinf : infinity ≤ |(u / 1000000 : ℚ)|
  · rw [if_pos hinf, if_pos hinf]
    rfl
  · rw [if_neg hinf, if_neg hinf]
    show (toInt64 ((u : ℚ) / 1000000 * 1000000) >>= _) = _
    rw [toInt64_millionths]
    by_cases hu : IsInt64 u
    · rw [if_pos hu, if_neg (not_not.mpr hu)]
      show (if _ then _ else _) = _
      rw [wrap_total, timeDuration_fraction]
      rfl
    · rw [if_neg hu, if_pos hu]
      rfl

end Text

/-! ## When the sum is right -/

/-- A decimal with six digits or fewer is a whole number of microseconds. -/
lemma exists_millionths {t : List UInt8} {k : ℕ} {q : ℚ} (h : DecimalText t k q) (hk : k ≤ 6) :
    ∃ u : ℤ, q = u / 1000000 := by
  obtain ⟨sgn, ds, point, fs, -, -, -, -, -, -, -, rfl⟩ := h
  have hpow : (10 : ℚ) ^ (6 - k) * 10 ^ k = 1000000 := by
    rw [← pow_add, Nat.sub_add_cancel hk]
    norm_num
  have hvalue : (Json.natural (ds ++ fs) : ℚ) / 10 ^ k =
      (Json.natural (ds ++ fs) * 10 ^ (6 - k) : ℕ) / 1000000 := by
    rw [← hpow]
    push_cast
    field_simp
  split_ifs
  · exact ⟨-(Json.natural (ds ++ fs) * 10 ^ (6 - k) : ℕ), by rw [hvalue]; push_cast; ring⟩
  · exact ⟨(Json.natural (ds ++ fs) * 10 ^ (6 - k) : ℕ), by rw [hvalue]; push_cast; ring⟩

/-- The limit of a `double` is far away from that of the differences. -/
lemma le_infinity : (2 : ℚ) ^ 110 ≤ infinity := by
  have hle : (2 : ℚ) ^ 110 ≤ 2 ^ 970 := pow_le_pow_right₀ (by norm_num) (by norm_num)
  have hsplit : (2 : ℚ) ^ 1024 = 2 ^ 970 * 2 ^ 54 := by rw [← pow_add]
  have hdiff : ∀ x : ℚ, 2 ^ 110 ≤ x → 2 ^ 110 ≤ x * 2 ^ 54 - x := by
    intro x hx
    linarith
  rw [infinity, hsplit]
  exact hdiff _ hle

/-- Seconds that are too large for a `double` are too large for a difference. -/
lemma not_isDelta_of_infinity {d h m u : ℤ} (hd : IsInt64 d) (hh : IsInt64 h) (hm : IsInt64 m)
    (hu : infinity ≤ |(u / 1000000 : ℚ)|) : ¬ IsDelta (total d h m 0 0 u) := by
  have hlarge : (2 : ℚ) ^ 110 * 1000000 ≤ |(u : ℚ)| := by
    have hle := le_infinity.trans hu
    rw [abs_div, abs_of_pos (by norm_num : (0 : ℚ) < 1000000), le_div_iff₀ (by norm_num)] at hle
    exact hle
  have hlarge' : (2 : ℤ) ^ 110 * 1000000 ≤ |u| := by exact_mod_cast hlarge
  unfold IsInt64 at hd hh hm
  unfold IsDelta ticksPerDay total
  rcases abs_cases u with ⟨habs, -⟩ | ⟨habs, -⟩ <;> omega

/-- **When the sum is right**, for a number of microseconds.

**Proof sketch.** By the cases of `ofString_text`. The sum that the constructor makes is the right
one if it does not wrap around; if it does, then it is a difference exactly when some difference is
the same modulo `2 ^ 64`. -/
lemma readExactly_text {d h m u : ℤ} {td th tm ts : List UInt8} {k : ℕ} (hd : IntText td d)
    (hh : IntText th h) (hm : IntText tm m) (hs : DecimalText ts k (u / 1000000))
    (hd64 : IsInt64 d) (hh64 : IsInt64 h) (hm64 : IsInt64 m) :
    ReadExactly (text td th tm ts) (total d h m 0 0 u) ↔
      infinity ≤ |(u / 1000000 : ℚ)| ∨ IsInt64 u ∧ (IsDelta (total d h m 0 0 u) ∨
        ∀ x, IsDelta x → ¬ x ≡ total d h m 0 0 u [ZMOD 18446744073709551616]) := by
  have hwrap := isDelta_wrap_iff (total d h m 0 0 u)
  rw [ReadExactly, ofString_text hd hh hm hs hd64 hh64 hm64]
  by_cases hinf : infinity ≤ |(u / 1000000 : ℚ)|
  · simp [hinf, not_isDelta_of_infinity hd64 hh64 hm64 hinf]
  by_cases hu : IsInt64 u
  · by_cases htotal : IsDelta (total d h m 0 0 u)
    · simp [hinf, hu, htotal, wrap_eq_self (IsDelta.isInt64 htotal)]
    · by_cases hin : IsDelta (wrap (total d h m 0 0 u))
      · -- the sum wraps around into the range
        obtain ⟨x, hx, hmod⟩ := hwrap.mp hin
        refine iff_of_false ?_ ?_
        · simp [hinf, hu, htotal, hin]
        · rintro (h | ⟨-, h | h⟩)
          · exact hinf h
          · exact htotal h
          · exact h x hx hmod
      · have hnone : ∀ x, IsDelta x → ¬ x ≡ total d h m 0 0 u [ZMOD 18446744073709551616] :=
          fun x hx hmod => hin (hwrap.mpr ⟨x, hx, hmod⟩)
        simpa [hinf, hu, htotal, hin] using hnone
  · simp [hinf, hu]

/-- The seconds as they are written. -/
lemma decimalText_formatMillionths {x : ℤ} (hx : 0 ≤ x) :
    DecimalText (formatMillionths x) 6 (x / 1000000) := by
  have hvalue : (((x / 1000000).toNat * 1000000 + (x % 1000000).toNat : ℕ) : ℤ) = x := by omega
  have h := Strings.decimalText_zeroPadded (x / 1000000).toNat
    (b := (x % 1000000).toNat) (by omega)
  rw [← Int.cast_natCast (R := ℚ), hvalue] at h
  exact h

/-- A field of two digits. -/
lemma intText_twoDigits {x : ℤ} (hx : 0 ≤ x) : IntText (twoDigits x) x := by
  obtain ⟨n, rfl⟩ := Int.eq_ofNat_of_zero_le hx
  rw [Datetime.twoDigits_natCast]
  exact (Strings.natText_zeroPadded 2 n).intText

/-- **A difference is read back.**

**Proof sketch.** The parts of a difference sum up to it, and each of them is small, so the text is
of the kind that `readExactly_text` is about, and its sum is in the range. -/
lemma ofString_str {t : TimeDelta} (ht : IsDelta t) : ofString (str t) = .ok t := by
  obtain ⟨htotal, hdays, hhours, hminutes, hseconds, hmilliseconds, hmicroseconds⟩ := components t
  have hsum : total (days t) (hours t) (minutes t) 0 0
      (seconds t * 1000000 + (milliseconds t * 1000 + microseconds t)) = t := by
    rw [total] at htotal ⊢
    omega
  have hd64 : IsInt64 (days t) := by
    unfold IsDelta ticksPerDay at *
    unfold IsInt64
    omega
  have hh64 : IsInt64 (hours t) := by
    unfold IsInt64
    omega
  have hm64 : IsInt64 (minutes t) := by
    unfold IsInt64
    omega
  have hu : 0 ≤ seconds t * 1000000 + (milliseconds t * 1000 + microseconds t) := by omega
  have hu64 : IsInt64 (seconds t * 1000000 + (milliseconds t * 1000 + microseconds t)) := by
    unfold IsInt64
    omega
  have hread := (readExactly_text (Strings.intText_decimalInt (days t))
    (intText_twoDigits hhours.1) (intText_twoDigits hminutes.1) (decimalText_formatMillionths hu)
    hd64 hh64 hm64).mpr (Or.inr ⟨hu64, Or.inl (by rw [hsum]; exact ht)⟩)
  rw [hsum, ReadExactly, if_pos ht] at hread
  exact hread

/-- **When a text gives the difference that it says.** Three integers of 64 bits and a decimal of
six digits or fewer are summed up rightly exactly in these cases: the seconds are too large for a
`double`, which is an exception; or their microseconds fit into 64 bits, and the sum is in the
range of all differences or does not wrap around into it. The text of every difference is read
back.

**Proof sketch.** The decimal is a number of millionths, and the cases for it are those of
`readExactly_text`; the text of a difference has parts that fit. -/
theorem readExactly_iff {d h m : ℤ} {q : ℚ} {td th tm ts : List UInt8} {k : ℕ} (hd : IntText td d)
    (hh : IntText th h) (hm : IntText tm m) (hs : DecimalText ts k q) (hk : k ≤ 6)
    (hd64 : IsInt64 d) (hh64 : IsInt64 h) (hm64 : IsInt64 m) :
    (∃ u : ℤ, q = u / 1000000 ∧ (ReadExactly (text td th tm ts) (total d h m 0 0 u) ↔
      infinity ≤ |q| ∨ IsInt64 u ∧ (IsDelta (total d h m 0 0 u) ∨
        ∀ x, IsDelta x → ¬ x ≡ total d h m 0 0 u [ZMOD 18446744073709551616]))) ∧
    ∀ t : TimeDelta, IsDelta t → ofString (str t) = .ok t := by
  obtain ⟨u, rfl⟩ := exists_millionths hs hk
  exact ⟨⟨u, rfl, readExactly_text hd hh hm hs hd64 hh64 hm64⟩, fun t => ofString_str⟩

/-- A day and some hours, minutes and seconds, and the smallest negative difference. -/
theorem readExactly_half : ReadExactly (text [49] [50] [51] [52, 46, 53])
    (total 1 2 3 0 0 4500000) ∧ ofString (str (-1 : ℤ)) = .ok (-1 : ℤ) := by
  have hint : ∀ n : Fin 10, IntText [48 + UInt8.ofNat n] (n : ℕ) := fun n =>
    ⟨[], _, Or.inl rfl, List.cons_ne_nil _ _, List.forall_mem_singleton.mpr
      (Http.isDigit_digit n.isLt), rfl, by revert n; decide⟩
  have hdecimal : DecimalText [52, 46, 53] 1 (9 / 2) := by
    refine ⟨[], [52], [46], [53], Or.inl rfl, by decide, by decide, by decide, Or.inr rfl, rfl,
      rfl, ?_⟩
    have hnatural : Json.natural ([52] ++ [53]) = 45 := by decide
    rw [if_neg (by decide), hnatural]
    norm_num
  obtain ⟨⟨u, hu, hiff⟩, hback⟩ := readExactly_iff (hint 1) (hint 2) (hint 3) hdecimal (by decide)
    (by decide) (by decide) (by decide)
  have hvalue : u = 4500000 := by
    have hcast : (u : ℚ) = 4500000 := by linarith
    exact_mod_cast hcast
  subst hvalue
  exact ⟨hiff.mpr (Or.inr ⟨by decide, Or.inl (by decide)⟩), hback (-1) (by decide)⟩

/-- Minutes that are not a difference at all are none: their sum wraps around to zero.

**Proof sketch.** The minutes are `2 ^ 56`, and a minute has sixty million microseconds, which
`2 ^ 8` divides; so the sum is a multiple of `2 ^ 64`. -/
theorem not_readExactly :
    IntText "72057594037927936".toUTF8.data.toList 72057594037927936 ∧
    IsInt64 72057594037927936 ∧
    ofString "0 days, 0:72057594037927936:0".toUTF8.data.toList = .ok (0 : ℤ) ∧
    ¬ ReadExactly "0 days, 0:72057594037927936:0".toUTF8.data.toList
      (total 0 0 72057594037927936 0 0 0) := by
  have hzero : IntText [48] 0 :=
    ⟨[], [48], Or.inl rfl, by decide, by decide, rfl, by decide⟩
  have hminutes : IntText "72057594037927936".toUTF8.data.toList 72057594037927936 :=
    ⟨[], _, Or.inl rfl, by decide +kernel, by decide +kernel, rfl,
      by decide +kernel⟩
  have hdecimal : DecimalText [48] 0 ((0 : ℤ) / 1000000) := by
    refine ⟨[], [48], [], [], Or.inl rfl, by decide, by decide, by decide, Or.inl ⟨rfl, rfl⟩, rfl,
      rfl, ?_⟩
    have hnatural : Json.natural ([48] ++ []) = 0 := by decide
    rw [if_neg (by decide), hnatural]
    norm_num
  have htext : "0 days, 0:72057594037927936:0".toUTF8.data.toList =
      text [48] [48] "72057594037927936".toUTF8.data.toList [48] := by decide +kernel
  have hread : ofString "0 days, 0:72057594037927936:0".toUTF8.data.toList = .ok (0 : ℤ) := by
    have hfinite : ¬ infinity ≤ |((0 : ℤ) / 1000000 : ℚ)| := by
      have hle := le_infinity
      norm_num at hle ⊢
      linarith
    have hwrap : wrap (total 0 0 72057594037927936 0 0 0) = 0 := by decide
    rw [htext, ofString_text hzero hzero hminutes hdecimal (by decide) (by decide) (by decide),
      if_neg hfinite, if_neg (by decide), hwrap, if_pos (by decide)]
  refine ⟨hminutes, by decide, hread, ?_⟩
  rw [ReadExactly, if_neg (by decide), hread]
  rintro ⟨fault, h, -⟩
  cases h

end HkuUtils.TimeDelta
