import HkuUtils.Padding
import HkuUtils.Datetime.Model

set_option relaxedAutoImplicit false
set_option autoImplicit false

/-!
# Texts of dates

The function `str`, by which a `Datetime` is kept in a column and compared with others. Its seconds
are written in two formats, one for values with microseconds and one for values without.

## Main definitions

* `HkuUtils.Datetime.str` — the function.
* `HkuUtils.Datetime.isoText` — what a text should be.
* `HkuUtils.Datetime.TextOrder` — two values have such texts, in the order of the values.
* `HkuUtils.Datetime.Padded` — the values whose text is right.

## Main results

* `HkuUtils.Datetime.str_eq` — what is written for the parts of a value.
* `HkuUtils.Datetime.isoText_lt_iff` — the order of the texts.
* `HkuUtils.Datetime.text_order`, `five_seconds_last` — when the texts are in order.

## Design

The formats are those for version 9 of `fmt` and later ones. The seconds with their fraction are a
rational number, here its millionths, and are written exactly.
-/

namespace HkuUtils.Datetime

open Padding (alignRight alignLeft zeroPadded)

/-! ## The function -/

/-- The format `d` of an integer. -/
def formatInt (x : ℤ) : List UInt8 :=
  if x < 0 then 45 :: Http.decimal x.natAbs else Http.decimal x.natAbs

/-- The format `.6f` of some millionths that are not negative. -/
def formatMillionths (x : ℤ) : List UInt8 :=
  Http.decimal (x / 1000000).toNat ++ 46 :: zeroPadded 6 (x % 1000000).toNat

/-- The format `:0>2d`. -/
def twoDigits (x : ℤ) : List UInt8 := alignRight 48 2 (formatInt x)

/-- What `str` writes before the seconds. -/
def upToMinute (year month day hour minute : ℤ) : List UInt8 :=
  alignRight 32 4 (formatInt year) ++ 45 :: (twoDigits month ++ 45 :: (twoDigits day ++
    32 :: (twoDigits hour ++ 58 :: (twoDigits minute ++ [58]))))

/-- `str`. The fraction of the seconds is written only if there is one, and then the seconds and it
are aligned to nine characters from the left. -/
def str (d : Datetime) : Except Fault (List UInt8) :=
  if d.isNull then .ok "+infinity".toUTF8.data.toList
  else do
    let microseconds := (← d.millisecond) * 1000 + (← d.microsecond)
    if microseconds = 0 then
      return upToMinute (← d.year) (← d.month) (← d.day) (← d.hour) (← d.minute) ++
        twoDigits (← d.second)
    else
      return upToMinute (← d.year) (← d.month) (← d.day) (← d.hour) (← d.minute) ++
        alignLeft 48 9 (formatMillionths ((← d.second) * 1000000 + microseconds))

/-! ## What is said of it -/

/-- A fraction of six digits, if it is not zero. -/
def fraction (u : ℕ) : List UInt8 := if u = 0 then [] else 46 :: zeroPadded 6 u

/-- The text `YYYY-MM-DD hh:mm:ss`, with a fraction. -/
def isoText (y m d hh mi s u : ℕ) : List UInt8 :=
  zeroPadded 4 y ++ 45 :: (zeroPadded 2 m ++ 45 :: (zeroPadded 2 d ++ 32 :: (zeroPadded 2 hh ++
    58 :: (zeroPadded 2 mi ++ 58 :: (zeroPadded 2 s ++ fraction u)))))

/-- The text of a value is the padded one. -/
def HasIsoText (t : ℤ) : Prop := ∃ y m d hh mi s, Parts t y m d hh mi s ∧
  str t = .ok (isoText y m d hh mi s (t % 1000000).toNat)

/-- **Two values have padded texts, in their own order.** -/
structure TextOrder (a b : ℤ) : Prop where
  left : HasIsoText a
  right : HasIsoText b
  order : ∃ s t, str a = .ok s ∧ str b = .ok t ∧ (a < b ↔ s < t)

/-- The value has a date; and no microseconds, or two digits of seconds. -/
def Padded (t : ℤ) : Prop := Dated t ∧ (t % 1000000 = 0 ∨ 10 ≤ t / 1000000 % 60)

instance (t : ℤ) : Decidable (Padded t) := inferInstanceAs (Decidable (_ ∧ _))

/-! ## What is written -/

/-- A natural number. -/
lemma formatInt_natCast (n : ℕ) : formatInt n = Http.decimal n := by
  rw [formatInt, if_neg (by omega)]
  rfl

/-- A field of two digits. -/
lemma twoDigits_natCast (n : ℕ) : twoDigits n = zeroPadded 2 n := by
  rw [twoDigits, formatInt_natCast]
  rfl

/-- A year has four digits. -/
lemma length_decimal_year {y : ℕ} (hy : 1400 ≤ y ∧ y ≤ 9999) : (Http.decimal y).length = 4 := by
  rw [Padding.decimal_of_le (by omega), Padding.decimal_of_le (by omega),
    Padding.decimal_of_le (by omega), Padding.decimal_of_lt (by omega)]
  rfl

/-- The text before the seconds. -/
lemma upToMinute_eq {y m d hh mi : ℕ} (hy : 1400 ≤ y ∧ y ≤ 9999) (seconds : List UInt8) :
    upToMinute y m d hh mi ++ seconds = zeroPadded 4 y ++ 45 :: (zeroPadded 2 m ++
      45 :: (zeroPadded 2 d ++ 32 :: (zeroPadded 2 hh ++ 58 :: (zeroPadded 2 mi ++
        58 :: seconds)))) := by
  have hlength := (length_decimal_year hy).ge
  have hyear : alignRight 32 4 (formatInt y) = zeroPadded 4 y := by
    rw [formatInt_natCast, zeroPadded, Padding.alignRight_eq_self hlength,
      Padding.alignRight_eq_self hlength]
  simp only [upToMinute, hyear, twoDigits_natCast, List.append_assoc, List.cons_append,
    List.nil_append]

/-- What `str` writes for the seconds. -/
def secondsText (s u : ℕ) : List UInt8 :=
  if u = 0 then zeroPadded 2 s else alignLeft 48 9 (formatMillionths (s * 1000000 + u))

/-- **What is written for the parts of a value.**

**Proof sketch.** The parts are what the accessors return, and the fraction is written exactly if
it is not zero. -/
lemma str_eq {t : ℤ} {y m d hh mi s : ℕ} (p : Parts t y m d hh mi s) :
    str t = .ok (zeroPadded 4 y ++ 45 :: (zeroPadded 2 m ++ 45 :: (zeroPadded 2 d ++
      32 :: (zeroPadded 2 hh ++ 58 :: (zeroPadded 2 mi ++
        58 :: secondsText s (t % 1000000).toNat))))) := by
  have hmicro : timeOfDay t % 1000000 / 1000 * 1000 + timeOfDay t % 1000000 % 1000 =
      (t % 1000000).toNat := by
    unfold timeOfDay ticksPerDay
    omega
  have hmilli : millisecond t = .ok (timeOfDay t % 1000000 / 1000) := rfl
  have hmicrosecond : microsecond t = .ok (timeOfDay t % 1000000 % 1000) := rfl
  rw [← upToMinute_eq p.year_range]
  rw [str, if_neg (by exact Bool.false_ne_true), hmilli, hmicrosecond, p.year_eq, p.month_eq,
    p.day_eq, p.hour_eq, p.minute_eq, p.second_eq]
  show ite (timeOfDay t % 1000000 / 1000 * 1000 + timeOfDay t % 1000000 % 1000 = 0) _ _ = _
  rw [hmicro]
  by_cases hzero : (t % 1000000).toNat = 0
  · rw [if_pos (by omega), secondsText, if_pos hzero, ← twoDigits_natCast]
    rfl
  · rw [if_neg (by omega), secondsText, if_neg hzero]
    rfl

/-- The seconds with a fraction. -/
lemma formatMillionths_eq {s u : ℕ} (hu : u < 1000000) :
    formatMillionths (s * 1000000 + u) = Http.decimal s ++ 46 :: zeroPadded 6 u := by
  have hquot : (((s : ℤ) * 1000000 + u) / 1000000).toNat = s := by omega
  have hmod : (((s : ℤ) * 1000000 + u) % 1000000).toNat = u := by omega
  rw [formatMillionths, hquot, hmod]

/-- **When the seconds are right**: a fraction behind one digit is filled up on the wrong side.

**Proof sketch.** With two digits in front of the point the text is nine characters long and
nothing is filled up. With one it is filled up on the right, so it begins with a digit and the
point, where the right text has two digits. -/
lemma secondsText_iff {s u : ℕ} (hs : s < 60) (hu : u < 1000000) :
    secondsText s u = zeroPadded 2 s ++ fraction u ↔ u = 0 ∨ 10 ≤ s := by
  have hsix : (zeroPadded 6 u).length = 6 := Padding.length_zeroPadded (by omega) (by omega)
  by_cases hzero : u = 0
  · simp [secondsText, fraction, hzero]
  · rw [secondsText, if_neg hzero, formatMillionths_eq hu, fraction, if_neg hzero]
    by_cases hten : 10 ≤ s
    · have htwo : (Http.decimal s).length = 2 := by
        rw [Padding.decimal_of_le hten, Padding.decimal_of_lt (by omega)]
        rfl
      have hpadded : zeroPadded 2 s = Http.decimal s := Padding.alignRight_eq_self htwo.ge
      refine iff_of_true ?_ (Or.inr hten)
      rw [Padding.alignLeft_eq_self, hpadded]
      rw [List.length_append, List.length_cons, htwo, hsix]
    · refine iff_of_false (fun h => ?_) (by omega)
      have hdigit : Padding.digit s ≠ 46 := by
        intro heq
        have hnat := congrArg UInt8.toNat heq
        rw [Padding.digit, Http.toNat_digit (by omega)] at hnat
        simp at hnat
        omega
      have hpadded : zeroPadded 2 s = [48, Padding.digit s] := by
        rw [zeroPadded, Padding.decimal_of_lt (by omega)]
        rfl
      -- one digit, then the point: the padded text has its second digit there
      rw [hpadded, Padding.decimal_of_lt (by omega), alignLeft, List.cons_append,
        List.cons_append] at h
      exact hdigit (List.cons.inj (List.cons.inj h).2).1.symm

/-- A value with parts has a date. -/
lemma Parts.dated {t : ℤ} {y m d hh mi s : ℕ} (p : Parts t y m d hh mi s) : Dated t := by
  have hyear := p.year_range
  have hmonth := p.month_range
  have hday := p.day_range
  have hdate := Calendar.date_dayNumber (y := y) (m := m) (d := d) (by omega) (by omega)
  rw [p.date_eq] at hdate
  exact (year_range_iff _).mp (by omega)

/-- The seconds of a value. -/
lemma Parts.second_value {t : ℤ} {y m d hh mi s : ℕ} (p : Parts t y m d hh mi s) :
    (s : ℤ) = t / 1000000 % 60 := by
  have hsecond : Except.ok (timeOfDay t / 1000000 % 60) = Except.ok (s : ℤ) := p.second_eq
  rw [← Except.ok.inj hsecond]
  unfold timeOfDay ticksPerDay
  omega

/-- **Which values have their padded text.** -/
lemma hasIsoText_iff (t : ℤ) : HasIsoText t ↔ Padded t := by
  have hmicro : (t % 1000000).toNat < 1000000 := by omega
  constructor
  · rintro ⟨y, m, d, hh, mi, s, p, htext⟩
    rw [str_eq p, isoText] at htext
    have hseconds := Except.ok.inj htext
    simp only [List.append_cancel_left_eq, List.cons.injEq, true_and] at hseconds
    have hvalue := p.second_value
    have hcases := (secondsText_iff p.time_range.2.2 hmicro).mp hseconds
    exact ⟨p.dated, by omega⟩
  · rintro ⟨hdated, hpadded⟩
    obtain ⟨y, m, d, hh, mi, s, p⟩ := exists_parts hdated
    have hvalue := p.second_value
    refine ⟨y, m, d, hh, mi, s, p, ?_⟩
    rw [str_eq p, (secondsText_iff p.time_range.2.2 hmicro).mpr (by omega), isoText]

/-! ## The order -/

/-- Two fields of the same width decide, or what follows them. -/
lemma field_lt_iff {width n k : ℕ} (hwidth : 0 < width) (hn : n < 10 ^ width) (hk : k < 10 ^ width)
    (c : UInt8) (x y : List UInt8) : zeroPadded width n ++ c :: x < zeroPadded width k ++ c :: y ↔
      n < k ∨ n = k ∧ x < y := by
  have hlength : (zeroPadded width n).length = (zeroPadded width k).length := by
    rw [Padding.length_zeroPadded hwidth hn, Padding.length_zeroPadded hwidth hk]
  rw [Padding.append_lt_append_iff hlength, Padding.zeroPadded_lt_iff hwidth hn hk,
    Padding.zeroPadded_inj hwidth hn hk, List.cons_lt_cons_iff]
  simp

/-- The fractions are in order; none at all comes first. -/
lemma fraction_lt_iff {u v : ℕ} (hu : u < 1000000) (hv : v < 1000000) :
    fraction u < fraction v ↔ u < v := by
  unfold fraction
  by_cases hu0 : u = 0
  · by_cases hv0 : v = 0
    · simp [hu0, hv0]
    · simp [hu0, hv0]
      omega
  · by_cases hv0 : v = 0
    · simp [hu0, hv0]
    · rw [if_neg hu0, if_neg hv0, List.cons_lt_cons_iff,
        Padding.zeroPadded_lt_iff (by omega) (by omega) (by omega)]
      simp

/-- The fields decide one after the other. -/
lemma isoText_lt_fields {y m d hh mi s u y' m' d' hh' mi' s' u' : ℕ}
    (hy : y < 10000 ∧ y' < 10000) (hm : m < 100 ∧ m' < 100) (hd : d < 100 ∧ d' < 100)
    (hhh : hh < 100 ∧ hh' < 100) (hmi : mi < 100 ∧ mi' < 100) (hs : s < 100 ∧ s' < 100)
    (hu : u < 1000000 ∧ u' < 1000000) :
    isoText y m d hh mi s u < isoText y' m' d' hh' mi' s' u' ↔
      y < y' ∨ y = y' ∧ (m < m' ∨ m = m' ∧ (d < d' ∨ d = d' ∧ (hh < hh' ∨ hh = hh' ∧
        (mi < mi' ∨ mi = mi' ∧ (s < s' ∨ s = s' ∧ u < u'))))) := by
  have htwo : 0 < 2 := by decide
  have hseconds : (zeroPadded 2 s).length = (zeroPadded 2 s').length := by
    rw [Padding.length_zeroPadded htwo hs.1, Padding.length_zeroPadded htwo hs.2]
  rw [isoText, isoText, field_lt_iff (by decide) hy.1 hy.2, field_lt_iff htwo hm.1 hm.2,
    field_lt_iff htwo hd.1 hd.2, field_lt_iff htwo hhh.1 hhh.2, field_lt_iff htwo hmi.1 hmi.2,
    Padding.append_lt_append_iff hseconds, Padding.zeroPadded_lt_iff htwo hs.1 hs.2,
    Padding.zeroPadded_inj htwo hs.1 hs.2, fraction_lt_iff hu.1 hu.2]

/-- **The padded texts are in the order of their values.**

**Proof sketch.** The texts are compared field by field, as the dates are; on the same day the
order is that of the time. -/
lemma isoText_lt_iff {a b : ℤ} {y m d hh mi s y' m' d' hh' mi' s' : ℕ}
    (p : Parts a y m d hh mi s) (q : Parts b y' m' d' hh' mi' s') :
    isoText y m d hh mi s (a % 1000000).toNat < isoText y' m' d' hh' mi' s' (b % 1000000).toNat ↔
      a < b := by
  obtain ⟨-, -, -, -, -, -, hy, hm, hd, hday, htime, hdate, hticks⟩ := p
  obtain ⟨-, -, -, -, -, -, hy', hm', hd', hday', htime', hdate', hticks'⟩ := q
  have hlt := @Calendar.dayNumber_lt_iff y m d y' m' d'
    (by omega) (by omega) (by omega) (by omega)
  have hgt := @Calendar.dayNumber_lt_iff y' m' d' y m d
    (by omega) (by omega) (by omega) (by omega)
  rw [hdate, hdate'] at hlt hgt
  rw [isoText_lt_fields (by omega) (by omega) (by omega) (by omega) (by omega) (by omega)
    (by omega)]
  clear hdate hdate' hd hd'
  unfold ticksPerDay at *
  by_cases hsame : y = y' ∧ m = m' ∧ d = d'
  · obtain ⟨rfl, rfl, rfl⟩ := hsame
    have hquot : a / 86400000000 = b / 86400000000 := by omega
    clear hlt hgt
    omega
  · have hdecides : a < b ↔ a / 86400000000 < b / 86400000000 := by omega
    clear hticks hticks'
    omega

/-- **When the texts are in order**: exactly if both values have a date, and neither has
microseconds behind one digit of seconds.

**Proof sketch.** A padded value has its fields at fixed places, and such texts are in the order of
their values. -/
theorem text_order (a b : ℤ) : TextOrder a b ↔ Padded a ∧ Padded b := by
  constructor
  · intro h
    exact ⟨(hasIsoText_iff a).mp h.left, (hasIsoText_iff b).mp h.right⟩
  · rintro ⟨ha, hb⟩
    obtain hleft := (hasIsoText_iff a).mpr ha
    obtain hright := (hasIsoText_iff b).mpr hb
    refine ⟨hleft, hright, ?_⟩
    obtain ⟨y, m, d, hh, mi, s, p, hstr⟩ := hleft
    obtain ⟨y', m', d', hh', mi', s', q, hstr'⟩ := hright
    exact ⟨_, _, hstr, hstr', (isoText_lt_iff p q).symm⟩

/-- The start of 2024. -/
def newYear : ℤ := Calendar.dayNumber 2024 1 1 * ticksPerDay

/-- Five seconds and ten microseconds are written after ten seconds. -/
theorem five_seconds_last :
    str (newYear + 5000010 : ℤ) = .ok "2024-01-01 00:00:5.0000100".toUTF8.data.toList ∧
    str (newYear + 10000000 : ℤ) = .ok "2024-01-01 00:00:10".toUTF8.data.toList ∧
    "2024-01-01 00:00:10".toUTF8.data.toList < "2024-01-01 00:00:5.0000100".toUTF8.data.toList ∧
    ¬ TextOrder (newYear + 5000010) (newYear + 10000000) := by
  refine ⟨by decide +kernel, by decide +kernel, by decide +kernel, fun h => ?_⟩
  have hpadded := (hasIsoText_iff _).mp h.left
  revert hpadded
  decide +kernel

end HkuUtils.Datetime
