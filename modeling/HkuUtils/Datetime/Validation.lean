import HkuUtils.Datetime.Encodings

set_option relaxedAutoImplicit false
set_option autoImplicit false

/-!
# What the constructors accept

The constructors of `Datetime` leave the check of a date to Boost. A number of 14 digits is taken
with any two digits for its seconds, and year, month and day are cut to 16 bits before they are
checked.

## Main definitions

* `HkuUtils.Datetime.Represented` — a number is refused, or is the number of the value made from it.
* `HkuUtils.Datetime.OnlyDates` — year, month and day are refused, or are those of the value.

## Main results

* `HkuUtils.Datetime.represented_iff` — the numbers for which the constructor is right.
* `HkuUtils.Datetime.onlyDates_iff` — the years, months and days for which it is.
-/

namespace HkuUtils.Datetime

/-! ## Numbers -/

/-- The constructor refuses the number, or makes a value whose number in this format it is. -/
def Represented (n : ℕ) : Prop :=
  (∃ e, ofNumber n = .error e) ∨ ∃ d, ofNumber n = .ok d ∧
    (n ≤ 99999999 ∧ ymd d = n ∨
      99999999 < n ∧ n ≤ 999999999999 ∧ ymdhm d = n ∨
      999999999999 < n ∧ n ≤ 99999999999999 ∧ ymdhms d = n)

/-- Casts of small numbers change nothing. -/
lemma ushort_natCast {n : ℕ} (h : n < 65536) : ushort n = n := by
  unfold ushort
  omega

/-- The constructor of a date, for a year, month and day that fit in 16 bits. -/
lemma newDate_eq_ite {y m d : ℕ} (hy : y < 65536) (hm : m < 65536) (hd : d < 65536) :
    newDate y m d =
      if IsDate y m d then .ok (Calendar.dayNumber y m d : ℤ) else .error .badDate := by
  rw [newDate, ushort_natCast hy, ushort_natCast hm, ushort_natCast hd]
  rfl

/-- A number of a day. -/
lemma represented_day {n : ℕ} (h : n ≤ 99999999) : Represented n := by
  obtain ⟨y, m, d, hy, hm, hd, hn⟩ : ∃ y m d, n / 10000 = y ∧ (n - y * 10000) / 100 = m ∧
      n - n / 100 * 100 = d ∧ n = y * 10000 + m * 100 + d := ⟨_, _, _, rfl, rfl, rfl, by omega⟩
  have hread : ofNumber n = do
      let date ← newDate y m d
      return ptimeOf date (timeDuration 0 0 0 0) := by
    rw [ofNumber, if_neg (by unfold nullNumber; omega), if_pos h]
    simp only [hy, hm, hd]
  rw [newDate_eq_ite (by omega) (by omega) (by omega)] at hread
  by_cases hdate : IsDate y m d
  · have hparts := @IsDate.parts y m d 0 0 0 0 hdate (by decide) (by decide)
    rw [if_pos hdate] at hread
    refine .inr ⟨_, hread, .inl ⟨h, ?_⟩⟩
    exact hparts.ymd_eq.trans hn.symm
  · rw [if_neg hdate] at hread
    exact .inl ⟨_, hread⟩

/-- A number of a minute.

**Proof sketch.** Take the number apart into its fields. If the hour, the minute or the date is not
one, then the constructor throws, as it should; otherwise the value has these fields, and they make
the number again. -/
lemma represented_minute {n : ℕ} (hlow : 99999999 < n) (h : n ≤ 999999999999) : Represented n := by
  obtain ⟨y, m, d, hh, mi, hy, hm, hd, hhh, hmi, hn⟩ : ∃ y m d hh mi, n / 100000000 = y ∧
      (n - y * 100000000) / 1000000 = m ∧ (n - n / 1000000 * 1000000) / 10000 = d ∧
      (n - n / 10000 * 10000) / 100 = hh ∧ n - n / 100 * 100 = mi ∧
      n = y * 100000000 + m * 1000000 + d * 10000 + hh * 100 + mi :=
    ⟨_, _, _, _, _, rfl, rfl, rfl, rfl, rfl, by omega⟩
  have hread : ofNumber n = do
      if ¬ hh < 24 then throw (.outOfRange "Hour value is out of rang 0..23")
      if ¬ mi < 60 then throw (.outOfRange "Minute value is out of range 0..59")
      let date ← newDate y m d
      return ptimeOf date (timeDuration hh mi 0 0) := by
    rw [ofNumber, if_neg (by unfold nullNumber; omega), if_neg (by omega), if_pos h]
    simp only [hy, hm, hd, hhh, hmi]
  rw [newDate_eq_ite (by omega) (by omega) (by omega)] at hread
  by_cases hhour : hh < 24
  · by_cases hminute : mi < 60
    · by_cases hdate : IsDate y m d
      · have hparts := hdate.parts (s := 0) (r := 0) ⟨hhour, hminute, by decide⟩ (by decide)
        have htime : timeDuration hh mi 0 0 = ((hh * 60 + mi) * 60 + (0 : ℕ)) * 1000000 + 0 := by
          simp [timeDuration]
        simp only [hhour, hminute, hdate, htime, not_true_eq_false, if_true, if_false] at hread
        refine .inr ⟨_, hread, .inr (.inl ⟨hlow, h, ?_⟩)⟩
        exact hparts.number_eq.trans hn.symm
      · simp only [hhour, hminute, hdate, not_true_eq_false, if_false] at hread
        exact .inl ⟨_, hread⟩
    · simp only [hhour, hminute, not_true_eq_false, not_false_eq_true, if_true, if_false] at hread
      exact .inl ⟨_, hread⟩
  · simp only [hhour, not_false_eq_true, if_true] at hread
    exact .inl ⟨_, hread⟩

/-- The seconds of a number are less than 60. -/
lemma ymdhms_mod_lt (t : ℤ) : ymdhms t = nullNumber ∨ ymdhms t % 100 < 60 := by
  by_cases h : Dated t
  · obtain ⟨y, m, d, hh, mi, s, p⟩ := exists_parts h
    have hsecond := p.time_range.2.2
    rw [p.ymdhms_eq]
    omega
  · left
    have hyear : year t = .error .badDate := by
      show (do return (← ymdOf (← date t)).1) = _
      rw [date_error h]
      rfl
    rw [ymdhms, hyear]
    rfl

/-- What the constructor does with a number of a second.

**Proof sketch.** The parts are cut out of the number by division and subtraction, and they are its
pairs of digits. -/
lemma ofNumber_second {n y m d hh mi s : ℕ} (hlow : 999999999999 < n) (h : n ≤ 99999999999999)
    (hy : n / 10000000000 = y) (hm : n / 100000000 % 100 = m) (hd : n / 1000000 % 100 = d)
    (hhh : n / 10000 % 100 = hh) (hmi : n / 100 % 100 = mi) (hs : n % 100 = s) :
    ofNumber n = do
      if ¬ hh < 24 then throw (.outOfRange "Hour value is out of rang 0..23")
      if ¬ mi < 60 then throw (.outOfRange "Minute value is out of range 0..59")
      let date ← newDate y m d
      return ptimeOf date (timeDuration hh mi s 0) := by
  have hmonth : (n - y * 10000000000) / 100000000 = m := by omega
  have hday : (n - n / 100000000 * 100000000) / 1000000 = d := by
    rw [← Nat.mod_eq_sub_div_mul]
    omega
  have hhour : (n - n / 1000000 * 1000000) / 10000 = hh := by
    rw [← Nat.mod_eq_sub_div_mul]
    omega
  have hminute : (n - n / 10000 * 10000) / 100 = mi := by
    rw [← Nat.mod_eq_sub_div_mul]
    omega
  have hsecond : n - n / 100 * 100 = s := Nat.mod_eq_sub_div_mul.symm.trans hs
  have hnull : nullNumber ≠ n := by
    unfold nullNumber
    omega
  rw [ofNumber, if_neg hnull, if_neg (by omega), if_neg (by omega), if_pos h]
  simp only [hy, hmonth, hday, hhour, hminute, hsecond]

/-- A value made of a second is right exactly if there are less than 60 of them.

**Proof sketch.** With less than sixty seconds the fields of the value are those of the number.
With more, the value has another minute, and its own number has less than sixty seconds. -/
lemma represented_of_second_iff {n y m d hh mi s : ℕ} (hlow : 999999999999 < n)
    (h : n ≤ 99999999999999)
    (hn : n = y * 10000000000 + m * 100000000 + d * 1000000 + hh * 10000 + mi * 100 + s)
    (hdate : IsDate y m d) (hhour : hh < 24) (hminute : mi < 60) (hs : s < 100)
    (hread : ofNumber n = .ok (Calendar.dayNumber y m d * ticksPerDay +
      (((hh * 60 + mi) * 60 + s) * 1000000 + 0) : ℤ)) : Represented n ↔ s < 60 := by
  constructor
  · rintro (⟨e, he⟩ | ⟨v, hv, ⟨hday, -⟩ | ⟨-, hminutes, -⟩ | ⟨-, -, hv'⟩⟩)
    · rw [hread] at he
      cases he
    · omega
    · omega
    · -- the seconds of a value are less than 60
      obtain rfl := Except.ok.inj (hread.symm.trans hv)
      have hnull : n ≠ nullNumber := by
        unfold nullNumber
        omega
      rcases ymdhms_mod_lt (Calendar.dayNumber y m d * ticksPerDay +
        (((hh * 60 + mi) * 60 + s) * 1000000 + 0)) with hmod | hmod
      · exact absurd (hv'.symm.trans hmod) hnull
      · rw [hv'] at hmod
        omega
  · intro hsecond
    have hparts := hdate.parts (r := 0) ⟨hhour, hminute, hsecond⟩ (by decide)
    exact .inr ⟨_, hread, .inr (.inr ⟨hlow, h, hparts.ymdhms_eq.trans hn.symm⟩)⟩

/-- **A number of a second** is right unless its fields are a date, an hour and a minute, but more
than 59 seconds.

**Proof sketch.** Take the number apart into its fields. If the hour, the minute or the date is not
one, then the constructor throws, as it should. There is no check of the second, and
`represented_of_second_iff` says what that means. -/
lemma represented_second_iff {n : ℕ} (hlow : 999999999999 < n) (h : n ≤ 99999999999999) :
    Represented n ↔ ¬ (IsDate (n / 10000000000 : ℕ) (n / 100000000 % 100 : ℕ)
      (n / 1000000 % 100 : ℕ) ∧ n / 10000 % 100 < 24 ∧ n / 100 % 100 < 60 ∧ 60 ≤ n % 100) := by
  obtain ⟨y, m, d, hh, mi, s, hy, hm, hd, hhh, hmi, hs⟩ : ∃ y m d hh mi s,
      n / 10000000000 = y ∧ n / 100000000 % 100 = m ∧ n / 1000000 % 100 = d ∧
      n / 10000 % 100 = hh ∧ n / 100 % 100 = mi ∧ n % 100 = s :=
    ⟨_, _, _, _, _, _, rfl, rfl, rfl, rfl, rfl, rfl⟩
  have hread := ofNumber_second hlow h hy hm hd hhh hmi hs
  rw [newDate_eq_ite (by omega) (by omega) (by omega)] at hread
  have hn : n = y * 10000000000 + m * 100000000 + d * 1000000 + hh * 10000 + mi * 100 + s := by
    omega
  rw [hy, hm, hd, hhh, hmi, hs]
  by_cases hhour : hh < 24
  · by_cases hminute : mi < 60
    · by_cases hdate : IsDate y m d
      · have htime : timeDuration hh mi s 0 = ((hh * 60 + mi) * 60 + s) * 1000000 + 0 := by
          simp [timeDuration]
        simp only [hhour, hminute, hdate, htime, not_true_eq_false, if_true, if_false] at hread
        rw [represented_of_second_iff hlow h hn hdate hhour hminute (by omega) hread]
        simp only [hhour, hminute, hdate, true_and, not_le]
      · simp only [hhour, hminute, hdate, not_true_eq_false, if_false] at hread
        exact iff_of_true (.inl ⟨_, hread⟩) fun hc => hdate hc.1
    · simp only [hhour, hminute, not_true_eq_false, not_false_eq_true, if_true, if_false] at hread
      exact iff_of_true (.inl ⟨_, hread⟩) fun hc => hminute hc.2.2.1
  · simp only [hhour, not_false_eq_true, if_true] at hread
    exact iff_of_true (.inl ⟨_, hread⟩) fun hc => hhour hc.2.1

/-- **Which numbers are right**: all but those of 14 digits whose fields are a date, an hour and a
minute, with more than 59 seconds.

**Proof sketch.** By cases on the number of digits. With up to 12 digits every field is checked or
cannot be wrong, with 14 the seconds are not checked, and more are refused. -/
theorem represented_iff {n : ℕ} (hnull : n ≠ nullNumber) :
    Represented n ↔ ¬ (999999999999 < n ∧ n ≤ 99999999999999 ∧
      IsDate (n / 10000000000 : ℕ) (n / 100000000 % 100 : ℕ) (n / 1000000 % 100 : ℕ) ∧
      n / 10000 % 100 < 24 ∧ n / 100 % 100 < 60 ∧ 60 ≤ n % 100) := by
  by_cases hday : n ≤ 99999999
  · exact iff_of_true (represented_day hday) fun h => by omega
  by_cases hminute : n ≤ 999999999999
  · exact iff_of_true (represented_minute (by omega) hminute) fun h => by omega
  by_cases hsecond : n ≤ 99999999999999
  · rw [represented_second_iff (by omega) hsecond]
    simp only [not_le.mp hminute, hsecond, true_and]
  · refine iff_of_true (.inl ⟨.outOfRange
      "Only support YYYYMMDDhhmmss or YYYYMMDDhhmm or YYYYMMDD", ?_⟩) fun h => hsecond h.2.1
    rw [ofNumber, if_neg (Ne.symm hnull), if_neg hday, if_neg hminute, if_neg hsecond]

/-- The last second of 2024-01-01. -/
theorem represented_last_second : Represented 20240101235959 :=
  (represented_iff (by decide)).mpr (by decide)

/-- Second 60 is the next minute. -/
theorem not_represented_sixty : ¬ ∀ n, n ≠ nullNumber → Represented n := by
  intro h
  have hcond := (represented_second_iff (by decide) (by decide)).mp (h 20240101000060 (by decide))
  exact hcond (by decide)

/-! ## Years, months and days -/

/-- What is made from a year, month and day is an exception if there is no such date, and else a
value of this date when the time fields are normal. -/
def OnlyDates (result : Except Fault Datetime) (y m d : ℤ) (normal : Prop) : Prop :=
  (¬ IsDate y m d → ∃ e, result = .error e) ∧
    (IsDate y m d → normal → ∃ t : ℤ, result = .ok t ∧ year t = .ok y ∧ month t = .ok m ∧
      day t = .ok d)

/-- The time fields are in their ranges. -/
def NormalTime (hh mm sec millisec microsec : ℤ) : Prop :=
  (0 ≤ hh ∧ hh < 24) ∧ (0 ≤ mm ∧ mm < 60) ∧ (0 ≤ sec ∧ sec < 60) ∧
    (0 ≤ millisec ∧ millisec ≤ 999) ∧ 0 ≤ microsec ∧ microsec ≤ 999

/-- The duration of normal time fields is a time of day. -/
lemma NormalTime.duration {hh mm sec millisec microsec : ℤ}
    (h : NormalTime hh mm sec millisec microsec) :
    0 ≤ timeDuration hh mm sec (millisec * 1000 + microsec) ∧
      timeDuration hh mm sec (millisec * 1000 + microsec) < ticksPerDay := by
  obtain ⟨hhour, hminute, hsecond, hmilli, hmicro⟩ := h
  have hsign : ¬ (hh < 0 ∨ mm < 0 ∨ sec < 0 ∨ millisec * 1000 + microsec < 0) := by omega
  rw [timeDuration, if_neg hsign, abs_of_nonneg hhour.1, abs_of_nonneg hminute.1,
    abs_of_nonneg hsecond.1, abs_of_nonneg (by omega)]
  unfold ticksPerDay
  omega

/-- A date fits in 16 bits. -/
lemma IsDate.ushort_eq {y m d : ℤ} (h : IsDate y m d) :
    ushort y = y ∧ ushort m = m ∧ ushort d = d := by
  obtain ⟨hy, hm, hd⟩ := h
  have hlength : Calendar.daysInMonth y m ≤ 31 := by
    unfold Calendar.daysInMonth
    split
    · split <;> omega
    · split <;> omega
  unfold ushort
  omega

/-- **Which years, months and days are right**: the dates, and those that are no date when cut to
16 bits either, unless the check of the fractions throws before.

**Proof sketch.** The checks of the two fractions come first, and the constructor throws there as
it should. Then the date is made of the numbers cut to 16 bits: this is right for a date, and for
what is no date either when it is cut. -/
lemma onlyDates_new_iff (y m d hh mm sec millisec microsec : ℤ) :
    OnlyDates (new y m d hh mm sec millisec microsec) y m d
        (NormalTime hh mm sec millisec microsec) ↔
      IsDate y m d ∨ ¬ IsDate (ushort y) (ushort m) (ushort d) ∨
        ¬ (0 ≤ millisec ∧ millisec ≤ 999) ∨ ¬ (0 ≤ microsec ∧ microsec ≤ 999) := by
  by_cases hmilli : millisec < 0 ∨ 999 < millisec
  · have hnew : new y m d hh mm sec millisec microsec = .error (.outOfRange "millisec") := by
      rw [new, if_pos hmilli]
      rfl
    refine iff_of_true ⟨fun _ => ⟨_, hnew⟩, fun _ hnormal => ?_⟩ (by omega)
    have := hnormal.2.2.2.1
    omega
  by_cases hmicro : microsec < 0 ∨ 999 < microsec
  · have hnew : new y m d hh mm sec millisec microsec = .error (.outOfRange "microsec") := by
      rw [new, if_neg hmilli, if_pos hmicro]
      rfl
    refine iff_of_true ⟨fun _ => ⟨_, hnew⟩, fun _ hnormal => ?_⟩ (by omega)
    have := hnormal.2.2.2.2
    omega
  have hnew : new y m d hh mm sec millisec microsec = do
      let date ← newDate y m d
      return ptimeOf date (timeDuration hh mm sec (millisec * 1000 + microsec)) := by
    rw [new, if_neg hmilli, if_neg hmicro]
  by_cases hcut : IsDate (ushort y) (ushort m) (ushort d)
  · have hdate : newDate y m d = .ok (Calendar.dayNumber (ushort y) (ushort m) (ushort d) : ℤ) :=
      if_pos hcut
    rw [hdate] at hnew
    have hrhs : (IsDate y m d ∨ ¬ IsDate (ushort y) (ushort m) (ushort d) ∨
        ¬ (0 ≤ millisec ∧ millisec ≤ 999) ∨ ¬ (0 ≤ microsec ∧ microsec ≤ 999)) ↔ IsDate y m d := by
      have h1 : 0 ≤ millisec ∧ millisec ≤ 999 := by omega
      have h2 : 0 ≤ microsec ∧ microsec ≤ 999 := by omega
      simp [hcut, h1, h2]
    rw [hrhs, hnew]
    constructor
    · rintro ⟨hrefuse, -⟩
      by_contra hno
      obtain ⟨e, he⟩ := hrefuse hno
      exact absurd he (by rintro ⟨⟩)
    · intro hyes
      refine ⟨fun hno => absurd hyes hno, fun _ hnormal => ?_⟩
      obtain ⟨hy, hm, hd⟩ := hyes.ushort_eq
      rw [hy, hm, hd]
      exact ⟨_, rfl, (hyes.fields_eq hnormal.duration).2⟩
  · have hdate : newDate y m d = .error .badDate := if_neg hcut
    rw [hdate] at hnew
    refine iff_of_true ⟨fun _ => ⟨_, hnew⟩, fun hyes => ?_⟩ (.inr (.inl hcut))
    obtain ⟨hy, hm, hd⟩ := hyes.ushort_eq
    rw [hy, hm, hd] at hcut
    exact absurd hyes hcut

/-- The year in the bytes. -/
def hexYear (time : ℕ) : ℕ := time / 2 ^ 48 % 256 * 100 + time / 2 ^ 40 % 256

/-- The byte with the number `k`. -/
def hexByte (time k : ℕ) : ℕ := time / 2 ^ (8 * k) % 256

/-- What is read from bytes. -/
lemma fromHex_eq {time : ℕ} (h : time ≠ nullNumber) :
    fromHex time = new (hexYear time) (hexByte time 4) (hexByte time 3) (hexByte time 2)
      (hexByte time 1) (hexByte time 0) := by
  have hsecond : 0xFF &&& time = hexByte time 0 := and_shiftRight 0 time
  have hminute : (0xFF00 &&& time) >>> 8 = hexByte time 1 := and_shiftRight 8 time
  have hhour : (0xFF0000 &&& time) >>> 16 = hexByte time 2 := and_shiftRight 16 time
  have hday : (0xFF000000 &&& time) >>> 24 = hexByte time 3 := and_shiftRight 24 time
  have hmonth : (0xFF00000000 &&& time) >>> 32 = hexByte time 4 := and_shiftRight 32 time
  have hlow : (0xFF0000000000 &&& time) >>> 40 = time / 2 ^ 40 % 256 := and_shiftRight 40 time
  have hhigh : (0xFF000000000000 &&& time) >>> 48 = time / 2 ^ 48 % 256 := and_shiftRight 48 time
  rw [fromHex, if_neg (Ne.symm h)]
  simp only [hsecond, hminute, hhour, hday, hmonth, hlow, hhigh]
  rfl

/-- **What the constructor and `fromHex` accept.** The constructor is right exactly for the dates
and for what is no date when cut to 16 bits either (or when a fraction of a second is out of
range); `fromHex` is right for all bytes but the null number, which is the null value.

**Proof sketch.** The constructor cuts its arguments to 16 bits before they are checked, so it is
right exactly if the cut makes no date of what is none. The bytes of `fromHex` fit into 16 bits. -/
theorem onlyDates_iff (y m d hh mm sec millisec microsec : ℤ) (time : ℕ) :
    (OnlyDates (new y m d hh mm sec millisec microsec) y m d
        (NormalTime hh mm sec millisec microsec) ↔
      IsDate y m d ∨ ¬ IsDate (ushort y) (ushort m) (ushort d) ∨
        ¬ (0 ≤ millisec ∧ millisec ≤ 999) ∨ ¬ (0 ≤ microsec ∧ microsec ≤ 999)) ∧
    (time ≠ nullNumber → OnlyDates (fromHex time) (hexYear time) (hexByte time 4)
      (hexByte time 3) (NormalTime (hexByte time 2) (hexByte time 1) (hexByte time 0) 0 0)) ∧
    fromHex nullNumber = .ok ⊤ := by
  refine ⟨onlyDates_new_iff y m d hh mm sec millisec microsec, fun h => ?_, if_pos rfl⟩
  have hyear : hexYear time < 65536 := by
    unfold hexYear
    omega
  have hbyte : ∀ k, hexByte time k < 65536 := fun k =>
    (Nat.mod_lt _ (by decide)).trans (by decide)
  rw [fromHex_eq h, onlyDates_new_iff, ushort_natCast hyear, ushort_natCast (hbyte 4),
    ushort_natCast (hbyte 3)]
  tauto

/-- A date, and the bytes of a time without one. -/
theorem onlyDates_zero :
    OnlyDates (new 2024 2 29 0 0 0 0 0) 2024 2 29 (NormalTime 0 0 0 0 0) ∧
    OnlyDates (fromHex 0) (hexYear 0) (hexByte 0 4) (hexByte 0 3)
      (NormalTime (hexByte 0 2) (hexByte 0 1) (hexByte 0 0) 0 0) := by
  obtain ⟨hnew, hhex, -⟩ := onlyDates_iff 2024 2 29 0 0 0 0 0 0
  exact ⟨hnew.mpr (by decide), hhex (by decide)⟩

/-- Year 67560 is taken for year 2024. -/
theorem not_onlyDates_alias :
    ¬ ∀ y m d hh mm sec millisec microsec : ℤ,
      OnlyDates (new y m d hh mm sec millisec microsec) y m d
        (NormalTime hh mm sec millisec microsec) := by
  intro h
  have halias := (onlyDates_new_iff 67560 1 1 0 0 0 0 0).mp (h 67560 1 1 0 0 0 0 0)
  exact absurd halias (by decide)

end HkuUtils.Datetime
