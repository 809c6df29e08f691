import HkuUtils.Datetime.Model

set_option relaxedAutoImplicit false
set_option autoImplicit false

/-!
# Numbers for dates

The numbers by which a `Datetime` is kept: the decimal ones of `ymd`, `number`, `ymdhm` and
`ymdhms`, which one constructor reads, the bytes of `hex`, and the timestamps.

## Main definitions

* `HkuUtils.Datetime.ymd`, `number`, `ymdhm`, `ymdhms`, `hex`, `timestamp` — the numbers.
* `HkuUtils.Datetime.ofNumber`, `fromHex`, `fromTimestamp` — how they are read.
* `HkuUtils.Datetime.truncate` — the value without what a number does not keep.

## Main results

* `HkuUtils.Datetime.encodings_round_trip` — which values come back.
* `HkuUtils.Datetime.beyond_last_date` — a value that has no date does not.

## Design

The functions that return numbers catch every exception, and return the null number then. The
numbers of fields are far from `2 ^ 64`; only a timestamp can be negative, and wraps around.
-/

namespace HkuUtils.Datetime

/-! ## Writing -/

/-- `Null<unsigned long long>`. -/
def nullNumber : ℕ := 2 ^ 64 - 1

/-- The cast to `uint64_t`. -/
def u64 (x : ℤ) : ℕ := (x % 2 ^ 64).toNat

/-- The cast to `int64_t`. -/
def i64 (n : ℕ) : ℤ := if n < 2 ^ 63 then n else n - 2 ^ 64

/-- A number for a value that is not null; an exception is caught. -/
def numberOf (d : Datetime) (result : Except Fault ℕ) : ℕ :=
  if d.isNull then nullNumber
  else
    match result with
    | .ok n => n
    | .error _ => nullNumber

/-- `number`. -/
def number (d : Datetime) : ℕ :=
  numberOf d do
    return u64 (← d.year) * 100000000 + u64 (← d.month) * 1000000 + u64 (← d.day) * 10000 +
      u64 (← d.hour) * 100 + u64 (← d.minute)

/-- `ymd`. -/
def ymd (d : Datetime) : ℕ :=
  numberOf d do return u64 (← d.year) * 10000 + u64 (← d.month) * 100 + u64 (← d.day)

/-- `ymdhm`. -/
def ymdhm (d : Datetime) : ℕ :=
  numberOf d do
    return u64 (← d.year) * 100000000 + u64 (← d.month) * 1000000 + u64 (← d.day) * 10000 +
      u64 (← d.hour) * 100 + u64 (← d.minute)

/-- `ymdhms`. -/
def ymdhms (d : Datetime) : ℕ :=
  numberOf d do
    return u64 (← d.year) * 10000000000 + u64 (← d.month) * 100000000 + u64 (← d.day) * 1000000 +
      u64 (← d.hour) * 10000 + u64 (← d.minute) * 100 + u64 (← d.second)

/-- `hex`: each component is in a byte of its own, the year in two. -/
def hex (d : Datetime) : ℕ :=
  numberOf d do
    let ret := u64 (← d.second)
    let ret := ret ||| u64 (← d.minute) <<< 8
    let ret := ret ||| u64 (← d.hour) <<< 16
    let ret := ret ||| u64 (← d.day) <<< 24
    let ret := ret ||| u64 (← d.month) <<< 32
    let y := u64 (← d.year)
    let high_y := y / 100
    let low_y := y - high_y * 100
    let ret := ret ||| low_y <<< 40
    return ret ||| high_y <<< 48

/-- `TimeDelta::fromTicks`: the check of the range. -/
def fromTicks (ticks : ℤ) : Except Fault ℤ :=
  if -99999999 * ticksPerDay ≤ ticks ∧ ticks ≤ 100000000 * ticksPerDay - 1 then .ok ticks
  else .error (.outOfRange "Out of total range!")

/-- `timestamp`. -/
def timestamp (d : Datetime) : ℕ :=
  numberOf d (d.field fun t => do
    let epoch ← new 1970 1 1
    epoch.field fun e => do return u64 (← fromTicks (t - e)))

/-! ## Reading -/

/-- The constructor from a number. The fields are cut out by division according to how many digits
there are; seconds are not checked. -/
def ofNumber (datetime : ℕ) : Except Fault Datetime :=
  if nullNumber = datetime then .ok ⊤
  else if datetime ≤ 99999999 then do
    let year := datetime / 10000
    let month := (datetime - year * 10000) / 100
    let day := datetime - datetime / 100 * 100
    let d ← newDate year month day
    return ptimeOf d (timeDuration 0 0 0 0)
  else if datetime ≤ 999999999999 then do
    let year := datetime / 100000000
    let month := (datetime - year * 100000000) / 1000000
    let day := (datetime - datetime / 1000000 * 1000000) / 10000
    let hh := (datetime - datetime / 10000 * 10000) / 100
    let mm := datetime - datetime / 100 * 100
    if ¬ hh < 24 then throw (.outOfRange "Hour value is out of rang 0..23")
    if ¬ mm < 60 then throw (.outOfRange "Minute value is out of range 0..59")
    let d ← newDate year month day
    return ptimeOf d (timeDuration hh mm 0 0)
  else if datetime ≤ 99999999999999 then do
    let year := datetime / 10000000000
    let month := (datetime - year * 10000000000) / 100000000
    let day := (datetime - datetime / 100000000 * 100000000) / 1000000
    let hh := (datetime - datetime / 1000000 * 1000000) / 10000
    let mm := (datetime - datetime / 10000 * 10000) / 100
    let ss := datetime - datetime / 100 * 100
    if ¬ hh < 24 then throw (.outOfRange "Hour value is out of rang 0..23")
    if ¬ mm < 60 then throw (.outOfRange "Minute value is out of range 0..59")
    let d ← newDate year month day
    return ptimeOf d (timeDuration hh mm ss 0)
  else
    .error (.outOfRange "Only support YYYYMMDDhhmmss or YYYYMMDDhhmm or YYYYMMDD")

/-- `fromHex`: the bytes of the number, as `hex` writes them. -/
def fromHex (time : ℕ) : Except Fault Datetime :=
  if nullNumber = time then .ok ⊤
  else
    let second := 0xFF &&& time
    let minute := (0xFF00 &&& time) >>> 8
    let hour := (0xFF0000 &&& time) >>> 16
    let day := (0xFF000000 &&& time) >>> 24
    let month := (0xFF00000000 &&& time) >>> 32
    let low_y := (0xFF0000000000 &&& time) >>> 40
    let high_y := (0xFF000000000000 &&& time) >>> 48
    let year := high_y * 100 + low_y
    new year month day hour minute second

/-- `fromTimestamp`. -/
def fromTimestamp (timestamp : ℤ) : Except Fault Datetime := do
  let delta ← fromTicks timestamp
  let epoch ← new 1970 1 1
  return epoch + (delta : ℤ)

/-- The value without what is less than the unit. -/
def truncate (t unit : ℤ) : Datetime := (t - t % unit : ℤ)

/-! ## The fields in a number -/

/-- The cast of a small number. -/
lemma u64_natCast {n : ℕ} (h : n < 2 ^ 64) : u64 n = n := by
  unfold u64
  omega

/-- The fields that are cut out of the number of a minute. -/
lemma cut_number {N y m d hh mi : ℕ} (hy : 1400 ≤ y ∧ y ≤ 9999) (hm : m ≤ 12) (hd : d ≤ 31)
    (hhour : hh < 24) (hminute : mi < 60)
    (hN : N = y * 100000000 + m * 1000000 + d * 10000 + hh * 100 + mi) :
    99999999 < N ∧ N ≤ 999999999999 ∧ N / 100000000 = y ∧ (N - y * 100000000) / 1000000 = m ∧
      (N - N / 1000000 * 1000000) / 10000 = d ∧ (N - N / 10000 * 10000) / 100 = hh ∧
      N - N / 100 * 100 = mi :=
  ⟨by omega, by omega, by omega, by omega, by omega, by omega, by omega⟩

/-- The fields that are cut out of the number of a second. -/
lemma cut_ymdhms {N y m d hh mi s : ℕ} (hy : 1400 ≤ y ∧ y ≤ 9999) (hm : m ≤ 12) (hd : d ≤ 31)
    (hhour : hh < 24) (hminute : mi < 60) (hsecond : s < 60)
    (hN : N = y * 10000000000 + m * 100000000 + d * 1000000 + hh * 10000 + mi * 100 + s) :
    999999999999 < N ∧ N ≤ 99999999999999 ∧ N / 10000000000 = y ∧
      (N - y * 10000000000) / 100000000 = m ∧
      (N - N / 100000000 * 100000000) / 1000000 = d ∧
      (N - N / 1000000 * 1000000) / 10000 = hh ∧ (N - N / 10000 * 10000) / 100 = mi ∧
      N - N / 100 * 100 = s :=
  ⟨by omega, by omega, by omega, by omega, by omega, by omega, by omega, by omega⟩

/-- A field is put above the bits that are there. -/
lemma or_shiftLeft {a k : ℕ} (h : a < 2 ^ k) (b : ℕ) : a ||| b <<< k = a + b * 2 ^ k := by
  rw [Nat.or_comm, ← Nat.shiftLeft_add_eq_or_of_lt h, Nat.shiftLeft_eq, Nat.add_comm]

/-- A byte is cut out of a number. -/
lemma and_shiftRight (k n : ℕ) : (255 <<< k &&& n) >>> k = n / 2 ^ k % 256 := by
  rw [Nat.shiftRight_and_distrib, Nat.shiftLeft_shiftRight, Nat.and_comm,
    Nat.shiftRight_eq_div_pow]
  exact Nat.and_two_pow_sub_one_eq_mod _ 8

/-- The fields that are cut out of the bytes. -/
lemma cut_hex {N y m d hh mi s : ℕ} (hy : y ≤ 9999) (hm : m ≤ 12) (hd : d ≤ 31)
    (hhour : hh < 24) (hminute : mi < 60) (hsecond : s < 60)
    (hN : N = s + mi * 2 ^ 8 + hh * 2 ^ 16 + d * 2 ^ 24 + m * 2 ^ 32 +
      (y - y / 100 * 100) * 2 ^ 40 + y / 100 * 2 ^ 48) :
    N < 2 ^ 56 ∧ N / 2 ^ 0 % 256 = s ∧ N / 2 ^ 8 % 256 = mi ∧ N / 2 ^ 16 % 256 = hh ∧
      N / 2 ^ 24 % 256 = d ∧ N / 2 ^ 32 % 256 = m ∧ N / 2 ^ 40 % 256 = y - y / 100 * 100 ∧
      N / 2 ^ 48 % 256 = y / 100 :=
  ⟨by omega, by omega, by omega, by omega, by omega, by omega, by omega, by omega⟩

namespace Parts

variable {t : ℤ} {y m d hh mi s : ℕ}

/-- The fields as unsigned numbers. -/
lemma u64_eq (p : Parts t y m d hh mi s) : u64 y = y ∧ u64 m = m ∧ u64 d = d ∧ u64 hh = hh ∧
    u64 mi = mi ∧ u64 s = s := by
  obtain ⟨-, -, -, -, -, -, hy, hm, hd, hday, htime, -, -⟩ := p
  exact ⟨u64_natCast (by omega), u64_natCast (by omega), u64_natCast (by omega),
    u64_natCast (by omega), u64_natCast (by omega), u64_natCast (by omega)⟩

/-- The value of `ymd`. -/
lemma ymd_eq (p : Parts t y m d hh mi s) : ymd t = y * 10000 + m * 100 + d := by
  obtain ⟨huy, hum, hud, -, -, -⟩ := p.u64_eq
  rw [ymd, p.year_eq, p.month_eq, p.day_eq]
  show u64 y * 10000 + u64 m * 100 + u64 d = _
  rw [huy, hum, hud]

/-- The value of `number`. -/
lemma number_eq (p : Parts t y m d hh mi s) :
    number t = y * 100000000 + m * 1000000 + d * 10000 + hh * 100 + mi := by
  obtain ⟨huy, hum, hud, huh, humi, -⟩ := p.u64_eq
  rw [number, p.year_eq, p.month_eq, p.day_eq, p.hour_eq, p.minute_eq]
  show u64 y * 100000000 + u64 m * 1000000 + u64 d * 10000 + u64 hh * 100 + u64 mi = _
  rw [huy, hum, hud, huh, humi]

/-- The value of `ymdhms`. -/
lemma ymdhms_eq (p : Parts t y m d hh mi s) : ymdhms t =
    y * 10000000000 + m * 100000000 + d * 1000000 + hh * 10000 + mi * 100 + s := by
  obtain ⟨huy, hum, hud, huh, humi, hus⟩ := p.u64_eq
  rw [ymdhms, p.year_eq, p.month_eq, p.day_eq, p.hour_eq, p.minute_eq, p.second_eq]
  show u64 y * 10000000000 + u64 m * 100000000 + u64 d * 1000000 + u64 hh * 10000 +
    u64 mi * 100 + u64 s = _
  rw [huy, hum, hud, huh, humi, hus]

/-- The date of the parts. -/
lemma newDate_eq (p : Parts t y m d hh mi s) :
    newDate y m d = .ok (t / ticksPerDay : ℤ) := by
  obtain ⟨-, -, -, -, -, -, hy, hm, hd, -, -, hdate, -⟩ := p
  rw [← hdate]
  exact Datetime.newDate_eq (by omega) (by omega) (by omega)

/-- The value of the parts, up to the second. -/
lemma ptimeOf_second (p : Parts t y m d hh mi s) :
    ptimeOf (t / ticksPerDay : ℤ) (timeDuration hh mi s 0) = truncate t 1000000 := by
  have htime := p.time_eq
  have hduration : timeDuration hh mi s 0 = ((hh * 60 + mi) * 60 + s) * 1000000 := by
    simp [timeDuration]
  have hticks : t / ticksPerDay * ticksPerDay + ((hh * 60 + mi) * 60 + s) * 1000000 =
      t - t % 1000000 := by
    rw [← htime]
    unfold ticksPerDay
    omega
  rw [hduration, truncate, ← hticks]
  rfl

/-- The value of the parts, up to the minute. -/
lemma ptimeOf_minute (p : Parts t y m d hh mi s) :
    ptimeOf (t / ticksPerDay : ℤ) (timeDuration hh mi 0 0) = truncate t 60000000 := by
  have htime := p.time_eq
  have hrange := p.time_range
  have hduration : timeDuration hh mi 0 0 = (hh * 60 + mi) * 60000000 := by
    simp only [timeDuration]
    simp
    omega
  have hticks : t / ticksPerDay * ticksPerDay + (hh * 60 + mi) * 60000000 =
      t - t % 60000000 := by
    unfold ticksPerDay at *
    omega
  rw [hduration, truncate, ← hticks]
  rfl

/-- The number of the day is read back. -/
lemma ofNumber_ymd (p : Parts t y m d hh mi s) :
    ofNumber (ymd t) = .ok (truncate t ticksPerDay) := by
  have hnew := p.newDate_eq
  have hday : ptimeOf (t / ticksPerDay : ℤ) (timeDuration 0 0 0 0) = truncate t ticksPerDay := by
    have hticks : t / ticksPerDay * ticksPerDay + 0 = t - t % ticksPerDay := by
      unfold ticksPerDay
      omega
    rw [truncate, ← hticks]
    rfl
  obtain ⟨N, hN⟩ : ∃ N, N = y * 10000 + m * 100 + d := ⟨_, rfl⟩
  obtain ⟨hy, hm, hd⟩ : (1400 ≤ y ∧ y ≤ 9999) ∧ (1 ≤ m ∧ m ≤ 12) ∧ (1 ≤ d ∧ d ≤ 31) :=
    ⟨p.year_range, p.month_range, p.day_range.1, p.day_le⟩
  have hyear : N / 10000 = y := by omega
  have hmonth : (N - y * 10000) / 100 = m := by omega
  have hday' : N - N / 100 * 100 = d := by omega
  rw [p.ymd_eq, ← hN, ofNumber, if_neg (by unfold nullNumber; omega), if_pos (by omega)]
  simp only [hyear, hmonth, hday', hnew]
  exact congrArg Except.ok hday

/-- The number of the minute is read back. -/
lemma ofNumber_number (p : Parts t y m d hh mi s) :
    ofNumber (number t) = .ok (truncate t 60000000) := by
  have hnew := p.newDate_eq
  obtain ⟨hhour, hminute, -⟩ := p.time_range
  obtain ⟨N, hN⟩ : ∃ N, N = y * 100000000 + m * 1000000 + d * 10000 + hh * 100 + mi := ⟨_, rfl⟩
  obtain ⟨hlow, hhigh, hyear, hmonth, hday, hhh, hmm⟩ :=
    cut_number p.year_range p.month_range.2 p.day_le hhour hminute hN
  rw [p.number_eq, ← hN, ofNumber, if_neg (by unfold nullNumber; omega), if_neg (by omega),
    if_pos (by omega)]
  simp only [hyear, hmonth, hday, hhh, hmm, hnew, hhour, hminute]
  exact congrArg Except.ok p.ptimeOf_minute

/-- The number of the second is read back. -/
lemma ofNumber_ymdhms (p : Parts t y m d hh mi s) :
    ofNumber (ymdhms t) = .ok (truncate t 1000000) := by
  have hnew := p.newDate_eq
  obtain ⟨hhour, hminute, hsecond⟩ := p.time_range
  obtain ⟨N, hN⟩ : ∃ N, N = y * 10000000000 + m * 100000000 + d * 1000000 + hh * 10000 +
    mi * 100 + s := ⟨_, rfl⟩
  obtain ⟨hlow, hhigh, hyear, hmonth, hday, hhh, hmm, hss⟩ :=
    cut_ymdhms p.year_range p.month_range.2 p.day_le hhour hminute hsecond hN
  rw [p.ymdhms_eq, ← hN, ofNumber, if_neg (by unfold nullNumber; omega), if_neg (by omega),
    if_neg (by omega), if_pos (by omega)]
  simp only [hyear, hmonth, hday, hhh, hmm, hss, hnew, hhour, hminute]
  exact congrArg Except.ok p.ptimeOf_second

/-- The value of `hex`: a byte for each field, two for the year. -/
lemma hex_eq (p : Parts t y m d hh mi s) : hex t = s + mi * 2 ^ 8 + hh * 2 ^ 16 + d * 2 ^ 24 +
    m * 2 ^ 32 + (y - y / 100 * 100) * 2 ^ 40 + y / 100 * 2 ^ 48 := by
  obtain ⟨huy, hum, hud, huh, humi, hus⟩ := p.u64_eq
  obtain ⟨hhour, hminute, hsecond⟩ := p.time_range
  have hm := p.month_range.2
  have hd := p.day_le
  rw [hex, p.year_eq, p.month_eq, p.day_eq, p.hour_eq, p.minute_eq, p.second_eq]
  show u64 s ||| u64 mi <<< 8 ||| u64 hh <<< 16 ||| u64 d <<< 24 ||| u64 m <<< 32 |||
    (u64 y - u64 y / 100 * 100) <<< 40 ||| (u64 y / 100) <<< 48 = _
  rw [huy, hum, hud, huh, humi, hus]
  rw [or_shiftLeft (k := 8) (by omega), or_shiftLeft (k := 16) (by omega),
    or_shiftLeft (k := 24) (by omega), or_shiftLeft (k := 32) (by omega),
    or_shiftLeft (k := 40) (by omega), or_shiftLeft (k := 48) (by omega)]

/-- The bytes are read back.

**Proof sketch.** Every byte of the number is masked and shifted to its component, and the
constructor is called with the components that were packed. -/
lemma fromHex_hex (p : Parts t y m d hh mi s) :
    fromHex (hex t) = .ok (truncate t 1000000) := by
  have hnew := p.newDate_eq
  obtain ⟨hhour, hminute, hsecond⟩ := p.time_range
  obtain ⟨N, hN⟩ : ∃ N, N = s + mi * 2 ^ 8 + hh * 2 ^ 16 + d * 2 ^ 24 + m * 2 ^ 32 +
    (y - y / 100 * 100) * 2 ^ 40 + y / 100 * 2 ^ 48 := ⟨_, rfl⟩
  obtain ⟨hbound, hss, hmi, hhh, hday, hmonth, hlow, hhigh⟩ :=
    cut_hex p.year_range.2 p.month_range.2 p.day_le hhour hminute hsecond hN
  have hyear : y / 100 * 100 + (y - y / 100 * 100) = y := by omega
  have hnew' : new y m d hh mi s =
      .ok (ptimeOf (t / ticksPerDay : ℤ) (timeDuration hh mi s 0)) := by
    rw [new, hnew]
    rfl
  have hss' : 0xFF &&& N = s := (and_shiftRight 0 N).trans hss
  have hmi' : (0xFF00 &&& N) >>> 8 = mi := (and_shiftRight 8 N).trans hmi
  have hhh' : (0xFF0000 &&& N) >>> 16 = hh := (and_shiftRight 16 N).trans hhh
  have hday' : (0xFF000000 &&& N) >>> 24 = d := (and_shiftRight 24 N).trans hday
  have hmonth' : (0xFF00000000 &&& N) >>> 32 = m := (and_shiftRight 32 N).trans hmonth
  have hlow' : (0xFF0000000000 &&& N) >>> 40 = y - y / 100 * 100 := (and_shiftRight 40 N).trans hlow
  have hhigh' : (0xFF000000000000 &&& N) >>> 48 = y / 100 := (and_shiftRight 48 N).trans hhigh
  rw [p.hex_eq, ← hN, fromHex, if_neg (by unfold nullNumber; omega)]
  simp only [hss', hmi', hhh', hday', hmonth', hlow', hhigh', hyear]
  exact hnew'.trans (congrArg Except.ok p.ptimeOf_second)

end Parts

/-! ## Timestamps -/

/-- 1970-01-01. -/
def epochTicks : ℤ := Calendar.dayNumber 1970 1 1 * ticksPerDay

/-- A distance that a `TimeDelta` can hold. -/
def IsDelta (ticks : ℤ) : Prop :=
  -99999999 * ticksPerDay ≤ ticks ∧ ticks ≤ 100000000 * ticksPerDay - 1

/-- The date from which timestamps count. -/
lemma new_epoch : new 1970 1 1 = .ok (epochTicks : ℤ) :=
  new_eq (by decide) (by decide) (by decide)

/-- A value that has a date is not far from 1970. -/
lemma Dated.isDelta {t : ℤ} (h : Dated t) : IsDelta (t - epochTicks) := by
  have hbounds : 0 < minDay ∧ maxDay < 4000000 ∧ epochTicks = 719469 * 86400000000 := by decide
  unfold Dated at h
  unfold IsDelta
  unfold ticksPerDay at *
  omega

/-- A timestamp before 1970 wraps around, and back. -/
lemma i64_u64 {x : ℤ} (h : IsDelta x) : i64 (u64 x) = x := by
  unfold IsDelta ticksPerDay at h
  unfold i64 u64
  split <;> omega

/-- A timestamp is read back. -/
lemma fromTimestamp_timestamp {t : ℤ} (h : IsDelta (t - epochTicks)) :
    fromTimestamp (i64 (timestamp t)) = .ok t := by
  have hticks : fromTicks (t - epochTicks) = .ok (t - epochTicks) := if_pos h
  have hstamp : timestamp t = u64 (t - epochTicks) := by
    show numberOf t (do
      let epoch ← new 1970 1 1
      epoch.field fun e => do return u64 (← fromTicks (t - e))) = _
    rw [new_epoch]
    show numberOf t (do return u64 (← fromTicks (t - epochTicks))) = _
    rw [hticks]
    rfl
  rw [hstamp, i64_u64 h, fromTimestamp, hticks, new_epoch]
  show Except.ok _ = _
  rw [← WithTop.coe_add, add_sub_cancel]

/-! ## What comes back -/

/-- **The numbers are read back**: every value that has a date up to what its number keeps, every
value near enough to 1970 from its timestamp, and the null value.

**Proof sketch.** A value that has a date has its parts, and each encoding packs some of them and
is taken apart into the same. The null value has the null number in all of them. -/
theorem encodings_round_trip :
    (∀ t, Dated t → ofNumber (ymdhms t) = .ok (truncate t 1000000) ∧
      ofNumber (number t) = .ok (truncate t 60000000) ∧
      ofNumber (ymdhm t) = .ok (truncate t 60000000) ∧
      ofNumber (ymd t) = .ok (truncate t ticksPerDay) ∧
      fromHex (hex t) = .ok (truncate t 1000000) ∧
      fromTimestamp (i64 (timestamp t)) = .ok t) ∧
    (∀ t, IsDelta (t - epochTicks) → fromTimestamp (i64 (timestamp t)) = .ok t) ∧
    (∀ f ∈ [ymd, ymdhm, ymdhms, number], f ⊤ = nullNumber ∧ ofNumber (f ⊤) = .ok ⊤) ∧
    hex ⊤ = nullNumber ∧ fromHex (hex ⊤) = .ok ⊤ := by
  refine ⟨fun t h => ?_, fun t h => fromTimestamp_timestamp h, ?_, rfl, if_pos rfl⟩
  · obtain ⟨y, m, d, hh, mi, s, p⟩ := exists_parts h
    exact ⟨p.ofNumber_ymdhms, p.ofNumber_number, p.ofNumber_number, p.ofNumber_ymd,
      p.fromHex_hex, fromTimestamp_timestamp h.isDelta⟩
  · intro f hf
    have hnull : f ⊤ = nullNumber := by
      simp only [List.mem_cons, List.not_mem_nil, or_false] at hf
      rcases hf with rfl | rfl | rfl | rfl <;> rfl
    exact ⟨hnull, by rw [hnull]; exact if_pos rfl⟩

/-- The last second of 1969. -/
theorem encodings_round_trip_1969 :
    ofNumber (ymdhms (epochTicks - 500000 : ℤ)) = .ok (epochTicks - 1000000 : ℤ) ∧
      fromTimestamp (i64 (timestamp (epochTicks - 500000 : ℤ))) =
        .ok (epochTicks - 500000 : ℤ) := by
  have h := encodings_round_trip.1 (epochTicks - 500000) (by decide)
  have htruncate : truncate (epochTicks - 500000) 1000000 = (epochTicks - 1000000 : ℤ) := by
    decide +kernel
  exact ⟨htruncate ▸ h.1, h.2.2.2.2.2⟩

/-- The day after the last date: its number is the null number, and that comes back as null. -/
theorem beyond_last_date : Datetime.max + (ticksPerDay : ℤ) ≠ ⊤ ∧
    ymd (Datetime.max + (ticksPerDay : ℤ)) = nullNumber ∧
    ofNumber (ymd (Datetime.max + (ticksPerDay : ℤ))) = .ok ⊤ ∧
    ofNumber (ymd ((maxDay + 1) * ticksPerDay : ℤ)) ≠
      .ok (truncate ((maxDay + 1) * ticksPerDay) ticksPerDay) := by
  have hvalue : Datetime.max + (ticksPerDay : ℤ) = ((maxDay + 1) * ticksPerDay : ℤ) := by
    decide +kernel
  have hnumber : ymd ((maxDay + 1) * ticksPerDay : ℤ) = nullNumber := by decide +kernel
  have hread : ofNumber (ymd ((maxDay + 1) * ticksPerDay : ℤ)) = .ok ⊤ := by
    rw [hnumber]
    exact if_pos rfl
  rw [hvalue]
  refine ⟨WithTop.coe_ne_top, hnumber, hread, ?_⟩
  rw [hread]
  exact fun h => WithTop.coe_ne_top (Except.ok.inj h).symm

end HkuUtils.Datetime
