import HkuUtils.Datetime.Model

set_option relaxedAutoImplicit false
set_option autoImplicit false

/-!
# The dates of MySQL

A column of the type `DATETIME` or `DATE` is fetched into a `MYSQL_TIME`, and
`sub_getColumnAsDatetime` makes a `Datetime` of it. MySQL has dates that a `Datetime` cannot have:
the zero dates, and the years before 1400. This file says for which values the conversion is right.

## Main definitions

* `HkuUtils.MysqlTime` — the structure, with the fields that are read.
* `HkuUtils.MysqlTime.toDatetime` — the conversion, with its exceptions.
* `HkuUtils.MysqlTime.point` — the point in time that the fields stand for.
* `HkuUtils.MysqlTime.Fits` — a value that a `Datetime` can have.

## Main results

* `HkuUtils.MysqlTime.toDatetime_eq_point_iff` — the conversion is right exactly for these values.

## Design

The fields are `unsigned` numbers, so that they are natural numbers here; the constructor of a date
cuts them to 16 bits. `millisec` and `microsec` are computed as in the source.
-/

namespace HkuUtils

/-- `enum_mysql_timestamp_type`; the other types are those of a time of day and of errors. -/
inductive TimestampType where
  | date
  | datetime
  | other (code : ℤ)
  deriving DecidableEq, Repr

/-- `MYSQL_TIME`, as the client library fills it for a column with a date or a time. -/
structure MysqlTime where
  /-- `year`. -/
  year : ℕ
  /-- `month`. -/
  month : ℕ
  /-- `day`. -/
  day : ℕ
  /-- `hour`. -/
  hour : ℕ
  /-- `minute`. -/
  minute : ℕ
  /-- `second`. -/
  second : ℕ
  /-- `second_part`, the microseconds. -/
  secondPart : ℕ
  /-- `time_type`. -/
  timeType : TimestampType
  deriving DecidableEq, Repr

namespace MysqlTime

/-! ## The conversion -/

/-- What the `catch` clauses make of an exception of the constructor: an `hku::exception` is thrown
on, and the exceptions of Boost become one. -/
def message : Datetime.Fault → String
  | .outOfRange what => "Out of range! " ++ what
  | .nullDatetime => "This is Null Datetime!"
  | .badDate => "Field type mismatch!"

/-- The part of `sub_getColumnAsDatetime` that makes the value, or the text of the exception. -/
def toDatetime (tm : MysqlTime) : Except String Datetime :=
  match tm.timeType with
  | .datetime =>
    let millisec := tm.secondPart / 1000
    let microsec := tm.secondPart - millisec * 1000
    (Datetime.new tm.year tm.month tm.day tm.hour tm.minute tm.second millisec microsec).mapError
      message
  | .date => (Datetime.new tm.year tm.month tm.day).mapError message
  | .other _ => .error "Unsupported type, Field type mismatch!"

/-! ## The values -/

/-- The microseconds of the time of day. A `DATE` has none, whatever the other fields hold. -/
def timeOfDay (tm : MysqlTime) : ℤ :=
  match tm.timeType with
  | .datetime => ((tm.hour * 60 + tm.minute) * 60 + tm.second) * 1000000 + tm.secondPart
  | _ => 0

/-- **The point in time** that the fields stand for. -/
def point (tm : MysqlTime) : ℤ :=
  Calendar.dayNumber tm.year tm.month tm.day * Datetime.ticksPerDay + tm.timeOfDay

/-- **A value that a `Datetime` can have**: a date from 1400-01-01 to 9999-12-31, and a fraction of
a second if the value has a time of day. -/
def Fits (tm : MysqlTime) : Prop :=
  Datetime.IsDate tm.year tm.month tm.day ∧
    (tm.timeType = .datetime ∧ tm.secondPart < 1000000 ∨ tm.timeType = .date)

instance (tm : MysqlTime) : Decidable tm.Fits := inferInstanceAs (Decidable (_ ∧ _))

/-! ## Which values are right -/

section

open Datetime

/-- A cut number is not greater. -/
lemma ushort_le (n : ℕ) : ushort n ≤ n := by
  unfold ushort
  omega

/-- Without signs a duration is the sum of its parts. -/
lemma timeDuration_natCast (hh mm sec fraction : ℕ) :
    timeDuration hh mm sec fraction = ((hh * 60 + mm) * 60 + sec) * 1000000 + fraction := by
  have hsign : ¬ ((hh : ℤ) < 0 ∨ (mm : ℤ) < 0 ∨ (sec : ℤ) < 0 ∨ (fraction : ℤ) < 0) := by omega
  rw [timeDuration, if_neg hsign]
  simp only [Nat.abs_cast]

/-- **The constructor makes the date that it is given** exactly if there is such a date.

**Proof sketch.** It makes the date of the numbers cut to 16 bits. If one of them has been cut, it
has become less, and so has the day. -/
lemma newDate_eq_iff (y m d : ℕ) :
    newDate y m d = .ok (Calendar.dayNumber y m d : ℤ) ↔ IsDate y m d := by
  constructor
  · intro h
    by_cases hcut : IsDate (ushort y) (ushort m) (ushort d)
    · rw [show newDate y m d = .ok (Calendar.dayNumber (ushort y) (ushort m) (ushort d) : ℤ) from
        if_pos hcut] at h
      have hsame : Calendar.dayNumber (ushort y) (ushort m) (ushort d) = Calendar.dayNumber y m d :=
        WithTop.coe_injective (Except.ok.inj h)
      have hy := ushort_le y
      have hm := ushort_le m
      have hd := ushort_le d
      by_contra hno
      have hless : ushort y < y ∨ ushort m < m ∨ ushort d < d := by
        by_contra hall
        have hall' : ushort y = y ∧ ushort m = m ∧ ushort d = d := by omega
        rw [hall'.1, hall'.2.1, hall'.2.2] at hcut
        exact hno hcut
      have := Calendar.dayNumber_lt_of_le hy hm hd hless
      omega
    · rw [show newDate y m d = .error .badDate from if_neg hcut] at h
      cases h
  · rintro ⟨hy, hm, hd⟩
    exact newDate_eq hy hm hd

/-- The constructor with a time of day, whose parts are without signs.

**Proof sketch.** The two checks of the fractions come first and throw; then the date is made,
which throws unless it is one, and the time is added to it. -/
lemma new_eq_point_iff (y m d hh mm sec millisec microsec : ℕ) :
    new y m d hh mm sec millisec microsec = .ok
        (Calendar.dayNumber y m d * ticksPerDay +
          (((hh * 60 + mm) * 60 + sec) * 1000000 + (millisec * 1000 + microsec)) : ℤ) ↔
      IsDate y m d ∧ millisec ≤ 999 ∧ microsec ≤ 999 := by
  by_cases hmilli : (millisec : ℤ) < 0 ∨ 999 < (millisec : ℤ)
  · rw [new, if_pos hmilli]
    exact iff_of_false (by rintro ⟨⟩) (by omega)
  by_cases hmicro : (microsec : ℤ) < 0 ∨ 999 < (microsec : ℤ)
  · rw [new, if_neg hmilli, if_pos hmicro]
    exact iff_of_false (by rintro ⟨⟩) (by omega)
  have htime : timeDuration hh mm sec (millisec * 1000 + microsec) =
      ((hh * 60 + mm) * 60 + sec) * 1000000 + (millisec * 1000 + microsec) := by
    have := timeDuration_natCast hh mm sec (millisec * 1000 + microsec)
    push_cast at this
    exact this
  have hnew : new y m d hh mm sec millisec microsec = newDate y m d >>= fun date =>
      .ok (ptimeOf date (((hh * 60 + mm) * 60 + sec) * 1000000 +
        (millisec * 1000 + microsec))) := by
    rw [new, if_neg hmilli, if_neg hmicro, htime]
    rfl
  have hrange : millisec ≤ 999 ∧ microsec ≤ 999 := by omega
  rw [hnew, and_iff_left hrange, ← newDate_eq_iff]
  rcases newDate y m d with e | (_ | n)
  · exact iff_of_false (by rintro ⟨⟩) (by rintro ⟨⟩)
  · exact iff_of_false (by rintro ⟨⟩) (by rintro ⟨⟩)
  · constructor
    · intro h
      have hpoint : n * ticksPerDay + _ = Calendar.dayNumber y m d * ticksPerDay + _ :=
        WithTop.coe_injective (Except.ok.inj h)
      have hday : n = Calendar.dayNumber y m d := by
        unfold ticksPerDay at hpoint
        omega
      rw [hday]
      rfl
    · intro h
      obtain rfl := WithTop.coe_injective (Except.ok.inj h)
      rfl

/-- The exceptions keep being exceptions. -/
lemma mapError_eq_ok_iff {r : Except Fault Datetime} {t : Datetime} :
    r.mapError message = .ok t ↔ r = .ok t := by
  cases r with
  | ok u => simp [Except.mapError]
  | error e => simp [Except.mapError]

end

/-- **The conversion is right** exactly for the values that a `Datetime` can have; for all others it
throws, or makes another value.

**Proof sketch.** The fraction of a second is taken apart into milliseconds and microseconds, which
make it again; the checks of the constructor let them pass if there are less than a million. The
rest is what the constructor does with a date and a time of day. -/
theorem toDatetime_eq_point_iff (tm : MysqlTime) :
    tm.toDatetime = .ok (tm.point : ℤ) ↔ tm.Fits := by
  rw [toDatetime, point, timeOfDay, Fits]
  cases tm.timeType with
  | datetime =>
    have hparts : (tm.secondPart : ℤ) = (tm.secondPart / 1000 : ℕ) * 1000 +
        (tm.secondPart - tm.secondPart / 1000 * 1000 : ℕ) := by omega
    simp only [mapError_eq_ok_iff, reduceCtorEq, or_false, true_and]
    rw [hparts, new_eq_point_iff]
    refine and_congr_right fun _ => ?_
    omega
  | date =>
    have hmidnight := new_eq_point_iff tm.year tm.month tm.day 0 0 0 0 0
    simp only [mapError_eq_ok_iff, reduceCtorEq, false_and, false_or, and_true]
    simpa using hmidnight
  | other code =>
    exact iff_of_false (by rintro ⟨⟩) (by rintro ⟨-, ⟨h, -⟩ | h⟩ <;> cases h)

end MysqlTime

end HkuUtils
