import HkuUtils.Datetime.TimeDelta
import HkuUtils.Json.Members
import HkuUtils.Parameter.Archive

set_option relaxedAutoImplicit false
set_option autoImplicit false

/-!
# Parameters as JSON

The function `toJson`, which writes the entries of a map in the order of its iterator. Names and
strings are written as they are, and a comma follows each entry but the one at the end of the map,
even where that one is left out.

## Main definitions

* `HkuUtils.Parameter.Stored` — the values, with strings of bytes.
* `HkuUtils.Parameter.toJson` — the function.
* `HkuUtils.Parameter.Correct` — the text is an object with the supported entries.
* `HkuUtils.Parameter.Writable` — the entries that are written correctly.

## Main results

* `HkuUtils.Parameter.toJson_eq_ok_iff` — what is written.
* `HkuUtils.Parameter.toJson_correct_iff` — when the text is correct.

## Design

Entries are a list, in any order that an unordered map may have. Numbers are written with six
digits, as a stream does by default. A text is read as JSON by a parser of its own, which asks that
the text is UTF-8; names and strings are bytes, which need not be.
-/

namespace HkuUtils.Parameter

open Binary Fallible
open Search (text)
open Json (Clean IsUtf8 Reads Stuck Closes membersText memberText ReadsMember weight special)

/-! ## Values -/

/-- The content of a `boost::any`. Only the types that `toJson` tells apart matter. -/
inductive Stored where
  | int (x : Int32)
  | int64 (x : Int64)
  | bool (b : Bool)
  | float (x : Floating binary32)
  | double (x : Floating binary64)
  | string (s : List UInt8)
  | datetime (d : Datetime)
  | timeDelta (t : TimeDelta)
  | other

/-- A name and its value. -/
abbrev Item : Type := List UInt8 × Stored

/-- The content of a `boost::any`, with the bytes of its string; the ticks of a date are those since
1970. -/
def Any.stored : Any → Stored
  | .int x => .int x
  | .int64 x => .int64 x
  | .bool b => .bool b
  | .float x => .float x
  | .double x => .double x
  | .string s => .string (text s)
  | .datetime ticks =>
    .datetime (Calendar.dayNumber 1970 1 1 * Datetime.ticksPerDay + ticks : ℤ)
  | .timeDelta ticks => .timeDelta ticks
  | .empty => .other
  | .other _ _ => .other

variable (B : Build)

/-- `support`. Dates are supported in some builds only. -/
def Stored.supported : Stored → Bool
  | .int _ => true
  | .int64 _ => true
  | .bool _ => true
  | .float _ => true
  | .double _ => true
  | .string _ => true
  | .datetime _ => B.datetime
  | .timeDelta _ => B.datetime
  | .other => false

/-- An entry of `m_params`, in bytes. -/
def item (e : Entry) : Item := (text e.1, e.2.stored)

/-- The types that are supported are those of `support`. -/
lemma supported_stored (v : Any) : v.stored.supported B = support B v := by
  cases v <;> rfl

/-! ## The function -/

/-- A `double` in a stream. -/
def doubleText : Floating binary64 → List UInt8
  | .finite q _ => Decimal.general q
  | .negZero => text "-0"
  | .infinity negative => if negative then text "-inf" else text "inf"
  | .nan => text "nan"

/-- What is written for a value, if its entry is written. An `int` and a `float` are supported and
have no text. -/
def valueText : Stored → Except Datetime.Fault (Option (List UInt8))
  | .int64 x => .ok (some (Datetime.formatInt x.toInt))
  | .bool b => .ok (some (text (if b then "true" else "false")))
  | .double x => .ok (some (doubleText x))
  | .string s => .ok (some (34 :: (s ++ [34])))
  | .datetime d => if B.datetime then (Datetime.str d).map some else .ok none
  | .timeDelta t => if B.datetime then .ok (some (TimeDelta.str t)) else .ok none
  | .int _ => .ok none
  | .float _ => .ok none
  | .other => .ok none

/-- The loop, with the counter `cnt`. -/
def toJsonLoop (total : ℕ) : ℕ → List UInt8 → List Item → Except Datetime.Fault (List UInt8)
  | _, buf, [] => .ok buf
  | cnt, buf, e :: es => do
    match ← valueText B e.2 with
    | none => toJsonLoop total (cnt + 1) buf es
    | some v =>
      let buf := buf ++ (34 :: (e.1 ++ text "\": ") ++ v)
      let buf := if cnt + 1 < total then buf ++ text ", " else buf
      toJsonLoop total (cnt + 1) buf es

/-- `toJson`. -/
def toJson (es : List Item) : Except Datetime.Fault (List UInt8) := do
  let buf ← toJsonLoop B es.length 0 (text "\x7b") es
  return buf ++ text "\x7d"

example : toJson B [(text "n", .int64 1), (text "x", .other)] =
    .ok (text "\x7b\"n\": 1, \x7d") := by rfl

/-! ## What is said of it -/

/-- A value that was read is the stored one, if it is an integer, a truth value or a string. -/
def Agrees : Stored → Json.Value → Prop
  | .int64 x, v => ∃ m e : ℤ, v = .number m e ∧ (m : ℚ) * 10 ^ e = x.toInt
  | .bool b, v => v = .bool b
  | .string s, v => v = .string s
  | _, _ => True

/-- A member of the object is that of an entry. -/
def IsMember (e : Item) (m : Json.Member) : Prop := m.1 = e.1 ∧ Agrees e.2 m.2

/-- The supported entries. -/
def supportedItems (es : List Item) : List Item := es.filter (·.2.supported B)

/-- **The text is an object with exactly the supported entries**, in some order. -/
def Correct (es : List Item) : Prop :=
  ∃ T ms, toJson B es = .ok T ∧ Json.parse T = some (.object ms) ∧
    ∃ ms', ms'.Perm ms ∧ List.Forall₂ IsMember (supportedItems B es) ms'

/-- A value that JSON can express as it is written. -/
def Stored.plain : Stored → Bool
  | .int64 _ => true
  | .bool _ => true
  | .string _ => true
  | .double (.finite _ _) => true
  | .double .negZero => true
  | _ => false

/-- Nothing of an entry has to be escaped. -/
def CleanItem (e : Item) : Prop := Clean e.1 ∧ ∀ s, e.2 = .string s → Clean s

/-- The name of an entry is UTF-8, and so is its value if this is a string. -/
def Utf8Item (e : Item) : Prop := IsUtf8 e.1 ∧ ∀ s, e.2 = .string s → IsUtf8 s

/-- The supported entries have neither quotes, backslashes nor control characters, are UTF-8, and
are no dates, durations, infinities, NaN or unwidened numbers; the last entry of the map is
supported, or none is. -/
structure Writable (es : List Item) : Prop where
  clean : ∀ e ∈ supportedItems B es, CleanItem e
  utf8 : ∀ e ∈ supportedItems B es, Utf8Item e
  plain : ∀ e ∈ supportedItems B es, e.2.plain = true
  last : ∀ e, es.getLast? = some e → e.2.supported B = true ∨ supportedItems B es = []

variable {B}

/-! ## The texts of values -/

/-- A digit in front of digits is one of a number. -/
lemma isNumeric_zeroPadded (w n : ℕ) :
    ∀ c ∈ Padding.zeroPadded w n, Decimal.isNumeric c = true :=
  fun c hc => Decimal.isNumeric_of_isDigit (Decimal.isDigit_zeroPadded w n c hc)

/-- Millionths are written with characters of numbers. -/
lemma isNumeric_formatMillionths (x : ℤ) :
    ∀ c ∈ Datetime.formatMillionths x, Decimal.isNumeric c = true := by
  intro c hc
  rcases List.mem_append.mp hc with hc | hc
  · exact Decimal.isNumeric_of_isDigit (Http.isDigit_of_mem_decimal hc)
  rcases List.mem_cons.mp hc with rfl | hc
  · rfl
  · exact isNumeric_zeroPadded _ _ c hc

/-- Two digits are characters of numbers. -/
lemma isNumeric_twoDigits (x : ℤ) : ∀ c ∈ Datetime.twoDigits x, Decimal.isNumeric c = true := by
  intro c hc
  rcases List.mem_append.mp hc with hc | hc
  · rw [List.eq_of_mem_replicate hc]
    rfl
  · exact Json.isNumeric_decimalInt x c hc

/-- Seconds are written with characters of numbers. -/
lemma isNumeric_secondsText (s u : ℕ) :
    ∀ c ∈ Datetime.secondsText s u, Decimal.isNumeric c = true := by
  intro c hc
  rw [Datetime.secondsText] at hc
  split at hc
  · exact isNumeric_zeroPadded _ _ c hc
  · rcases List.mem_append.mp hc with hc | hc
    · exact isNumeric_formatMillionths _ c hc
    · rw [List.eq_of_mem_replicate hc]
      rfl

/-- The text of a date begins with a year, and a dash comes next.

**Proof sketch.** A date that has no fields has no text, since its year already throws. All others
have a text that begins with four digits of the year, and no character in it is heavy. -/
lemma str_eq_year {d : Datetime} {t : List UInt8} (h : Datetime.str d = .ok t) :
    t = text "+infinity" ∨ ∃ (y : ℕ) (u : List UInt8), t = Json.decimalInt y ++ 45 :: u ∧
      weight u = 0 := by
  cases d with
  | none => exact Or.inl (Except.ok.inj h).symm
  | some n =>
    have hdated : Datetime.Dated n := by
      by_contra hdated
      have hyear : Datetime.year n = .error .badDate := by
        show (do return (← Datetime.ymdOf (← Datetime.date n)).1) = _
        rw [Datetime.date_error hdated]
        rfl
      have hmilli : Datetime.millisecond n = .ok _ := rfl
      have hmicro : Datetime.microsecond n = .ok _ := rfl
      have hstr : Datetime.str n = .ok t := h
      rw [Datetime.str, if_neg (by exact Bool.false_ne_true), hmilli, hmicro, hyear] at hstr
      change ite _ _ _ = _ at hstr
      split at hstr
      · cases hstr
      · cases hstr
    obtain ⟨y, m, d, hh, mi, s, p⟩ := Datetime.exists_parts hdated
    have hstr : Datetime.str (n : ℤ) = .ok t := h
    have hlength := Datetime.length_decimal_year p.year_range
    have hyear : Padding.zeroPadded 4 y = Json.decimalInt y :=
      Padding.alignRight_eq_self hlength.ge
    rw [Datetime.str_eq p, hyear] at hstr
    obtain rfl := Except.ok.inj hstr
    refine Or.inr ⟨y, _, rfl, ?_⟩
    have hpadded := fun w n => Json.weight_eq_zero_of_isNumeric (isNumeric_zeroPadded w n)
    have hseconds := fun s u => Json.weight_eq_zero_of_isNumeric (isNumeric_secondsText s u)
    simp [Json.weight_append, Json.weight_cons, hpadded, hseconds, Json.heavy]

/-- A date is no number. -/
lemma datetime_stuck {d : Datetime} {t : List UInt8} (h : Datetime.str d = .ok t) :
    Stuck t ∧ weight t = 0 := by
  rcases str_eq_year h with rfl | ⟨y, u, rfl, hu⟩
  · exact ⟨Json.stuck_of_none fun n r => rfl, by decide⟩
  · refine ⟨Json.stuck_decimalInt y (fun r => ?_) fun r => ⟨rfl, rfl⟩, ?_⟩
    · intro c hc
      obtain rfl := Option.some.inj hc
      decide
    · rw [Json.weight_append, Json.weight_cons, hu,
        Json.weight_eq_zero_of_isNumeric (Json.isNumeric_decimalInt y)]
      rfl

/-- Nor is a time difference. -/
lemma timeDelta_stuck (t : TimeDelta) : Stuck (TimeDelta.str t) ∧ weight (TimeDelta.str t) = 0 := by
  constructor
  · refine Json.stuck_decimalInt (TimeDelta.days t) (fun r => ?_) fun r => ⟨rfl, rfl⟩
    intro c hc
    obtain rfl := Option.some.inj hc
    decide
  · have hdays := Json.weight_eq_zero_of_isNumeric (Json.isNumeric_decimalInt (TimeDelta.days t))
    have htwo := fun x => Json.weight_eq_zero_of_isNumeric (isNumeric_twoDigits x)
    have hsix := fun x => Json.weight_eq_zero_of_isNumeric (isNumeric_formatMillionths x)
    have hword : weight " days, ".toUTF8.data.toList = 0 := by decide
    rw [TimeDelta.str, Json.weight_append, Json.weight_append, Json.weight_append, Json.weight_cons,
      Json.weight_append, Json.weight_cons, htwo, htwo, hsix, hword]
    exact hdays

/-- A `double` that is a number is read. -/
lemma reads_doubleText {x : Floating binary64} (h : (Stored.double x).plain = true) :
    ∃ v, Reads (doubleText x) v := by
  cases x with
  | finite q hq =>
    obtain ⟨m, e, hread⟩ := Json.reads_general q
    exact ⟨_, hread⟩
  | negZero =>
    refine ⟨.number (-(0 : ℕ)) 0, fun n r hr => ?_⟩
    have hread : Json.unsigned (48 :: r) = some ((0, 0), r) :=
      Json.unsigned_decimal 0 hr.endsNumber
    have htext : doubleText .negZero ++ r = 45 :: 48 :: r := rfl
    rw [Json.value_blank, htext, Json.value_numeric n rfl, Json.number, List.head?_cons,
      if_pos rfl, List.tail_cons, hread]
    rfl
  | infinity negative => cases h
  | nan => cases h

/-- A date is written only if dates are supported, as its own text. -/
lemma valueText_datetime {d : Datetime} {t : List UInt8}
    (h : valueText B (.datetime d) = .ok (some t)) :
    B.datetime = true ∧ Datetime.str d = .ok t := by
  rw [valueText] at h
  split at h
  next hdatetime =>
    cases hstr : Datetime.str d with
    | error e =>
      rw [hstr] at h
      cases h
    | ok u =>
      rw [hstr] at h
      obtain rfl := Option.some.inj (Except.ok.inj h)
      exact ⟨hdatetime, rfl⟩
  next => cases h

/-- A difference is written only if dates are supported, as its own text. -/
lemma valueText_timeDelta {d : TimeDelta} {t : List UInt8}
    (h : valueText B (.timeDelta d) = .ok (some t)) :
    B.datetime = true ∧ TimeDelta.str d = t := by
  rw [valueText] at h
  split at h
  next hdatetime => exact ⟨hdatetime, Option.some.inj (Except.ok.inj h)⟩
  next => cases h

/-- **What JSON can express is written as JSON.** -/
lemma valueText_plain {v : Stored} (h : v.plain = true) (hclean : ∀ s, v = .string s → Clean s) :
    ∃ t x, valueText B v = .ok (some t) ∧ Reads t x ∧ Agrees v x := by
  cases v with
  | int64 x => exact ⟨_, _, rfl, Json.reads_decimalInt x.toInt, _, _, rfl, by simp⟩
  | bool b => exact ⟨_, _, rfl, Json.reads_bool b, rfl⟩
  | double x =>
    obtain ⟨y, hread⟩ := reads_doubleText h
    exact ⟨_, y, rfl, hread, trivial⟩
  | string s => exact ⟨_, _, rfl, Json.reads_quoted (hclean s rfl), rfl⟩
  | int x => cases h
  | float x => cases h
  | datetime d => cases h
  | timeDelta t => cases h
  | other => cases h

/-- **Nothing else is.**

**Proof sketch.** One case for each type. The texts of dates, of infinities and of what is no
number begin like no value of JSON, or are left half read. -/
lemma valueText_stuck {v : Stored} {t : List UInt8} (h : valueText B v = .ok (some t))
    (hplain : v.plain = false) : Stuck t := by
  cases v with
  | int64 x => cases hplain
  | bool b => cases hplain
  | double x =>
    obtain rfl := Option.some.inj (Except.ok.inj h)
    cases x with
    | finite q hq => cases hplain
    | negZero => cases hplain
    | infinity negative =>
      cases negative with
      | true => exact Json.stuck_of_none fun n r => rfl
      | false => exact Json.stuck_of_none fun n r => rfl
    | nan => exact Json.stuck_of_none fun n r => rfl
  | string s => cases hplain
  | int x => cases h
  | float x => cases h
  | datetime d => exact (datetime_stuck (valueText_datetime h).2).1
  | timeDelta d =>
    obtain ⟨-, rfl⟩ := valueText_timeDelta h
    exact (timeDelta_stuck d).1
  | other => cases h

/-- The characters of numbers are bytes below 128. -/
lemma isUtf8_of_isNumeric {t : List UInt8} (h : ∀ c ∈ t, Decimal.isNumeric c = true) :
    IsUtf8 t := by
  have hlow : ∀ c : UInt8, Decimal.isNumeric c = true → c < 128 :=
    CString.forall_byte (by decide +kernel)
  exact Json.isUtf8_of_lt fun c hc => hlow c (h c hc)

/-- **What JSON can express is written in UTF-8**, if strings are.

**Proof sketch.** One case for each type of a value. Numbers and truth values are written below
128, and a quoted string is written in UTF-8 if and only if the string is. -/
lemma valueText_utf8 {v : Stored} (h : v.plain = true) (hutf8 : ∀ s, v = .string s → IsUtf8 s)
    {t : List UInt8} (ht : valueText B v = .ok (some t)) : IsUtf8 t := by
  cases v with
  | int64 x =>
    obtain rfl := Option.some.inj (Except.ok.inj ht)
    exact isUtf8_of_isNumeric (Json.isNumeric_decimalInt x.toInt)
  | bool b =>
    obtain rfl := Option.some.inj (Except.ok.inj ht)
    cases b with
    | true => exact Json.isUtf8_of_lt (by decide +kernel)
    | false => exact Json.isUtf8_of_lt (by decide +kernel)
  | double x =>
    obtain rfl := Option.some.inj (Except.ok.inj ht)
    cases x with
    | finite q hq => exact isUtf8_of_isNumeric (Decimal.isNumeric_general q)
    | negZero => exact Json.isUtf8_of_lt (by decide +kernel)
    | infinity negative => cases h
    | nan => cases h
  | string s =>
    obtain rfl := Option.some.inj (Except.ok.inj ht)
    exact (Json.isUtf8_quoted_iff s).mpr (hutf8 s rfl)
  | int x => cases h
  | float x => cases h
  | datetime d => cases h
  | timeDelta t => cases h
  | other => cases h

/-- What is written is supported. -/
lemma valueText_supported {v : Stored} {t : List UInt8} (h : valueText B v = .ok (some t)) :
    v.supported B = true := by
  cases v with
  | datetime d => exact (valueText_datetime h).1
  | timeDelta d => exact (valueText_timeDelta h).1
  | other => cases h
  | _ => rfl

/-! ## The text of the entries -/

/-- What a value needs of its text. -/
def Stored.needs : Stored → ℕ
  | .string s => weight s
  | _ => 0

/-- What has to be escaped in a value. -/
def Stored.cost : Stored → ℕ
  | .string s => special s
  | _ => 0

/-- The weight of the text of a value is what the value needs.

**Proof sketch.** One case for each type of a value. Numbers weigh nothing, a string weighs its two
quotes and what is in it, and the texts of dates and differences have a lemma each. -/
lemma valueText_weight {v : Stored} {t : List UInt8} (h : valueText B v = .ok (some t)) :
    weight t = v.needs := by
  cases v with
  | int64 x =>
    obtain rfl := Option.some.inj (Except.ok.inj h)
    exact Json.weight_eq_zero_of_isNumeric (Json.isNumeric_decimalInt _)
  | bool b =>
    obtain rfl := Option.some.inj (Except.ok.inj h)
    cases b <;> rfl
  | double x =>
    obtain rfl := Option.some.inj (Except.ok.inj h)
    cases x with
    | finite q hq => exact Json.weight_eq_zero_of_isNumeric (Decimal.isNumeric_general q)
    | negZero => rfl
    | infinity negative => cases negative <;> rfl
    | nan => rfl
  | string s =>
    obtain rfl := Option.some.inj (Except.ok.inj h)
    simp [Stored.needs, Json.heavy, weight]
  | int x => cases h
  | float x => cases h
  | datetime d => exact (datetime_stuck (valueText_datetime h).2).2
  | timeDelta d =>
    obtain ⟨-, rfl⟩ := valueText_timeDelta h
    exact (timeDelta_stuck d).2
  | other => cases h

/-- The members that are written for some entries. -/
inductive Writes (B : Build) : List Item → List (List UInt8 × List UInt8) → Prop where
  | nil : Writes B [] []
  | skip {e : Item} {es ws} : valueText B e.2 = .ok none → Writes B es ws →
      Writes B (e :: es) ws
  | write {e : Item} {es ws v} : valueText B e.2 = .ok (some v) → Writes B es ws →
      Writes B (e :: es) ((e.1, v) :: ws)

/-- An entry that is left out. -/
def skipped (B : Build) (e : Item) : Bool :=
  match valueText B e.2 with
  | .ok none => true
  | _ => false

/-- The comma behind the last member, if an entry that is left out comes after it. -/
def comma (B : Build) (es : List Item) (ws : List (List UInt8 × List UInt8)) : List UInt8 :=
  if ws ≠ [] ∧ es.getLast?.any (skipped B) = true then text ", " else []

/-- The entries are all left out. -/
lemma Writes.skipped_of_nil {es : List Item} (h : Writes B es []) (hne : es ≠ []) :
    es.getLast?.any (skipped B) = true := by
  generalize hws : ([] : List (List UInt8 × List UInt8)) = ws at h
  induction h with
  | nil => exact absurd rfl hne
  | @skip e es ws hnone h ih =>
    cases es with
    | nil => simp [skipped, hnone]
    | cons e' es =>
      rw [List.getLast?_cons_cons]
      exact ih (List.cons_ne_nil _ _) hws
  | write _ _ _ => cases hws

/-- One step of the loop, for an entry that is written. -/
lemma toJsonLoop_write {e : Item} {v : List UInt8} (h : valueText B e.2 = .ok (some v))
    (total cnt : ℕ) (buf : List UInt8) (es : List Item) :
    toJsonLoop B total cnt buf (e :: es) = toJsonLoop B total (cnt + 1)
      (if cnt + 1 < total then buf ++ memberText (e.1, v) ++ text ", "
        else buf ++ memberText (e.1, v)) es := by
  have hmember : 34 :: (e.1 ++ text "\": ") ++ v = memberText (e.1, v) := by
    have htext : text "\": " = [34, 58, 32] := by decide
    rw [htext]
    simp [memberText, Json.quoted]
  rw [toJsonLoop, h, ← hmember]
  rfl

/-- The loop writes the members.

**Proof sketch.** By induction on the items that are written. The comma depends on whether the item
is the last one of all, not whether it is the last one that is written, so a skipped last item
leaves a comma behind. -/
lemma Writes.loop_eq {es : List Item} {ws : List (List UInt8 × List UInt8)} (h : Writes B es ws)
    (cnt : ℕ) (buf : List UInt8) : toJsonLoop B (cnt + es.length) cnt buf es =
      .ok (buf ++ (membersText ws ++ comma B es ws)) := by
  induction h generalizing cnt buf with
  | nil => simp [toJsonLoop, membersText, comma]
  | @skip e es ws hnone h ih =>
    have hlength : cnt + (e :: es).length = cnt + 1 + es.length := by
      rw [List.length_cons]
      omega
    have hcomma : comma B (e :: es) ws = comma B es ws := by
      cases es with
      | nil =>
        cases h
        rfl
      | cons e' es => rw [comma, comma, List.getLast?_cons_cons]
    rw [toJsonLoop, hnone, hlength, hcomma]
    exact ih (cnt + 1) buf
  | @write e es ws v hsome h ih =>
    have hlength : cnt + (e :: es).length = cnt + 1 + es.length := by
      rw [List.length_cons]
      omega
    rw [toJsonLoop_write hsome, hlength]
    cases es with
    | nil =>
      cases h
      have hcomma : comma B [e] [(e.1, v)] = [] := by simp [comma, skipped, hsome]
      simp [hcomma, toJsonLoop, membersText]
    | cons e' es =>
      have hlt : cnt + 1 < cnt + 1 + (e' :: es).length := by simp
      rw [if_pos hlt, ih]
      cases ws with
      | nil =>
        have hskipped := h.skipped_of_nil (List.cons_ne_nil _ _)
        simp [membersText, comma, List.getLast?_cons_cons, hskipped]
      | cons w ws =>
        have htext : text ", " = [44, 32] := by decide
        have hcomma : comma B (e :: e' :: es) ((e.1, v) :: w :: ws) =
            comma B (e' :: es) (w :: ws) := by simp [comma, List.getLast?_cons_cons]
        rw [hcomma, htext]
        simp [membersText]

/-- What is written is written for all entries. -/
lemma exists_writes {total cnt : ℕ} {buf T : List UInt8} {es : List Item}
    (h : toJsonLoop B total cnt buf es = .ok T) : ∃ ws, Writes B es ws := by
  induction es generalizing cnt buf with
  | nil => exact ⟨[], .nil⟩
  | cons e es ih =>
    rw [toJsonLoop] at h
    cases hvalue : valueText B e.2 with
    | error fault =>
      rw [hvalue] at h
      cases h
    | ok v =>
      rw [hvalue] at h
      cases v with
      | none =>
        obtain ⟨ws, hws⟩ := ih h
        exact ⟨ws, .skip hvalue hws⟩
      | some v =>
        obtain ⟨ws, hws⟩ := ih h
        exact ⟨_, .write hvalue hws⟩

/-- **What is written**: the members between braces, and a comma behind them if the last entry of
the map is left out.

**Proof sketch.** The loop writes a member for each entry that has a text and skips the others; if
it throws, no list of members is what was written. -/
theorem toJson_eq_ok_iff {es : List Item} {T : List UInt8} : toJson B es = .ok T ↔
    ∃ ws, Writes B es ws ∧ T = 123 :: (membersText ws ++ (comma B es ws ++ [125])) := by
  have htext : ∀ ws, Writes B es ws →
      toJson B es = .ok (123 :: (membersText ws ++ (comma B es ws ++ [125]))) := by
    intro ws hws
    have hloop := hws.loop_eq 0 (text "\x7b")
    rw [Nat.zero_add] at hloop
    have htext : text "\x7b" = [123] ∧ text "\x7d" = [125] := by decide
    rw [toJson, hloop, htext.1]
    show Except.ok (_ ++ text "\x7d") = _
    simp [htext.2]
  constructor
  · intro h
    have hloop := h
    rw [toJson] at hloop
    cases hbuf : toJsonLoop B es.length 0 (text "\x7b") es with
    | error fault =>
      rw [hbuf] at hloop
      cases hloop
    | ok buf =>
      obtain ⟨ws, hws⟩ := exists_writes hbuf
      exact ⟨ws, hws, Except.ok.inj (h.symm.trans (htext ws hws))⟩
  · rintro ⟨ws, hws, rfl⟩
    exact htext ws hws

/-! ## What a correct text needs -/

/-- What an entry needs of its text. -/
def itemNeeds (e : Item) : ℕ := weight e.1 + e.2.needs

/-- What has to be escaped in an entry. -/
def itemCost (e : Item) : ℕ := special e.1 + e.2.cost

/-- Nothing has to be escaped. -/
lemma cleanItem_of_cost {e : Item} (h : itemCost e = 0) : CleanItem e := by
  obtain ⟨hname, hvalue⟩ := Nat.add_eq_zero_iff.mp h
  refine ⟨Json.special_eq_zero_iff.mp hname, fun s hs => ?_⟩
  rw [hs] at hvalue
  exact Json.special_eq_zero_iff.mp hvalue

/-- A supported entry is in the list. -/
lemma mem_supportedItems {e : Item} {es : List Item} :
    e ∈ supportedItems B es ↔ e ∈ es ∧ e.2.supported B = true := List.mem_filter

/-- The supported entries have what the text needs. -/
lemma Writes.weight_le {es : List Item} {ws : List (List UInt8 × List UInt8)}
    (h : Writes B es ws) :
    weight (membersText ws) ≤ ((supportedItems B es).map itemNeeds).sum := by
  rw [Json.weight_membersText]
  induction h with
  | nil => exact Nat.le_refl 0
  | @skip e es ws hnone h ih =>
    refine ih.trans (List.Sublist.sum_le_sum (List.Sublist.map _ ?_) fun _ _ => Nat.zero_le _)
    exact (List.sublist_cons_self e es).filter _
  | @write e es ws v hsome h ih =>
    have hitems : supportedItems B (e :: es) = e :: supportedItems B es :=
      List.filter_cons_of_pos (valueText_supported hsome)
    have hvalue := valueText_weight hsome
    rw [hitems, List.map_cons, List.map_cons, List.sum_cons, List.sum_cons, itemNeeds]
    dsimp only
    omega

/-- A member needs what its entry needs, and one more for each character that is escaped. -/
lemma IsMember.weight_le {e : Item} {m : Json.Member} (h : IsMember e m) :
    itemNeeds e + itemCost e ≤ Json.memberWeight m := by
  obtain ⟨hname, hvalue⟩ := h
  have hle : e.2.needs + e.2.cost ≤ m.2.weight := by
    cases hstored : e.2 with
    | string s =>
      rw [hstored] at hvalue
      have hm : m.2 = .string s := hvalue
      rw [hm]
      exact Nat.le_refl _
    | _ => exact Nat.zero_le _
  rw [itemNeeds, itemCost, Json.memberWeight, hname]
  omega

/-- All members together. -/
lemma membersWeight_le {es : List Item} {ms : List Json.Member}
    (h : List.Forall₂ IsMember es ms) :
    (es.map itemNeeds).sum + (es.map itemCost).sum ≤ Json.membersWeight ms := by
  induction h with
  | nil => exact Nat.le_refl 0
  | cons hm h ih =>
    have hle := hm.weight_le
    simp only [Json.membersWeight, List.map_cons, List.sum_cons] at ih ⊢
    omega

/-- **Nothing may have to be escaped.** The supported entries would need more than there is in the
text.

**Proof sketch.** The weight of a text counts what the reader needs. The members that are read need
more than the text has if a character had to be escaped. -/
lemma Correct.clean {es : List Item} (h : Correct B es) :
    ∀ e ∈ supportedItems B es, CleanItem e := by
  obtain ⟨T, ms, hT, hparse, ms', hperm, hmembers⟩ := h
  obtain ⟨ws, hws, rfl⟩ := toJson_eq_ok_iff.mp hT
  obtain ⟨-, hparse⟩ := Json.parse_eq_some_iff.mp hparse
  have hsame : Json.membersWeight ms' = Json.membersWeight ms := (hperm.map _).sum_eq
  have hneed := membersWeight_le hmembers
  have hhave := Json.document_weight hparse
  have hwritten := hws.weight_le
  have hcomma : weight (comma B es ws) = 0 := by
    rw [comma]
    split
    · decide
    · rfl
  have hbrace : weight [125] = 0 := by decide
  rw [Json.weight_cons, Json.weight_append, Json.weight_append, hcomma, hbrace] at hhave
  have hheavy : Json.heavy 123 = false := rfl
  rw [hheavy] at hhave
  have hcost : ((supportedItems B es).map itemCost).sum = 0 := by
    simp only [Bool.false_eq_true, if_false] at hhave
    omega
  intro e he
  refine cleanItem_of_cost (List.sum_eq_zero_iff.mp hcost _ ?_)
  exact List.mem_map_of_mem he

/-- Every entry is written or left out. -/
lemma Writes.written {es : List Item} {ws : List (List UInt8 × List UInt8)} (h : Writes B es ws) :
    ∀ e ∈ es, skipped B e = false → ∃ v, valueText B e.2 = .ok (some v) := by
  induction h with
  | nil => exact fun e he => absurd he List.not_mem_nil
  | @skip e es ws hnone h ih =>
    refine List.forall_mem_cons.mpr ⟨fun hskipped => ?_, ih⟩
    rw [skipped, hnone] at hskipped
    cases hskipped
  | @write e es ws v hsome h ih => exact List.forall_mem_cons.mpr ⟨fun _ => ⟨v, hsome⟩, ih⟩

/-- A member comes from a supported entry. -/
lemma Writes.exists_item {es : List Item} {ws : List (List UInt8 × List UInt8)}
    (h : Writes B es ws) :
    ∀ w ∈ ws, ∃ e ∈ supportedItems B es, e.1 = w.1 ∧ valueText B e.2 = .ok (some w.2) := by
  induction h with
  | nil => nofun
  | @skip e es ws hnone h ih =>
    intro w hw
    obtain ⟨e', he', heq⟩ := ih w hw
    obtain ⟨hmem, hsupported⟩ := mem_supportedItems.mp he'
    exact ⟨e', mem_supportedItems.mpr ⟨List.mem_cons_of_mem _ hmem, hsupported⟩, heq⟩
  | @write e es ws v hsome h ih =>
    have hitems : supportedItems B (e :: es) = e :: supportedItems B es :=
      List.filter_cons_of_pos (valueText_supported hsome)
    rw [hitems]
    refine List.forall_mem_cons.mpr ⟨⟨e, List.mem_cons_self, rfl, hsome⟩, fun w hw => ?_⟩
    obtain ⟨e', he', heq⟩ := ih w hw
    exact ⟨e', List.mem_cons_of_mem _ he', heq⟩

/-- There are not more members than supported entries, and less if one of these is left out.

**Proof sketch.** By induction on the entries. A skipped entry may be a supported one without a
text, and then there is one member less. -/
lemma Writes.length_le {es : List Item} {ws : List (List UInt8 × List UInt8)}
    (h : Writes B es ws) : ws.length ≤ (supportedItems B es).length ∧
      (ws.length = (supportedItems B es).length →
        ∀ e ∈ supportedItems B es, ∃ w ∈ ws, e.1 = w.1 ∧ valueText B e.2 = .ok (some w.2)) := by
  induction h with
  | nil => exact ⟨Nat.le_refl 0, fun _ e he => absurd he List.not_mem_nil⟩
  | @skip e es ws hnone h ih =>
    by_cases hsupported : e.2.supported B = true
    · have hitems : supportedItems B (e :: es) = e :: supportedItems B es :=
        List.filter_cons_of_pos hsupported
      rw [hitems, List.length_cons]
      exact ⟨by omega, fun heq => by omega⟩
    · have hitems : supportedItems B (e :: es) = supportedItems B es :=
        List.filter_cons_of_neg hsupported
      rw [hitems]
      exact ih
  | @write e es ws v hsome h ih =>
    have hitems : supportedItems B (e :: es) = e :: supportedItems B es :=
      List.filter_cons_of_pos (valueText_supported hsome)
    rw [hitems, List.length_cons, List.length_cons]
    refine ⟨by omega, fun heq => List.forall_mem_cons.mpr ⟨?_, fun e' he' => ?_⟩⟩
    · exact ⟨_, List.mem_cons_self, rfl, hsome⟩
    · obtain ⟨w, hw, hvalue⟩ := ih.2 (by omega) e' he'
      exact ⟨w, List.mem_cons_of_mem _ hw, hvalue⟩

/-- Clean members are read up to their ends, or stuck. -/
lemma Writes.outcome {es : List Item} {ws : List (List UInt8 × List UInt8)} (h : Writes B es ws)
    (hclean : ∀ e ∈ supportedItems B es, CleanItem e) :
    ∀ w ∈ ws, Clean w.1 ∧ (Stuck w.2 ∨ ∃ x, Reads w.2 x) := by
  intro w hw
  obtain ⟨e, he, hname, hvalue⟩ := h.exists_item w hw
  refine ⟨hname ▸ (hclean e he).1, ?_⟩
  cases hplain : e.2.plain with
  | false => exact Or.inl (valueText_stuck hvalue hplain)
  | true =>
    obtain ⟨t, x, ht, hread, -⟩ := valueText_plain (B := B) hplain (hclean e he).2
    rw [hvalue] at ht
    exact Or.inr ⟨x, (Option.some.inj (Except.ok.inj ht)) ▸ hread⟩

/-- Members that can be read are read together. -/
lemma exists_members {ws : List (List UInt8 × List UInt8)}
    (h : ∀ w ∈ ws, Clean w.1 ∧ ∃ x, Reads w.2 x) : ∃ ms, List.Forall₂ ReadsMember ws ms := by
  induction ws with
  | nil => exact ⟨[], .nil⟩
  | cons w ws ih =>
    obtain ⟨⟨hname, x, hread⟩, hws⟩ := List.forall_mem_cons.mp h
    obtain ⟨ms, hms⟩ := ih hws
    exact ⟨(w.1, x) :: ms, .cons ⟨hname, rfl, hread⟩ hms⟩

/-- **A correct text is an object as it is written**, with every supported entry.

**Proof sketch.** The text is UTF-8 and is read. Nothing in it has to be escaped, so that it is read
member by member: none of them is stuck, and there is no comma behind the last one. What is read are
the members as they are written, and there are as many as supported entries. -/
lemma Correct.read {es : List Item} (h : Correct B es) : ∃ ws, Writes B es ws ∧
    comma B es ws = [] ∧ (∀ w ∈ ws, ¬ Stuck w.2) ∧ (∀ w ∈ ws, IsUtf8 w.1 ∧ IsUtf8 w.2) ∧
      ws.length = (supportedItems B es).length := by
  have hclean := h.clean
  obtain ⟨T, ms, hT, hparse, ms', hperm, hmembers⟩ := h
  obtain ⟨ws, hws, rfl⟩ := toJson_eq_ok_iff.mp hT
  obtain ⟨hutf8, hparse⟩ := Json.parse_eq_some_iff.mp hparse
  have houtcome := hws.outcome hclean
  have hread : comma B es ws = [] ∧ ∀ w ∈ ws, ¬ Stuck w.2 := by
    by_cases hne : ws = []
    · simp [hne, comma]
    · have hcloses : Closes (comma B es ws ++ [125]) := by
        rw [comma]
        split
        · exact ⟨[32, 125], Or.inl rfl⟩
        · exact ⟨[], Or.inr rfl⟩
      obtain ⟨hstuck, hcomma⟩ := Json.document_inv houtcome hne hcloses hparse
      refine ⟨?_, hstuck⟩
      rw [comma] at hcomma ⊢
      split at hcomma
      · exact absurd rfl hcomma
      · rw [if_neg ‹_›]
  obtain ⟨hcomma, hstuck⟩ := hread
  rw [hcomma] at hutf8
  refine ⟨ws, hws, hcomma, hstuck, (Json.isUtf8_objectText_iff ws).mp hutf8, ?_⟩
  obtain ⟨ms₀, hms₀⟩ := exists_members fun w hw =>
    ⟨(houtcome w hw).1, (houtcome w hw).2.resolve_left (hstuck w hw)⟩
  rw [hcomma, List.nil_append] at hparse
  have hsame : ms₀ = ms := Json.Value.object.inj (Option.some.inj
    ((Json.document_members hms₀).symm.trans hparse))
  rw [hms₀.length_eq, hsame, ← hperm.length_eq, hmembers.length_eq]

/-! ## What is enough -/

/-- What is not supported is left out. -/
lemma valueText_unsupported {v : Stored} (h : v.supported B = false) :
    valueText B v = .ok none := by
  cases v with
  | datetime d =>
    have hd : B.datetime = false := h
    simp [valueText, hd]
  | timeDelta t =>
    have hd : B.datetime = false := h
    simp [valueText, hd]
  | other => rfl
  | _ => cases h

/-- Clean and plain entries are written and read.

**Proof sketch.** By induction on the entries: one that is not supported is skipped, and the others
are written, and read as they are written. -/
lemma exists_writes_reads {es : List Item}
    (h : ∀ e ∈ supportedItems B es, CleanItem e ∧ e.2.plain = true) :
    ∃ ws ms, Writes B es ws ∧ List.Forall₂ ReadsMember ws ms ∧
      List.Forall₂ IsMember (supportedItems B es) ms := by
  induction es with
  | nil => exact ⟨[], [], .nil, .nil, .nil⟩
  | cons e es ih =>
    cases hsupported : e.2.supported B with
    | false =>
      have hitems : supportedItems B (e :: es) = supportedItems B es :=
        List.filter_cons_of_neg (by simp [hsupported])
      rw [hitems] at h ⊢
      obtain ⟨ws, ms, hws, hreads, hms⟩ := ih h
      exact ⟨ws, ms, .skip (valueText_unsupported hsupported) hws, hreads, hms⟩
    | true =>
      have hitems : supportedItems B (e :: es) = e :: supportedItems B es :=
        List.filter_cons_of_pos hsupported
      rw [hitems] at h ⊢
      obtain ⟨⟨hclean, hplain⟩, hes⟩ := List.forall_mem_cons.mp h
      obtain ⟨ws, ms, hws, hreads, hms⟩ := ih hes
      obtain ⟨t, x, ht, hread, hagrees⟩ := valueText_plain (B := B) hplain hclean.2
      exact ⟨(e.1, t) :: ws, (e.1, x) :: ms, .write ht hws, .cons ⟨hclean.1, rfl, hread⟩ hreads,
        .cons ⟨rfl, hagrees⟩ hms⟩

/-- **When the text is correct**: nothing has to be escaped, names and strings are UTF-8, every
supported value is one that JSON can express as it is written, and no comma is left behind.

**Proof sketch.** A character that has to be escaped needs more characters than there are in the
text. Without such characters the text is read member by member: it stops at a value that is none of
JSON, and at the brace behind a comma. A supported entry that is left out is missed. The marks
between names and values are bytes below 128, so that the text is UTF-8 exactly if all of these
are. -/
theorem toJson_correct_iff {es : List Item} : Correct B es ↔ Writable B es := by
  constructor
  · intro h
    obtain ⟨ws, hws, hcomma, hstuck, hutf8, hlength⟩ := h.read
    have hwritten := hws.length_le.2 hlength
    refine ⟨h.clean, fun e he => ?_, fun e he => ?_, fun e he => ?_⟩
    · obtain ⟨w, hw, hname, hvalue⟩ := hwritten e he
      refine ⟨hname ▸ (hutf8 w hw).1, fun s hs => ?_⟩
      rw [hs] at hvalue
      have hquoted : Json.quoted s = w.2 := Option.some.inj (Except.ok.inj hvalue)
      rw [← Json.isUtf8_quoted_iff, hquoted]
      exact (hutf8 w hw).2
    · obtain ⟨w, hw, -, hvalue⟩ := hwritten e he
      by_contra hplain
      exact hstuck w hw (valueText_stuck hvalue (by simpa using hplain))
    · by_cases hne : ws = []
      · rw [hne] at hlength
        exact Or.inr (List.length_eq_zero_iff.mp hlength.symm)
      · left
        have hskipped : skipped B e = false := by
          by_contra hskipped
          rw [comma, if_pos ⟨hne, by simpa [he] using hskipped⟩] at hcomma
          exact absurd hcomma (by decide)
        obtain ⟨v, hv⟩ := hws.written e (List.mem_of_getLast? he) hskipped
        exact valueText_supported hv
  · rintro ⟨hclean, hencoded, hplain, hlast⟩
    obtain ⟨ws, ms, hws, hreads, hms⟩ :=
      exists_writes_reads fun e he => ⟨hclean e he, hplain e he⟩
    have hcomma : comma B es ws = [] := by
      refine if_neg ?_
      rintro ⟨hne, hany⟩
      cases he : es.getLast? with
      | none =>
        rw [he] at hany
        cases hany
      | some e =>
        rw [he] at hany
        rcases hlast e he with hsupported | hnone
        · obtain ⟨t, x, ht, -⟩ := valueText_plain (B := B)
            (hplain e (mem_supportedItems.mpr ⟨List.mem_of_getLast? he, hsupported⟩))
            (hclean e (mem_supportedItems.mpr ⟨List.mem_of_getLast? he, hsupported⟩)).2
          have hskipped : skipped B e = true := hany
          rw [skipped, ht] at hskipped
          cases hskipped
        · rw [hnone] at hms
          cases hms
          cases hreads
          exact hne rfl
    have htext : toJson B es = .ok (Json.objectText ws) := by
      refine toJson_eq_ok_iff.mpr ⟨ws, hws, ?_⟩
      rw [hcomma]
      rfl
    have hutf8 : IsUtf8 (Json.objectText ws) := by
      refine (Json.isUtf8_objectText_iff ws).mpr fun w hw => ?_
      obtain ⟨e, he, hname, hvalue⟩ := hws.exists_item w hw
      exact ⟨hname ▸ (hencoded e he).1, valueText_utf8 (hplain e he) (hencoded e he).2 hvalue⟩
    exact ⟨_, ms, htext, Json.parse_eq_some_iff.mpr ⟨hutf8, Json.document_members hreads⟩, ms,
      List.Perm.refl ms, hms⟩

/-- `set<std::string>("note", "a\"b")`. -/
def setNote : Call := ⟨"note", .string "a\"b", false⟩

/-- A string with a quote is set, and the text is no object, in whichever order it is written. -/
theorem note_not_correct :
    Returns (call linuxDatetime setNote) ∅ ∧
    ∀ l : AList fun _ : String => Any, l.toFinmap = calls linuxDatetime ∅ [setNote] →
      ¬ Correct linuxDatetime (l.entries.map item) := by
  have hc : setNote.Accepted linuxDatetime (calls linuxDatetime ∅ []) := Or.inr rfl
  refine ⟨returns_call_iff.mpr hc, fun l hl h => ?_⟩
  have hstored : l.lookup "note" = some setNote.stored := by
    rw [← Finmap.lookup_toFinmap, hl]
    have hlookup : (calls linuxDatetime ∅ ([] ++ [setNote])).lookup setNote.name =
        some setNote.stored := lookup_accepted hc (List.forall_mem_nil _)
    exact hlookup
  have hitem := List.mem_map_of_mem (f := item) (AList.mem_lookup_iff.mp hstored)
  have hclean := h.clean _ (mem_supportedItems.mpr ⟨hitem, rfl⟩)
  exact absurd (hclean.2 _ rfl) (by decide)

end HkuUtils.Parameter
