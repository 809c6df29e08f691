import HkuUtils.Datetime.Text
import HkuUtils.Search
import HkuUtils.Strings.Numerals
import HkuUtils.Strings.Split
import HkuUtils.Strings.Trim

set_option relaxedAutoImplicit false
set_option autoImplicit false

/-!
# Dates from texts

The constructor of `Datetime` from a text. It tells the formats apart by single letters, and hands
the text to one of the parsers of Boost. The text columns of the databases rely on it: what `str`
writes is what it reads.

## Main definitions

* `HkuUtils.Datetime.Parsers` — the parsers of Boost.
* `HkuUtils.Datetime.ofString` — the constructor.
* `HkuUtils.Datetime.bindDatetime`, `columnAsDatetime` — a value in a text column.
* `HkuUtils.Datetime.ReadsTimes` — what is said of `time_from_string`.

## Main results

* `HkuUtils.Datetime.text_round_trip` — values that have a date are read back.
* `HkuUtils.Datetime.column_round_trip` — so they are from a text column.
-/

namespace HkuUtils.Datetime

open Strings (split NatText Digits)
open Json (natural)
open Padding (alignLeft zeroPadded)

variable {ε : Type}

/-! ## The constructor -/

/-- The parsers of Boost. -/
structure Parsers (ε : Type) where
  timeFromString : List UInt8 → Except ε Datetime
  fromIsoString : List UInt8 → Except ε Datetime
  fromString : List UInt8 → Except ε Date
  fromUndelimitedString : List UInt8 → Except ε Date
  durationFromString : List UInt8 → Except ε ℤ

/-- How the constructor fails. -/
inductive TextFault (ε : Type) where
  /-- "Invalid datetime str: ". -/
  | invalid
  /-- A parser throws. -/
  | parser (e : ε)
  deriving DecidableEq, Repr

/-- The text of the null value. -/
def infinity : List UInt8 := "+infinity".toUTF8.data.toList

/-- What the constructor asks of the parsers. A `T` makes the text an ISO text, a blank one with a
time, and `-` or `/` one with delimiters. -/
def ofTimeStr (parsers : Parsers ε) (timeStr : List UInt8) : Except ε Datetime :=
  let delimited := (timeStr.idxOf? 45).isSome || (timeStr.idxOf? 47).isSome
  match timeStr.idxOf? 84, timeStr.idxOf? 32 with
  | some _, _ => parsers.fromIsoString timeStr
  | none, none => do
    if delimited then return ptimeOf (← parsers.fromString timeStr) (timeDuration 0 0 0 0)
    else return ptimeOf (← parsers.fromUndelimitedString timeStr) (timeDuration 0 0 0 0)
  | none, some pos =>
    if delimited then parsers.timeFromString timeStr
    else do
      let date ← parsers.fromUndelimitedString (timeStr.take pos)
      return ptimeOf date (← parsers.durationFromString (timeStr.drop (pos + 1)))

/-- The constructor from a text. -/
def ofString (parsers : Parsers ε) (ts : List UInt8) : Except (TextFault ε) Datetime :=
  if ts.length < 8 then .error .invalid
  else if Strings.trim ts = infinity then .ok ⊤
  else (ofTimeStr parsers (Search.toUpper (Strings.trim ts))).mapError .parser

/-! ## What is said of the parsers -/

/-- A date with a time, from the texts of its fields. -/
def delimited (y m d hh mi s : List UInt8) : List UInt8 :=
  y ++ 45 :: (m ++ 45 :: (d ++ 32 :: (hh ++ 58 :: (mi ++ 58 :: s))))

/-- The blank in the middle. -/
lemma delimited_eq (y m d hh mi s : List UInt8) : delimited y m d hh mi s =
    (y ++ 45 :: (m ++ 45 :: d)) ++ 32 :: (hh ++ 58 :: (mi ++ 58 :: s)) := by
  simp only [delimited, List.append_assoc, List.cons_append]

/-- The value of a date with a time. -/
def valueOf (y m d hh mi s micro : ℕ) : Datetime :=
  (Calendar.dayNumber y m d * ticksPerDay + (((hh * 60 + mi) * 60 + s) * 1000000 + micro) : ℤ)

/-- The digits behind a point, filled up or cut to six. -/
def micro (f : List UInt8) : ℕ := natural ((f ++ List.replicate 6 48).take 6)

/-- **What is said of `time_from_string`**: it reads `Y-M-D h:m:s`, perhaps with a fraction. -/
def ReadsTimes (read : List UInt8 → Except ε Datetime) : Prop :=
  ∀ {ty tm td th tmi ts : List UInt8} {y m d hh mi s : ℕ}, NatText ty y → NatText tm m →
    NatText td d → NatText th hh → NatText tmi mi → NatText ts s → IsDate y m d → hh < 24 →
    mi < 60 → s < 60 → read (delimited ty tm td th tmi ts) = .ok (valueOf y m d hh mi s 0) ∧
      ∀ f, f ≠ [] → Digits f →
        read (delimited ty tm td th tmi (ts ++ 46 :: f)) = .ok (valueOf y m d hh mi s (micro f))

/-! ## Reading -/

/-- A letter that is neither changed nor looked for. -/
def IsPlain (c : UInt8) : Prop :=
  Search.upper c = c ∧ c ≠ 84 ∧ c ≠ 32 ∧ c ≠ 13 ∧ c ≠ 10 ∧ c ≠ 0

/-- Digits are plain. -/
lemma isPlain_of_isDigit {c : UInt8} (h : Http.isDigit c = true) : IsPlain c := by
  revert h
  refine CString.forall_byte (P := fun c => Http.isDigit c = true → IsPlain c) ?_ c
  unfold IsPlain
  decide +kernel

/-- A date and a time with a blank in between go to `time_from_string`.

**Proof sketch.** The text begins and ends with no blank, is longer than the short form and is none
of the special words, so all guards in front of `time_from_string` fail. -/
lemma ofString_delimited (parsers : Parsers ε) {a b : List UInt8} (ha : ∀ c ∈ a, IsPlain c)
    (hb : ∀ c ∈ b, IsPlain c) (hdash : 45 ∈ a) (hne : b ≠ [])
    (hlength : 8 ≤ (a ++ 32 :: b).length) :
    ofString parsers (a ++ 32 :: b) = (parsers.timeFromString (a ++ 32 :: b)).mapError .parser := by
  have hane : a ≠ [] := List.ne_nil_of_mem hdash
  have hlast : (a ++ 32 :: b).getLast? = b.getLast? := by
    rw [List.append_cons, Strings.getLast?_append_of_ne_nil _ hne]
  have hsolid : Strings.Solid (a ++ 32 :: b) := by
    refine ⟨by simp, fun h => ?_, fun h => ?_, fun h => ?_, fun h => ?_⟩
    · rw [Strings.head?_append_of_ne_nil hane] at h
      exact (ha 32 (List.mem_of_mem_head? h)).2.2.1 rfl
    · exact (hb 32 (List.mem_of_getLast? (hlast ▸ h))).2.2.1 rfl
    · exact (hb 13 (List.mem_of_getLast? (hlast ▸ h))).2.2.2.1 rfl
    · exact (hb 10 (List.mem_of_getLast? (hlast ▸ h))).2.2.2.2.1 rfl
  have hinfinity : a ++ 32 :: b ≠ infinity := by
    intro h
    have hmem : (32 : UInt8) ∈ infinity := h ▸ by simp
    revert hmem
    decide +kernel
  have hupper : Search.toUpper (a ++ 32 :: b) = a ++ 32 :: b := by
    refine Search.toUpper_eq_self (List.forall_mem_append.mpr ⟨fun c hc => (ha c hc).1,
      List.forall_mem_cons.mpr ⟨by decide, fun c hc => (hb c hc).1⟩⟩)
  have htee : (a ++ 32 :: b).idxOf? 84 = none := by
    rw [List.idxOf?_eq_none_iff]
    intro h
    rcases List.mem_append.mp h with h | h
    · exact (ha 84 h).2.1 rfl
    · rcases List.mem_cons.mp h with h | h
      · exact absurd h (by decide)
      · exact (hb 84 h).2.1 rfl
  have hpos : (a ++ 32 :: b).idxOf? 32 = some a.length :=
    Strings.idxOf?_append (fun h => (ha 32 h).2.2.1 rfl) b
  have hdelimited : ((a ++ 32 :: b).idxOf? 45).isSome = true := by
    rw [Option.isSome_iff_ne_none, ne_eq, List.idxOf?_eq_none_iff, not_not]
    exact List.mem_append_left _ hdash
  rw [ofString, if_neg (not_lt.mpr hlength), hsolid.trim_eq, if_neg hinfinity, hupper, ofTimeStr]
  simp only [htee, hpos, hdelimited, Bool.true_or, if_true]

/-- A date with a time goes to `time_from_string`.

**Proof sketch.** The fields are digits with dashes and colons between them, so both halves are
plain, and there is a dash in the first one. -/
lemma ofString_fields (parsers : Parsers ε) {ty tm td th tmi seconds : List UInt8}
    {y m d hh mi : ℕ} (hy : NatText ty y) (hm : NatText tm m) (hd : NatText td d)
    (hhh : NatText th hh) (hmi : NatText tmi mi) (hseconds : ∀ c ∈ seconds, IsPlain c) :
    0 ∉ delimited ty tm td th tmi seconds ∧ ofString parsers (delimited ty tm td th tmi seconds) =
      (parsers.timeFromString (delimited ty tm td th tmi seconds)).mapError .parser := by
  have hplain : ∀ {t : List UInt8} {n : ℕ}, NatText t n → ∀ c ∈ t, IsPlain c :=
    fun ht c hc => isPlain_of_isDigit (ht.digits c hc)
  have hpos : ∀ {t : List UInt8} {n : ℕ}, NatText t n → 0 < t.length :=
    fun ht => List.length_pos_of_ne_nil ht.ne_nil
  have hdash : IsPlain 45 := by
    unfold IsPlain
    decide
  have hcolon : IsPlain 58 := by
    unfold IsPlain
    decide
  have hdate : ∀ c ∈ ty ++ 45 :: (tm ++ 45 :: td), IsPlain c :=
    List.forall_mem_append.mpr ⟨hplain hy, List.forall_mem_cons.mpr
      ⟨hdash, List.forall_mem_append.mpr ⟨hplain hm, List.forall_mem_cons.mpr ⟨hdash, hplain hd⟩⟩⟩⟩
  have htime : ∀ c ∈ th ++ 58 :: (tmi ++ 58 :: seconds), IsPlain c :=
    List.forall_mem_append.mpr ⟨hplain hhh, List.forall_mem_cons.mpr
      ⟨hcolon, List.forall_mem_append.mpr ⟨hplain hmi, List.forall_mem_cons.mpr
        ⟨hcolon, hseconds⟩⟩⟩⟩
  have hzero :
      0 ∉ (ty ++ 45 :: (tm ++ 45 :: td)) ++ 32 :: (th ++ 58 :: (tmi ++ 58 :: seconds)) := by
    intro h
    rcases List.mem_append.mp h with h | h
    · exact (hdate 0 h).2.2.2.2.2 rfl
    · rcases List.mem_cons.mp h with h | h
      · exact absurd h (by decide)
      · exact (htime 0 h).2.2.2.2.2 rfl
  rw [delimited_eq]
  refine ⟨hzero, ofString_delimited parsers hdate htime (by simp) (by simp) ?_⟩
  have hyear := hpos hy
  have hmonth := hpos hm
  have hday := hpos hd
  simp only [List.length_append, List.length_cons]
  omega

/-- The seconds as `str` writes them: two digits; or one or two, a point, and six digits or seven.

The zeros that are filled up with stand behind the six digits of the fraction and do not change its
value. -/
lemma secondsText_cases (s : ℕ) {u : ℕ} (hu : u < 1000000) :
    ∃ ts, NatText ts s ∧ (u = 0 ∧ secondsText s u = ts ∨
      ∃ f, f ≠ [] ∧ Digits f ∧ micro f = u ∧ secondsText s u = ts ++ 46 :: f) := by
  by_cases hzero : u = 0
  · refine ⟨zeroPadded 2 s, Strings.natText_zeroPadded 2 s, Or.inl ⟨hzero, ?_⟩⟩
    rw [secondsText, if_pos hzero]
  · obtain ⟨fill, hfill⟩ : ∃ fill, fill = 9 - (formatMillionths (s * 1000000 + u)).length :=
      ⟨_, rfl⟩
    have hsix : (zeroPadded 6 u).length = 6 := Padding.length_zeroPadded (by omega) (by omega)
    refine ⟨Http.decimal s, Strings.natText_decimal s, Or.inr
      ⟨zeroPadded 6 u ++ List.replicate fill 48, ?_, ?_, ?_, ?_⟩⟩
    · simp [(Strings.natText_zeroPadded 6 u).ne_nil]
    · refine List.forall_mem_append.mpr ⟨(Strings.natText_zeroPadded 6 u).digits, fun c hc => ?_⟩
      rw [List.eq_of_mem_replicate hc]
      decide
    · -- the zeros that are filled up with are cut away
      rw [micro, List.append_assoc, List.take_left' hsix, Strings.natural_zeroPadded]
    · rw [secondsText, if_neg hzero, alignLeft, ← hfill, formatMillionths_eq hu, List.append_assoc,
        List.cons_append]

/-- The value of the parts. -/
lemma Parts.valueOf_eq {t : ℤ} {y m d hh mi s : ℕ} (p : Parts t y m d hh mi s) :
    valueOf y m d hh mi s (t % 1000000).toNat = (t : Datetime) := by
  have hdate := p.date_eq
  have htime := p.time_eq
  have hvalue : Calendar.dayNumber y m d * ticksPerDay +
      (((hh * 60 + mi) * 60 + s) * 1000000 + ((t % 1000000).toNat : ℤ)) = t := by
    rw [hdate]
    unfold ticksPerDay at *
    omega
  rw [valueOf, hvalue]

/-- **A value that has a date is read back.**

**Proof sketch.** The text of a value is the text of its fields, whose seconds have a fraction or
none. The parser reads the fields, and these make the value again. -/
lemma ofString_str (parsers : Parsers ε) (hreads : ReadsTimes parsers.timeFromString) {t : ℤ}
    (ht : Dated t) :
    ∃ ts, str t = .ok ts ∧ 0 ∉ ts ∧ ofString parsers ts = .ok (t : Datetime) := by
  obtain ⟨y, m, d, hh, mi, s, p⟩ := exists_parts ht
  have hmicro : (t % 1000000).toNat < 1000000 := by omega
  obtain ⟨hhh, hmi, hs⟩ := p.time_range
  refine ⟨_, str_eq p, ?_⟩
  obtain ⟨ts, hts, hseconds⟩ := secondsText_cases s hmicro
  obtain ⟨hread, hfraction⟩ := hreads (Strings.natText_zeroPadded 4 y)
    (Strings.natText_zeroPadded 2 m) (Strings.natText_zeroPadded 2 d)
    (Strings.natText_zeroPadded 2 hh) (Strings.natText_zeroPadded 2 mi) hts
    ⟨by exact_mod_cast p.year_range, by exact_mod_cast p.month_range, by exact_mod_cast p.day_range⟩
    hhh hmi hs
  have hfields : ∀ {seconds : List UInt8}, (∀ c ∈ seconds, IsPlain c) → _ :=
    fun hplain => ofString_fields parsers (Strings.natText_zeroPadded 4 y)
      (Strings.natText_zeroPadded 2 m) (Strings.natText_zeroPadded 2 d)
      (Strings.natText_zeroPadded 2 hh) (Strings.natText_zeroPadded 2 mi) hplain
  have hplain : ∀ {t : List UInt8}, Digits t → ∀ c ∈ t, IsPlain c :=
    fun ht c hc => isPlain_of_isDigit (ht c hc)
  rcases hseconds with ⟨hzero, htext⟩ | ⟨f, hf, hfs, hvalue, htext⟩
  · rw [htext]
    obtain ⟨hnot, hparser⟩ := hfields (hplain hts.digits)
    refine ⟨hnot, hparser.trans ?_⟩
    rw [hread, ← hzero, p.valueOf_eq]
    rfl
  · have hpoint : IsPlain 46 := by
      unfold IsPlain
      decide
    rw [htext]
    obtain ⟨hnot, hparser⟩ := hfields (List.forall_mem_append.mpr
      ⟨hplain hts.digits, List.forall_mem_cons.mpr ⟨hpoint, hplain hfs⟩⟩)
    refine ⟨hnot, hparser.trans ?_⟩
    rw [hfraction f hf hfs, hvalue, p.valueOf_eq]
    rfl

/-- **What `str` writes is read back**, for the null value and every value that has a date.

**Proof sketch.** The null value has a text of its own. Any other text is one that the parser for
times reads, by `ofString_str`. -/
theorem text_round_trip (parsers : Parsers ε) (hreads : ReadsTimes parsers.timeFromString) :
    (∃ ts, str ⊤ = .ok ts ∧ ofString parsers ts = .ok ⊤) ∧
    ∀ t : ℤ, Dated t → ∃ ts, str t = .ok ts ∧ ofString parsers ts = .ok (t : Datetime) := by
  refine ⟨⟨infinity, rfl, ?_⟩, fun t ht => ?_⟩
  · have hlength : ¬ infinity.length < 8 := by decide +kernel
    have htrim : Strings.trim infinity = infinity := by decide +kernel
    rw [ofString, if_neg hlength, if_pos htrim]
  · obtain ⟨ts, hstr, -, hread⟩ := ofString_str parsers hreads ht
    exact ⟨ts, hstr, hread⟩

/-! ## A text column -/

/-- `sub_bindDatetime`: a text, or NULL. -/
def bindDatetime (item : Datetime) : Except Fault (Option (List UInt8)) :=
  if item = ⊤ then .ok none else do return some (← str item)

/-- `sub_getColumnAsText`: the text up to its first zero, and none for NULL. -/
def columnAsText (data : Option (List UInt8)) : List UInt8 := data.elim [] CString.upToZero

/-- `sub_getColumnAsDatetime`. -/
def columnAsDatetime (parsers : Parsers ε) (data : Option (List UInt8)) :
    Except (TextFault ε) Datetime :=
  if columnAsText data = [] then .ok ⊤ else ofString parsers (columnAsText data)

/-- **A column gives back what was bound to it.** -/
theorem column_round_trip (parsers : Parsers ε) (hreads : ReadsTimes parsers.timeFromString) :
    (∃ data, bindDatetime ⊤ = .ok data ∧ columnAsDatetime parsers data = .ok ⊤) ∧
    ∀ t : ℤ, Dated t →
      ∃ data, bindDatetime t = .ok data ∧ columnAsDatetime parsers data = .ok (t : Datetime) := by
  refine ⟨⟨none, rfl, rfl⟩, fun t ht => ?_⟩
  obtain ⟨ts, hstr, hzero, hread⟩ := ofString_str parsers hreads ht
  have htext : columnAsText (some ts) = ts := CString.upToZero_eq_self_iff.mpr hzero
  have hne : ts ≠ [] := by
    rintro rfl
    cases hread
  refine ⟨some ts, ?_, ?_⟩
  · rw [bindDatetime, if_neg WithTop.coe_ne_top, hstr]
    rfl
  · rw [columnAsDatetime, htext, if_neg hne, hread]

/-! ## A parser of dates with times -/

/-- A date with a time, cut into its fields. This is what is known of the parsers: a text of this
form is read to its value. -/
def readDelimited (s : List UInt8) : Except Unit Datetime :=
  match split 32 s with
  | [date, time] =>
    match split 45 date, split 58 time with
    | [y, m, d], [hh, mi, seconds] =>
      if IsDate (natural y) (natural m) (natural d) then
        let value := valueOf (natural y) (natural m) (natural d) (natural hh) (natural mi)
        match split 46 seconds with
        | [s] => .ok (value (natural s) 0)
        | [s, f] => .ok (value (natural s) (micro f))
        | _ => .error ()
      else .error ()
    | _, _ => .error ()
  | _ => .error ()

/-- Digits contain no separator. -/
lemma digits_not_mem {t : List UInt8} (h : Digits t) {c : UInt8} (hc : Http.isDigit c = false) :
    c ∉ t := fun hmem => by simp [h c hmem] at hc

/-- The fields in front of the seconds are found.

**Proof sketch.** None of the fields has a delimiter in it, so the text is split at the blank, each
half at its own delimiters, and the fields come back. -/
lemma readDelimited_delimited {ty tm td th tmi seconds : List UInt8} {y m d hh mi : ℕ}
    (hy : NatText ty y) (hm : NatText tm m) (hd : NatText td d) (hhh : NatText th hh)
    (hmi : NatText tmi mi) (hblank : 32 ∉ seconds) (hcolon : 58 ∉ seconds) (hdate : IsDate y m d) :
    readDelimited (delimited ty tm td th tmi seconds) =
      match split 46 seconds with
      | [s] => .ok (valueOf y m d hh mi (natural s) 0)
      | [s, f] => .ok (valueOf y m d hh mi (natural s) (micro f))
      | _ => .error () := by
  have h32 : Http.isDigit 32 = false := by decide
  have h45 : Http.isDigit 45 = false := by decide
  have h58 : Http.isDigit 58 = false := by decide
  have hfront : 32 ∉ ty ++ 45 :: (tm ++ 45 :: td) := by
    simp [digits_not_mem hy.digits h32, digits_not_mem hm.digits h32, digits_not_mem hd.digits h32]
  have hback : 32 ∉ th ++ 58 :: (tmi ++ 58 :: seconds) := by
    simp [digits_not_mem hhh.digits h32, digits_not_mem hmi.digits h32, hblank]
  rw [readDelimited, delimited_eq, Strings.split_append hfront, Strings.split_of_not_mem hback]
  simp only [Strings.split_append (digits_not_mem hy.digits h45),
    Strings.split_append (digits_not_mem hm.digits h45),
    Strings.split_of_not_mem (digits_not_mem hd.digits h45),
    Strings.split_append (digits_not_mem hhh.digits h58),
    Strings.split_append (digits_not_mem hmi.digits h58), Strings.split_of_not_mem hcolon,
    hy.natural_eq, hm.natural_eq, hd.natural_eq, hhh.natural_eq, hmi.natural_eq, if_pos hdate]

/-- Such a parser does what is said of `time_from_string`. -/
lemma readsTimes_readDelimited : ReadsTimes readDelimited := by
  intro ty tm td th tmi ts y m d hh mi s hy hm hd hhh hmi hs hdate _ _ _
  have h32 : Http.isDigit 32 = false := by decide
  have h46 : Http.isDigit 46 = false := by decide
  have h58 : Http.isDigit 58 = false := by decide
  constructor
  · rw [readDelimited_delimited hy hm hd hhh hmi (digits_not_mem hs.digits h32)
      (digits_not_mem hs.digits h58) hdate,
      Strings.split_of_not_mem (digits_not_mem hs.digits h46)]
    simp only [hs.natural_eq]
  · intro f _ hf
    have hblank : 32 ∉ ts ++ 46 :: f := by
      simp [digits_not_mem hs.digits h32, digits_not_mem hf h32]
    have hcolon : 58 ∉ ts ++ 46 :: f := by
      simp [digits_not_mem hs.digits h58, digits_not_mem hf h58]
    rw [readDelimited_delimited hy hm hd hhh hmi hblank hcolon hdate,
      Strings.split_append (digits_not_mem hs.digits h46),
      Strings.split_of_not_mem (digits_not_mem hf h46)]
    simp only [hs.natural_eq]

/-- Boost with this parser, and without the others. -/
def delimitedParsers : Parsers Unit where
  timeFromString := readDelimited
  fromIsoString _ := .error ()
  fromString _ := .error ()
  fromUndelimitedString _ := .error ()
  durationFromString _ := .error ()

/-- Five seconds and ten microseconds, whose text has seven digits behind its point. -/
theorem text_round_trip_five_seconds :
    ∃ ts, str (newYear + 5000010 : ℤ) = .ok ts ∧
      ofString delimitedParsers ts = .ok (newYear + 5000010 : ℤ) :=
  (text_round_trip delimitedParsers readsTimes_readDelimited).2 _ (by decide)

/-- The day after the last date has no text. -/
theorem no_text_beyond_last_date : Datetime.max + (ticksPerDay : ℤ) ≠ ⊤ ∧
    str (Datetime.max + (ticksPerDay : ℤ)) = .error .badDate ∧
    ¬ ∃ ts, str (Datetime.max + (ticksPerDay : ℤ)) = .ok ts ∧
      ofString delimitedParsers ts = .ok (Datetime.max + (ticksPerDay : ℤ)) := by
  have hvalue : Datetime.max + (ticksPerDay : ℤ) = ((maxDay + 1) * ticksPerDay : ℤ) := by
    decide +kernel
  have hstr : str ((maxDay + 1) * ticksPerDay : ℤ) = .error .badDate := by decide +kernel
  rw [hvalue]
  refine ⟨WithTop.coe_ne_top, hstr, ?_⟩
  rintro ⟨ts, hts, -⟩
  rw [hstr] at hts
  cases hts

end HkuUtils.Datetime
