import HkuUtils.Decimal
import HkuUtils.Json.Escapes

set_option relaxedAutoImplicit false
set_option autoImplicit false

/-!
# Numbers in texts of JSON

Integers in decimal and numbers in the format `%g` are numbers of JSON. They are read up to a
character that is no part of a number.

## Main definitions

* `Json.EndsNumber` — no number goes on here.
* `Json.decimalInt` — an integer in decimal, with its sign.

## Main results

* `Json.number_decimalInt` — an integer is read exactly.
* `Json.number_general` — a number with six digits is read.
* `Json.weight_eq_zero_of_isNumeric` — numbers weigh nothing.
-/

namespace Json

open Decimal (Leading Exponent point general)
open Http (decimal isDigit)

/-- No number goes on at the beginning of this text. -/
def EndsNumber (s : List UInt8) : Prop :=
  ∀ c ∈ s.head?, isDigit c = false ∧ c ≠ 46 ∧ c ≠ 101 ∧ c ≠ 69

instance : DecidablePred EndsNumber := fun s => inferInstanceAs (Decidable (∀ c ∈ s.head?, _))

/-! ## Reading digits -/

/-- Digits are read up to the first character that is none. -/
lemma digits_append {ds r : List UInt8} (hne : ds ≠ []) (hds : ∀ c ∈ ds, isDigit c = true)
    (hr : ∀ c ∈ r.head?, isDigit c = false) : digits (ds ++ r) = some (ds, r) := by
  have htake : (ds ++ r).takeWhile isDigit = ds := by
    rw [List.takeWhile_append_of_pos hds]
    cases r with
    | nil => simp
    | cons c r => rw [List.takeWhile_cons_of_neg (by simp [hr c rfl]), List.append_nil]
  have hdrop : (ds ++ r).dropWhile isDigit = r := by
    rw [List.dropWhile_append_of_pos hds]
    cases r with
    | nil => rfl
    | cons c r => exact List.dropWhile_cons_of_neg (by simp [hr c rfl])
  rw [digits, htake, hdrop, if_neg hne]

/-- The whole part of a number is read up to what is no digit. -/
lemma integer_append {ds r : List UInt8} (h : Leading ds)
    (hr : ∀ c ∈ r.head?, isDigit c = false) : integer (ds ++ r) = some (ds, r) := by
  rw [integer, digits_append h.ne_nil h.isDigit hr, Option.bind_some, if_neg]
  rintro ⟨hzero, hne⟩
  exact hne (h.zero hzero)

/-- The decimals of a number are read up to what is no digit. -/
lemma fraction_append {ds r : List UInt8} (hds : ∀ c ∈ ds, isDigit c = true)
    (hr : ∀ c ∈ r.head?, isDigit c = false ∧ c ≠ 46) :
    fraction (point ds ++ r) = some (ds, r) := by
  rw [point]
  split
  next hnil =>
    have hhead : r.head? ≠ some 46 := fun h => (hr 46 h).2 rfl
    rw [List.nil_append, fraction, if_neg hhead, hnil]
  next hne =>
    rw [List.cons_append, fraction, List.head?_cons, if_pos rfl, List.tail_cons,
      digits_append hne hds fun c hc => (hr c hc).1]

/-- There may be no exponent. -/
lemma exponent_of_ends {r : List UInt8} (hr : EndsNumber r) : Json.exponent r = some (0, r) := by
  rw [Json.exponent, if_neg]
  rintro (h | h)
  · exact (hr 101 h).2.2.1 rfl
  · exact (hr 69 h).2.2.2 rfl

/-- An exponent is read whatever follows, if that can follow a number. -/
lemma exponent_append {x : List UInt8} (hx : Exponent x) :
    ∃ e, ∀ r, EndsNumber r → Json.exponent (x ++ r) = some (e, r) := by
  rcases hx with rfl | ⟨s, ds, hs, hne, hds, rfl⟩
  · exact ⟨0, fun r hr => exponent_of_ends hr⟩
  · have hread : ∀ r, EndsNumber r → digits (ds ++ r) = some (ds, r) :=
      fun r hr => digits_append hne hds fun c hc => (hr c hc).1
    rcases hs with rfl | rfl
    · exact ⟨natural ds, fun r hr => by simp [Json.exponent, hread r hr]⟩
    · exact ⟨-natural ds, fun r hr => by simp [Json.exponent, hread r hr]⟩

/-! ## Integers -/

/-- An integer in decimal. -/
def decimalInt (x : ℤ) : List UInt8 :=
  if x < 0 then 45 :: decimal x.natAbs else decimal x.natAbs

/-- Digits give their number. -/
lemma natural_decimal (n : ℕ) : natural (decimal n) = n := by
  have hread := Http.number_decimal n
  rw [Http.number] at hread
  split at hread
  · exact Option.some.inj hread
  · cases hread

/-- A number without a sign is read whatever follows, if that can follow a number. -/
lemma unsigned_decimal (n : ℕ) {r : List UInt8} (hr : EndsNumber r) :
    unsigned (decimal n ++ r) = some ((n, 0), r) := by
  have hfraction : fraction (point [] ++ r) = some ([], r) :=
    fraction_append (by simp) fun c hc => ⟨(hr c hc).1, (hr c hc).2.1⟩
  rw [point, if_pos rfl, List.nil_append] at hfraction
  rw [unsigned, integer_append (Decimal.leading_decimal n) fun c hc => (hr c hc).1]
  simp [hfraction, exponent_of_ends hr, natural_decimal]

/-- Digits do not begin with a sign. -/
lemma Leading.head_ne {ds : List UInt8} (h : Leading ds) (r : List UInt8) :
    (ds ++ r).head? ≠ some 45 := by
  cases ds with
  | nil => exact absurd rfl h.ne_nil
  | cons c ds =>
    rw [List.cons_append, List.head?_cons]
    rintro hc
    have hdigit := h.isDigit c List.mem_cons_self
    rw [Option.some.inj hc] at hdigit
    exact absurd hdigit (by decide)

/-- **An integer is read exactly.** -/
theorem number_decimalInt (x : ℤ) {r : List UInt8} (hr : EndsNumber r) :
    number (decimalInt x ++ r) = some (.number x 0, r) := by
  rw [decimalInt]
  split
  next hneg =>
    have habs : -(x.natAbs : ℤ) = x := by omega
    rw [List.cons_append, number, List.head?_cons, if_pos rfl, List.tail_cons,
      unsigned_decimal _ hr, Option.map_some, habs]
  next hneg =>
    have habs : (x.natAbs : ℤ) = x := by omega
    rw [number, if_neg (Leading.head_ne (Decimal.leading_decimal _) r), unsigned_decimal _ hr,
      Option.map_some, habs]

/-! ## Numbers with six digits -/

/-- The magnitude of a number, as the writer gives it, is read whatever follows.

**Proof sketch.** The text has an integer part, perhaps a fraction, and perhaps an exponent, and
each of them ends where the next one begins. -/
lemma unsigned_magnitude (a : ℚ) :
    ∃ m, ∀ r, EndsNumber r → unsigned (Decimal.magnitude a ++ r) = some (m, r) := by
  obtain ⟨i, f, x, heq, hi, hf, hx⟩ := Decimal.magnitude_parts a
  obtain ⟨e, he⟩ := exponent_append hx
  refine ⟨(natural (i ++ f), e - f.length), fun r hr => ?_⟩
  have hexponent : ∀ c ∈ (x ++ r).head?, isDigit c = false ∧ c ≠ 46 := by
    rcases hx with rfl | ⟨s, ds, -, -, -, rfl⟩
    · exact fun c hc => ⟨(hr c hc).1, (hr c hc).2.1⟩
    · intro c hc
      obtain rfl := Option.some.inj hc
      decide
  have hpoint : ∀ c ∈ (point f ++ (x ++ r)).head?, isDigit c = false := by
    rw [point]
    split
    · exact fun c hc => (hexponent c hc).1
    · intro c hc
      obtain rfl := Option.some.inj hc
      rfl
  rw [heq, List.append_assoc, List.append_assoc, unsigned, integer_append hi hpoint,
    Option.bind_some, fraction_append hf hexponent, Option.bind_some, he r hr, Option.map_some]

/-- Nor does the text of a positive number. -/
lemma magnitude_head_ne (a : ℚ) (r : List UInt8) :
    (Decimal.magnitude a ++ r).head? ≠ some 45 := by
  obtain ⟨i, f, x, heq, hi, -, -⟩ := Decimal.magnitude_parts a
  rw [heq, List.append_assoc]
  exact Leading.head_ne hi _

/-- **A number with six digits is read.** -/
theorem number_general (q : ℚ) :
    ∃ m e, ∀ r, EndsNumber r → number (general q ++ r) = some (.number m e, r) := by
  rw [general]
  split_ifs
  · exact ⟨0, 0, fun r => number_decimalInt 0⟩
  · obtain ⟨m, hm⟩ := unsigned_magnitude (-q)
    refine ⟨-m.1, m.2, fun r hr => ?_⟩
    rw [List.cons_append, number, List.head?_cons, if_pos rfl, List.tail_cons, hm r hr,
      Option.map_some]
  · obtain ⟨m, hm⟩ := unsigned_magnitude q
    refine ⟨m.1, m.2, fun r hr => ?_⟩
    rw [number, if_neg (magnitude_head_ne q r), hm r hr, Option.map_some]

/-! ## What numbers need -/

/-- The characters of numbers weigh nothing. -/
lemma weight_eq_zero_of_isNumeric {s : List UInt8} (h : ∀ c ∈ s, Decimal.isNumeric c = true) :
    weight s = 0 := by
  have hlight : ∀ c, Decimal.isNumeric c = true → heavy c = false :=
    CString.forall_byte (by decide +kernel)
  exact List.countP_eq_zero.mpr fun c hc => by simp [hlight c (h c hc)]

end Json
