import Mathlib.Data.List.Basic
import HkuUtils.CString

set_option relaxedAutoImplicit false
set_option autoImplicit false

/-!
# Escaping of URLs

The functions `url_escape` and `url_unescape` of `url.cpp`. The first formats a byte as a signed
`char`, and the buffer for that has place for three characters.

## Main definitions

* `HkuUtils.Url.urlEscape`, `urlUnescape` — the functions.
* `HkuUtils.Url.Escaped` — texts of unreserved characters and triplets.
* `HkuUtils.Url.unescaped` — the byte that comes back for a byte.

## Main results

* `HkuUtils.Url.szHex_eq` — what is written for a byte.
* `HkuUtils.Url.escaped_urlEscape` — the text that is written.
* `HkuUtils.Url.urlUnescape_urlEscape` — every byte becomes the one that comes back.
* `HkuUtils.Url.url_round_trip`, `umlaut_lost` — when a string comes back.

## Design

A string is the list of its bytes; its end is the end of the list or the first zero byte. The digits
of `%02X` are those of the `unsigned int` to which the `char` is extended with its sign.
-/

namespace HkuUtils.Url

/-! ## Characters -/

/-- `IS_ALPHA`. -/
def isAlpha (c : UInt8) : Bool := (97 ≤ c && c ≤ 122) || (65 ≤ c && c ≤ 90)

/-- `IS_NUMBER`. -/
def isNumber (c : UInt8) : Bool := 48 ≤ c && c ≤ 57

/-- `IS_ALPHANUM`. -/
def isAlphanum (c : UInt8) : Bool := isAlpha c || isNumber c

/-- `IS_HEX`. -/
def isHex (c : UInt8) : Bool := isNumber c || (97 ≤ c && c ≤ 102) || (65 ≤ c && c ≤ 70)

/-- `is_unambiguous`: letters, digits and `-`, `_`, `.`, `~`. -/
def isUnambiguous (c : UInt8) : Bool :=
  isAlphanum c || c == 45 || c == 95 || c == 46 || c == 126

/-- `hex2i`. -/
def hex2i (hex : UInt8) : UInt8 :=
  if hex ≤ 57 then hex - 48 else if hex ≤ 70 then hex - 65 + 10 else hex - 97 + 10

/-! ## Formatting -/

/-- A digit of `%X`. -/
def hexDigit (n : UInt32) : UInt8 := if n < 10 then n.toUInt8 + 48 else n.toUInt8 + 55

/-- All eight digits of a number. -/
def hexDigits (n : UInt32) : List UInt8 :=
  ([28, 24, 20, 16, 12, 8, 4, 0] : List UInt32).map fun k => hexDigit (n >>> k &&& 15)

/-- `%02X`: the digits without the zeros that lead, but at least two. -/
def format02X (n : UInt32) : List UInt8 :=
  let digits := (hexDigits n).dropWhile (· == 48)
  List.replicate (2 - digits.length) 48 ++ digits

/-- The `unsigned int` for a `char` that has a sign. -/
def promoted (c : UInt8) : UInt32 := c.toInt8.toInt32.toUInt32

/-- `snprintf(szHex, 4, "%%%02X", c)`: one byte of the buffer is for the zero at the end. -/
def szHex (c : UInt8) : List UInt8 := (37 :: format02X (promoted c)).take 3

/-! ## The functions -/

/-- What `url_escape` writes for a byte. -/
def escapeByte (c : UInt8) : List UInt8 := if isUnambiguous c then [c] else szHex c

/-- `url_escape`. -/
def urlEscape : List UInt8 → List UInt8
  | [] => []
  | c :: p => if c = 0 then [] else escapeByte c ++ urlEscape p

/-- `url_unescape`. -/
def urlUnescape : List UInt8 → List UInt8
  | [] => []
  | 37 :: h :: l :: p =>
    if isHex h && isHex l then (hex2i h <<< 4 ||| hex2i l) :: urlUnescape p
    else 37 :: urlUnescape (h :: l :: p)
  | c :: p => if c = 0 then [] else c :: urlUnescape p

/-- Texts of unreserved characters and of triplets `%XX`. -/
inductive Escaped : List UInt8 → Prop where
  | nil : Escaped []
  | unreserved (c : UInt8) (t : List UInt8) (hc : isUnambiguous c = true) (ht : Escaped t) :
    Escaped (c :: t)
  | triplet (h l : UInt8) (t : List UInt8) (hh : isHex h = true) (hl : isHex l = true)
    (ht : Escaped t) : Escaped (37 :: h :: l :: t)

/-- The byte that comes back: all bytes from `128` on are written as `%FF`. -/
def unescaped (c : UInt8) : UInt8 := if c < 128 then c else 255

/-! ## One byte -/

/-- The first digit of a byte. -/
def high (c : UInt8) : UInt8 := hexDigit (c.toUInt32 >>> 4)

/-- The second digit of a byte. -/
def low (c : UInt8) : UInt8 := hexDigit (c.toUInt32 &&& 15)

/-- The digits of a byte are read as the byte. -/
lemma hex2i_digits (c : UInt8) :
    isHex (high c) = true ∧ isHex (low c) = true ∧ hex2i (high c) <<< 4 ||| hex2i (low c) = c := by
  refine CString.forall_byte (P := fun c => isHex (high c) = true ∧ isHex (low c) = true ∧
    hex2i (high c) <<< 4 ||| hex2i (low c) = c) ?_ c
  decide +kernel

/-- The buffer has the digits of the byte that comes back: with its sign, a byte from `128` on is
extended by ones, of which two digits are left. -/
lemma szHex_eq {c : UInt8} (hc : c ≠ 0) :
    szHex c = [37, high (unescaped c), low (unescaped c)] := by
  revert hc
  refine CString.forall_byte (P := fun c => c ≠ 0 → szHex c =
    [37, high (unescaped c), low (unescaped c)]) ?_ c
  decide +kernel

/-- An unreserved character is below `128`, and neither `%` nor zero. -/
lemma isUnambiguous_bound {c : UInt8} (hc : isUnambiguous c = true) :
    unescaped c = c ∧ c ≠ 37 ∧ c ≠ 0 := by
  revert hc
  refine CString.forall_byte (P := fun c => isUnambiguous c = true →
    unescaped c = c ∧ c ≠ 37 ∧ c ≠ 0) ?_ c
  decide +kernel

/-- A triplet is read as its byte. -/
lemma urlUnescape_triplet {h l : UInt8} (hh : isHex h = true) (hl : isHex l = true)
    (t : List UInt8) :
    urlUnescape (37 :: h :: l :: t) = (hex2i h <<< 4 ||| hex2i l) :: urlUnescape t := by
  rw [urlUnescape, hh, hl]
  rfl

/-- Another character is read as it is. -/
lemma urlUnescape_cons {c : UInt8} (hc : c ≠ 37) (hzero : c ≠ 0) (t : List UInt8) :
    urlUnescape (c :: t) = c :: urlUnescape t := by
  rw [urlUnescape, if_neg hzero]
  intro h l p hp
  exact absurd hp hc

/-- What is written for a byte is read as the byte that comes back. -/
lemma urlUnescape_escapeByte {c : UInt8} (hc : c ≠ 0) (t : List UInt8) :
    urlUnescape (escapeByte c ++ t) = unescaped c :: urlUnescape t := by
  by_cases h : isUnambiguous c = true
  · obtain ⟨hself, hpercent, hzero⟩ := isUnambiguous_bound h
    rw [escapeByte, if_pos h, List.singleton_append, urlUnescape_cons hpercent hzero, hself]
  · obtain ⟨hhigh, hlow, hvalue⟩ := hex2i_digits (unescaped c)
    rw [escapeByte, if_neg h, szHex_eq hc]
    rw [List.cons_append, List.cons_append, List.singleton_append,
      urlUnescape_triplet hhigh hlow, hvalue]

/-- What is written for a byte is an unreserved character or a triplet. -/
lemma escaped_escapeByte {c : UInt8} (hc : c ≠ 0) {t : List UInt8} (ht : Escaped t) :
    Escaped (escapeByte c ++ t) := by
  by_cases h : isUnambiguous c = true
  · rw [escapeByte, if_pos h]
    exact .unreserved c t h ht
  · obtain ⟨hhigh, hlow, -⟩ := hex2i_digits (unescaped c)
    rw [escapeByte, if_neg h, szHex_eq hc]
    exact .triplet _ _ t hhigh hlow ht

/-! ## Strings -/

/-- **Every byte becomes the one that comes back.** -/
lemma urlUnescape_urlEscape {s : List UInt8} (h : 0 ∉ s) :
    urlUnescape (urlEscape s) = s.map unescaped := by
  induction s with
  | nil => rfl
  | cons c s ih =>
    obtain ⟨hc, hs⟩ := not_or.mp (mt List.mem_cons.mpr h)
    rw [urlEscape, if_neg (Ne.symm hc), urlUnescape_escapeByte (Ne.symm hc), ih hs, List.map_cons]

/-- **The text is escaped**, whichever bytes are written. -/
lemma escaped_urlEscape (s : List UInt8) : Escaped (urlEscape s) := by
  induction s with
  | nil => exact .nil
  | cons c s ih =>
    rw [urlEscape]
    split
    · exact .nil
    · rename_i hc
      exact escaped_escapeByte hc ih

/-- The bytes that come back as they are. -/
lemma unescaped_eq_self_iff (c : UInt8) : unescaped c = c ↔ c < 128 ∨ c = 255 := by
  unfold unescaped
  split
  · rename_i h
    exact ⟨fun _ => Or.inl h, fun _ => rfl⟩
  · rename_i h
    exact ⟨fun heq => Or.inr heq.symm, fun hor => (hor.resolve_left h).symm⟩

/-- **When a string comes back**: exactly if each byte is below `128`, or `255`. The text between
consists of unreserved characters and triplets in any case.

**Proof sketch.** Escaping and unescaping a text is escaping and unescaping each byte, and this
gives a byte back exactly if it is in ASCII or is `255`. -/
theorem url_round_trip {s : List UInt8} (h : 0 ∉ s) :
    (urlUnescape (urlEscape s) = s ∧ Escaped (urlEscape s) ↔ ∀ c ∈ s, c < 128 ∨ c = 255) ∧
    Escaped (urlEscape s) := by
  refine ⟨?_, escaped_urlEscape s⟩
  rw [and_iff_left (escaped_urlEscape s), urlUnescape_urlEscape h]
  calc s.map unescaped = s
    _ ↔ s.map unescaped = s.map id := by rw [List.map_id]
    _ ↔ ∀ c ∈ s, unescaped c = c := List.map_inj_left
    _ ↔ ∀ c ∈ s, c < 128 ∨ c = 255 := forall₂_congr fun c _ => unescaped_eq_self_iff c

/-- The string `a b`. -/
theorem url_round_trip_blank :
    urlUnescape (urlEscape [97, 32, 98]) = [97, 32, 98] :=
  ((url_round_trip (s := [97, 32, 98]) (by decide)).1.mpr (by decide +kernel)).1

/-- The letter `ü` in UTF-8 does not come back. -/
theorem umlaut_lost : urlEscape [0xC3, 0xBC] = [37, 70, 70, 37, 70, 70] ∧
    urlUnescape (urlEscape [0xC3, 0xBC]) ≠ [0xC3, 0xBC] := by
  decide +kernel

end HkuUtils.Url
