import HkuUtils.Base64.Model

set_option relaxedAutoImplicit false
set_option autoImplicit false

/-!
# What the encoders write and the decoder reads

The standard says what Base64 is by bits: the bits of the bytes are cut into digits of six, the last
one is filled with zeros, and the text is filled to groups of four with `=`. The encoder writes this
text, if it ends, but fills with `.` in the alphabet for URLs. The decoder reads the bytes from the
digits, with or without the letters that fill the last group. It throws where a letter is neither a
digit nor in a place for such a letter.

## Main definitions

* `Base64.digits`, `standard` — the digits of some bytes, and their text.
* `Base64.written` — the text with the fill letters of the encoder.
* `Base64.bytesOf` — the bytes of some digits.
* `Base64.Legal` — a letter of a text can be read.

## Main results

* `Base64.encode_standard` — when the encoder ends, and what it writes.
* `Base64.decode_encode` — what the encoders write is read again.
* `Base64.decode_digits` — what is read of digits.
* `Base64.decode_throws_iff` — when the decoder throws.
-/

namespace Base64

open Blocks

/-! ## The standard -/

/-- The digit of up to six bits, filled with zeros. -/
def digit (s : List Bool) : ℕ := value (s ++ List.replicate (6 - s.length) false)

/-- The digits of some bytes. -/
def digits (bytes : List UInt8) : List ℕ :=
  (blocks 6 (bytes.flatMap fun b => bits 8 b.toNat)).map digit

/-- The text of some bytes with a fill letter, filled to groups of four. -/
def filled (url : Bool) (fill : UInt8) (bytes : List UInt8) : List UInt8 :=
  let text := (digits bytes).map (base64Char url)
  text ++ List.replicate ((4 - text.length % 4) % 4) fill

/-- **The text of the standard.** Both alphabets fill with `=`. -/
def standard (url : Bool) (bytes : List UInt8) : List UInt8 := filled url 61 bytes

/-- The text that the encoder is to write: the one of the standard, but that the alphabet for URLs
fills with `.` here. -/
def written (url : Bool) (bytes : List UInt8) : List UInt8 :=
  if url then (standard true bytes).map fun c => if c = 61 then 46 else c else standard false bytes

/-- The bytes of blocks of eight bits, without a last one that is shorter. -/
def wholeBytes (l : List (List Bool)) : List UInt8 :=
  (l.filter (·.length == 8)).map fun s => UInt8.ofNat (value s)

/-- The bytes of some digits. -/
def bytesOf (ds : List ℕ) : List UInt8 := wholeBytes (blocks 8 (ds.flatMap (bits 6)))

/-! ## Letters -/

/-- The decoder reads each letter of either alphabet as the index that it has there. -/
lemma posOfChar_base64Char (url : Bool) {i : ℕ} (hi : i < 64) :
    posOfChar (base64Char url i) = .ok i := by
  have h : ∀ url : Bool, ∀ i < 64, (posOfChar (base64Char url i)).toOption = some i := by
    decide +kernel
  have hsome := h url i hi
  cases hpos : posOfChar (base64Char url i) with
  | error e => simp [hpos, Except.toOption] at hsome
  | ok j => simpa [hpos, Except.toOption] using hsome

/-- The decoder knows the letter that fills a group, in either alphabet. -/
@[simp] lemma isTrailing_trailingChar (url : Bool) : isTrailing (trailingChar url) = true := by
  cases url <;> rfl

/-- A letter of the text is no line feed. -/
lemma base64Char_ne (url : Bool) {i : ℕ} (hi : i < 64) : base64Char url i ≠ 10 := by
  have h : ∀ url : Bool, ∀ i < 64, base64Char url i ≠ 10 := by decide +kernel
  exact h url i hi

/-- The letter that fills a group is no line feed. -/
lemma trailingChar_ne (url : Bool) : trailingChar url ≠ 10 := by
  cases url <;> decide

/-! ## Masks and shifts -/

/-- What the masks of the encoder leave of a byte. -/
lemma masks {n : ℕ} (h : n < 256) :
    (n &&& 0xfc) >>> 2 = n / 4 ∧ (n &&& 0x03) <<< 4 = n % 4 * 16 ∧ (n &&& 0xf0) >>> 4 = n / 16 ∧
      (n &&& 0x0f) <<< 2 = n % 16 * 4 ∧ (n &&& 0xc0) >>> 6 = n / 64 ∧ n &&& 0x3f = n % 64 := by
  have hall : ∀ n < 256, (n &&& 0xfc) >>> 2 = n / 4 ∧ (n &&& 0x03) <<< 4 = n % 4 * 16 ∧
      (n &&& 0xf0) >>> 4 = n / 16 ∧ (n &&& 0x0f) <<< 2 = n % 16 * 4 ∧
      (n &&& 0xc0) >>> 6 = n / 64 ∧ n &&& 0x3f = n % 64 := by decide +kernel
  exact hall n h

/-- What those of the decoder leave of a digit. -/
lemma digit_masks {p : ℕ} (h : p < 64) :
    p <<< 2 = p * 4 ∧ (p &&& 0x30) >>> 4 = p / 16 ∧ (p &&& 0x0f) <<< 4 = p % 16 * 16 ∧
      (p &&& 0x3c) >>> 2 = p / 4 ∧ (p &&& 0x03) <<< 6 = p % 4 * 64 := by
  have hall : ∀ p < 64, p <<< 2 = p * 4 ∧ (p &&& 0x30) >>> 4 = p / 16 ∧
      (p &&& 0x0f) <<< 4 = p % 16 * 16 ∧ (p &&& 0x3c) >>> 2 = p / 4 ∧
      (p &&& 0x03) <<< 6 = p % 4 * 64 := by decide +kernel
  exact hall p h

/-! ## One block of the encoder -/

/-- A value of a byte. -/
lemma byte_lt (a : UInt8) : a.toNat < 256 := a.toNat_lt

/-- A last block of one byte gives two letters and is filled with two. -/
lemma encodeBlock_one (url : Bool) (a : UInt8) : encodeBlock url [a] =
    [base64Char url (a.toNat / 4), base64Char url (a.toNat % 4 * 16), trailingChar url,
      trailingChar url] := by
  simp [encodeBlock, encodeChunk, uint, masks (byte_lt a)]

/-- A last block of two bytes gives three letters and is filled with one. -/
lemma encodeBlock_two (url : Bool) (a b : UInt8) : encodeBlock url [a, b] =
    [base64Char url (a.toNat / 4), base64Char url (a.toNat % 4 * 16 + b.toNat / 16),
      base64Char url (b.toNat % 16 * 4), trailingChar url] := by
  simp [encodeBlock, encodeChunk, uint, masks (byte_lt a), masks (byte_lt b)]

/-- A block of three bytes gives four letters. -/
lemma encodeBlock_three (url : Bool) (a b c : UInt8) : encodeBlock url [a, b, c] =
    [base64Char url (a.toNat / 4), base64Char url (a.toNat % 4 * 16 + b.toNat / 16),
      base64Char url (b.toNat % 16 * 4 + c.toNat / 64), base64Char url (c.toNat % 64)] := by
  simp [encodeBlock, encodeChunk, uint, masks (byte_lt a), masks (byte_lt b), masks (byte_lt c)]

/-! ## The digits of a block -/

/-- The bits of a byte, cut at one place. -/
lemma bits_byte (a : UInt8) {w k : ℕ} (h : w + k = 8) :
    bits 8 a.toNat = bits w (a.toNat / 2 ^ k) ++ bits k a.toNat := by
  rw [← h, bits_add]

/-- The digit of some bits and the low bits of a number behind them, filled with zeros. -/
lemma digit_append (s : List Bool) (w v : ℕ) :
    digit (s ++ bits w v) =
      (value s * 2 ^ w + v % 2 ^ w) * 2 ^ (6 - (s.length + w)) := by
  rw [digit, value_append_zeros, value_append, value_bits, length_bits, List.length_append,
    length_bits]

/-- The digit of the low bits of a number, filled with zeros. -/
lemma digit_bits (w v : ℕ) : digit (bits w v) = v % 2 ^ w * 2 ^ (6 - w) := by
  rw [digit, value_append_zeros, value_bits, length_bits]

/-- A block that is not full is the last one. -/
lemma blocks_last {n : ℕ} {s : List Bool} (hn : 0 < n) (hs : s ≠ []) (hlen : s.length ≤ n) :
    blocks n s = [s] := by
  rw [blocks_of_ne_nil hn hs, List.take_of_length_le hlen, List.drop_eq_nil_of_le hlen,
    blocks_nil]

/-- There are bits where some are asked for. -/
lemma bits_ne_nil {w v : ℕ} (h : 0 < w) : bits w v ≠ [] :=
  List.ne_nil_of_length_pos (by simpa using h)

/-- One byte has two digits. The second is filled with four zeros. -/
lemma digits_one (a : UInt8) : digits [a] = [a.toNat / 4, a.toNat % 4 * 16] := by
  have ha := byte_lt a
  rw [digits, List.flatMap_singleton, bits_byte a (show 6 + 2 = 8 by rfl),
    blocks_append_of_length (by omega) (by simp),
    blocks_last (by omega) (bits_ne_nil (by omega)) (by simp)]
  simp only [List.map_cons, List.map_nil, digit_bits, List.cons.injEq, and_true]
  omega

/-- Two bytes have three digits. The third is filled with two zeros. -/
lemma digits_two (a b : UInt8) : digits [a, b] =
    [a.toNat / 4, a.toNat % 4 * 16 + b.toNat / 16, b.toNat % 16 * 4] := by
  have ha := byte_lt a
  have hb := byte_lt b
  have hbits : ([a, b].flatMap fun b => bits 8 b.toNat) = bits 6 (a.toNat / 2 ^ 2) ++
      ((bits 2 a.toNat ++ bits 4 (b.toNat / 2 ^ 4)) ++ bits 4 b.toNat) := by
    rw [List.flatMap_cons, List.flatMap_singleton, bits_byte a (show 6 + 2 = 8 by rfl),
      bits_byte b (show 4 + 4 = 8 by rfl)]
    simp only [List.append_assoc]
  rw [digits, hbits, blocks_append_of_length (by omega) (by simp),
    blocks_append_of_length (by omega) (by simp),
    blocks_last (by omega) (bits_ne_nil (by omega)) (by simp)]
  simp only [List.map_cons, List.map_nil, digit_bits, digit_append, value_bits, length_bits,
    List.cons.injEq, and_true]
  omega

/-- The digits of three bytes are in front of those of the others.

**Proof sketch.** The 24 bits of the bytes are cut once more where the digits begin, two bits into
the second byte and four into the third; each digit is then a block of its own. -/
lemma digits_three (a b c : UInt8) (l : List UInt8) : digits (a :: b :: c :: l) =
    [a.toNat / 4, a.toNat % 4 * 16 + b.toNat / 16, b.toNat % 16 * 4 + c.toNat / 64,
      c.toNat % 64] ++ digits l := by
  have ha := byte_lt a
  have hb := byte_lt b
  have hc := byte_lt c
  have hbits : ((a :: b :: c :: l).flatMap fun b => bits 8 b.toNat) =
      bits 6 (a.toNat / 2 ^ 2) ++ ((bits 2 a.toNat ++ bits 4 (b.toNat / 2 ^ 4)) ++
        ((bits 4 b.toNat ++ bits 2 (c.toNat / 2 ^ 6)) ++ (bits 6 c.toNat ++
          l.flatMap fun b => bits 8 b.toNat))) := by
    rw [List.flatMap_cons, List.flatMap_cons, List.flatMap_cons,
      bits_byte a (show 6 + 2 = 8 by rfl), bits_byte b (show 4 + 4 = 8 by rfl),
      bits_byte c (show 2 + 6 = 8 by rfl)]
    simp only [List.append_assoc]
  rw [digits, hbits, blocks_append_of_length (by omega) (by simp),
    blocks_append_of_length (by omega) (by simp), blocks_append_of_length (by omega) (by simp),
    blocks_append_of_length (by omega) (by simp), digits]
  simp only [List.map_cons, digit_bits, digit_append, value_bits, length_bits, List.cons_append,
    List.nil_append, List.cons.injEq, and_true]
  omega

/-! ## What is written -/

/-- The standard, block by block. -/
lemma filled_three (url : Bool) (a b c : UInt8) (l : List UInt8) :
    filled url (trailingChar url) (a :: b :: c :: l) =
      encodeBlock url [a, b, c] ++ filled url (trailingChar url) l := by
  rw [filled, filled, digits_three, encodeBlock_three, List.map_append, List.append_assoc]
  congr 3
  simp
  omega

/-- **What is written block by block** is the text of the standard. -/
theorem flatMap_encodeBlock (url : Bool) : ∀ bytes : List UInt8,
    (blocks 3 bytes).flatMap (encodeBlock url) = filled url (trailingChar url) bytes
  | [] => by simp [filled, digits]
  | [a] => by
    rw [blocks_of_ne_nil (by omega) (by simp), filled, digits_one]
    simp [encodeBlock_one, List.replicate]
  | [a, b] => by
    rw [blocks_of_ne_nil (by omega) (by simp), filled, digits_two]
    simp [encodeBlock_two]
  | a :: b :: c :: l => by
    rw [blocks_of_ne_nil (by omega) (by simp), List.flatMap_cons, List.drop_succ_cons,
      List.drop_succ_cons, List.drop_succ_cons, List.drop_zero, flatMap_encodeBlock url l,
      filled_three, List.take_succ_cons, List.take_succ_cons, List.take_succ_cons,
      List.take_zero]

/-- The encoder ends, with the text of the standard. -/
lemma base64Encode_eq {bytes : List UInt8} (url : Bool) (hlen : bytes.length < 2 ^ 32) {fuel : ℕ}
    (hfuel : bytes.length / 3 + 2 ≤ fuel) :
    base64Encode bytes url fuel = some (filled url (trailingChar url) bytes) := by
  rw [base64Encode]
  by_cases hnil : bytes.length = 0
  · rw [if_pos hnil, List.length_eq_zero_iff.mp hnil]
    simp [filled, digits]
  · obtain ⟨turns, rfl⟩ : ∃ turns, fuel = turns + 1 := ⟨fuel - 1, by omega⟩
    rw [if_neg hnil, encodeLoop_eq url hlen (dvd_zero 3) (by omega) (by omega),
      flatMap_encodeBlock, List.nil_append, List.drop_zero]

/-! ## What is read of a block -/

/-- The digit of a letter. -/
def digitOf (c : UInt8) : ℕ := (posOfChar c).toOption.getD 0

/-- A letter of one of the alphabets. -/
def IsDigit (c : UInt8) : Prop := posOfChar c = .ok (digitOf c)

/-- A digit is less than 64. -/
lemma digitOf_lt (c : UInt8) : digitOf c < 64 := by
  have hc := byte_lt c
  rw [digitOf, posOfChar]
  split_ifs with h₁ h₂ h₃ h₄ h₅
  · simp only [UInt8.le_iff_toNat_le] at h₁
    simp [Except.toOption] at h₁ ⊢
    omega
  · simp only [UInt8.le_iff_toNat_le] at h₂
    simp [Except.toOption] at h₂ ⊢
    omega
  · simp only [UInt8.le_iff_toNat_le] at h₃
    simp [Except.toOption] at h₃ ⊢
    omega
  · simp [Except.toOption]
  · simp [Except.toOption]
  · simp [Except.toOption]

/-- A letter that is a digit fills no group. -/
lemma IsDigit.isTrailing {c : UInt8} (h : IsDigit c) : isTrailing c = false := by
  by_contra ht
  rw [Bool.not_eq_false, Base64.isTrailing, Bool.or_eq_true, beq_iff_eq, beq_iff_eq] at ht
  rcases ht with rfl | rfl
  · simp [IsDigit, posOfChar] at h
  · simp [IsDigit, posOfChar] at h

/-- The letters of either alphabet are digits. -/
lemma isDigit_base64Char (url : Bool) {i : ℕ} (hi : i < 64) : IsDigit (base64Char url i) := by
  rw [IsDigit, digitOf, posOfChar_base64Char url hi, Except.toOption, Option.getD_some]

/-- The digit of a letter is its index. -/
lemma digitOf_base64Char (url : Bool) {i : ℕ} (hi : i < 64) : digitOf (base64Char url i) = i := by
  rw [digitOf, posOfChar_base64Char url hi, Except.toOption, Option.getD_some]

/-- The text of the exception. -/
def invalid : String := "Input is not valid base64-encoded data."

/-- There is one text for all letters that are no digits. -/
lemma posOfChar_error {c : UInt8} {msg : String} (h : posOfChar c = .error msg) :
    msg = invalid := by
  rw [posOfChar] at h
  split_ifs at h
  exact (Except.error.inj h).symm

/-- A letter of no alphabet. -/
lemma error_of_not_isDigit {c : UInt8} (h : ¬ IsDigit c) : posOfChar c = .error invalid := by
  rw [IsDigit, digitOf] at h
  cases hc : posOfChar c with
  | ok p => simp [hc, Except.toOption] at h
  | error e => rw [posOfChar_error hc]

variable {behind c d e f : UInt8}

/-- Two letters, and at most letters that fill the group. -/
lemma readBlock_two (hc : IsDigit c) (hd : IsDigit d) {u : List UInt8}
    (hu : ∀ x, u.head? = some x → isTrailing x = true) :
    readBlock behind (c :: d :: u) = .ok [UInt8.ofNat (digitOf c * 4 + digitOf d / 16)] := by
  have hc' : posOfChar c = .ok (digitOf c) := hc
  have hd' : posOfChar d = .ok (digitOf d) := hd
  have hend : (decide (2 < (c :: d :: u).length) &&
      !isTrailing (u.getD 0 behind)) = false := by
    cases u with
    | nil => rfl
    | cons x u => simp [hu x rfl]
  simp only [readBlock, decodeChunk, Nat.zero_add, hend, List.getD_cons_succ, List.getD_cons_zero,
    hc', hd', bind, Except.bind, digit_masks (digitOf_lt c), digit_masks (digitOf_lt d),
    Bool.false_eq_true, if_false]
  rfl

/-- Three letters, and at most a letter that fills the group. -/
lemma readBlock_three (hc : IsDigit c) (hd : IsDigit d) (he : IsDigit e) {u : List UInt8}
    (hu : ∀ x, u.head? = some x → isTrailing x = true) :
    readBlock behind (c :: d :: e :: u) = .ok [UInt8.ofNat (digitOf c * 4 + digitOf d / 16),
      UInt8.ofNat (digitOf d % 16 * 16 + digitOf e / 4)] := by
  have hc' : posOfChar c = .ok (digitOf c) := hc
  have hd' : posOfChar d = .ok (digitOf d) := hd
  have he' : posOfChar e = .ok (digitOf e) := he
  have hend : (decide (3 < (c :: d :: e :: u).length) &&
      !isTrailing (u.getD 0 behind)) = false := by
    cases u with
    | nil => rfl
    | cons x u => simp [hu x rfl]
  have hmore : (decide (2 < (c :: d :: e :: u).length) && !isTrailing e) = true := by
    simp [he.isTrailing]
  simp only [readBlock, decodeChunk, Nat.zero_add, hend, hmore, List.getD_cons_succ,
    List.getD_cons_zero, hc', hd', he', bind, Except.bind, digit_masks (digitOf_lt c),
    digit_masks (digitOf_lt d), digit_masks (digitOf_lt e), Bool.false_eq_true, if_false, if_true]
  rfl

/-- Four letters. -/
lemma readBlock_four (hc : IsDigit c) (hd : IsDigit d) (he : IsDigit e) (hf : IsDigit f) :
    readBlock behind [c, d, e, f] = .ok [UInt8.ofNat (digitOf c * 4 + digitOf d / 16),
      UInt8.ofNat (digitOf d % 16 * 16 + digitOf e / 4),
      UInt8.ofNat (digitOf e % 4 * 64 + digitOf f)] := by
  have hc' : posOfChar c = .ok (digitOf c) := hc
  have hd' : posOfChar d = .ok (digitOf d) := hd
  have he' : posOfChar e = .ok (digitOf e) := he
  have hf' : posOfChar f = .ok (digitOf f) := hf
  have hmore : (decide (2 < [c, d, e, f].length) && !isTrailing e) = true := by
    simp [he.isTrailing]
  have hlast : (decide (3 < [c, d, e, f].length) && !isTrailing f) = true := by
    simp [hf.isTrailing]
  simp only [readBlock, decodeChunk, Nat.zero_add, hmore, hlast, List.getD_cons_succ,
    List.getD_cons_zero, hc', hd', he', hf', bind, Except.bind, digit_masks (digitOf_lt c),
    digit_masks (digitOf_lt d), digit_masks (digitOf_lt e), if_true]
  rfl

/-! ## The bytes of some digits -/

/-- The bits of a digit, cut at one place. -/
lemma bits_digit (p : ℕ) {w k : ℕ} (h : w + k = 6) :
    bits 6 p = bits w (p / 2 ^ k) ++ bits k p := by
  rw [← h, bits_add]

/-- A block of eight bits is a byte. -/
lemma wholeBytes_cons {s : List Bool} (h : s.length = 8) (l : List (List Bool)) :
    wholeBytes (s :: l) = UInt8.ofNat (value s) :: wholeBytes l := by
  simp [wholeBytes, h]

/-- Bits that are no byte. -/
lemma wholeBytes_last {s : List Bool} (h : s.length < 8) : wholeBytes [s] = [] := by
  simp [wholeBytes, h.ne]

/-- The first byte of a group: a digit and the two high bits of the next. -/
lemma value_first {p q : ℕ} (hp : p < 64) (hq : q < 64) :
    value (bits 6 p ++ bits 2 (q / 2 ^ 4)) = p * 4 + q / 16 := by
  rw [value_append, value_bits, value_bits, length_bits]
  omega

/-- The second byte of a group: four low bits of a digit and the four high ones of the next. -/
lemma value_second {q r : ℕ} (hr : r < 64) :
    value (bits 4 q ++ bits 4 (r / 2 ^ 2)) = q % 16 * 16 + r / 4 := by
  rw [value_append, value_bits, value_bits, length_bits]
  omega

/-- The third byte of a group: the two low bits of a digit and the next digit. -/
lemma value_third {r t : ℕ} (ht : t < 64) :
    value (bits 2 r ++ bits 6 t) = r % 4 * 64 + t := by
  rw [value_append, value_bits, value_bits, length_bits]
  omega

/-- Two digits hold one byte; the four bits behind it are dropped. -/
lemma bytesOf_two {p q : ℕ} (hp : p < 64) (hq : q < 64) :
    bytesOf [p, q] = [UInt8.ofNat (p * 4 + q / 16)] := by
  have hbits : [p, q].flatMap (bits 6) = (bits 6 p ++ bits 2 (q / 2 ^ 4)) ++ bits 4 q := by
    rw [List.flatMap_cons, List.flatMap_singleton, bits_digit q (show 2 + 4 = 6 by rfl)]
    simp only [List.append_assoc]
  rw [bytesOf, hbits, blocks_append_of_length (by omega) (by simp),
    blocks_last (by omega) (bits_ne_nil (by omega)) (by simp), wholeBytes_cons (by simp),
    wholeBytes_last (by simp), value_first hp hq]

/-- Three digits hold two bytes; the two bits behind them are dropped. -/
lemma bytesOf_three {p q r : ℕ} (hp : p < 64) (hq : q < 64) (hr : r < 64) :
    bytesOf [p, q, r] = [UInt8.ofNat (p * 4 + q / 16), UInt8.ofNat (q % 16 * 16 + r / 4)] := by
  have hbits : [p, q, r].flatMap (bits 6) = (bits 6 p ++ bits 2 (q / 2 ^ 4)) ++
      ((bits 4 q ++ bits 4 (r / 2 ^ 2)) ++ bits 2 r) := by
    rw [List.flatMap_cons, List.flatMap_cons, List.flatMap_singleton,
      bits_digit q (show 2 + 4 = 6 by rfl), bits_digit r (show 4 + 2 = 6 by rfl)]
    simp only [List.append_assoc]
  rw [bytesOf, hbits, blocks_append_of_length (by omega) (by simp),
    blocks_append_of_length (by omega) (by simp),
    blocks_last (by omega) (bits_ne_nil (by omega)) (by simp), wholeBytes_cons (by simp),
    wholeBytes_cons (by simp), wholeBytes_last (by simp), value_first hp hq, value_second hr]

/-- The bytes of four digits are in front of those of the others. -/
lemma bytesOf_four {p q r t : ℕ} (hp : p < 64) (hq : q < 64) (hr : r < 64) (ht : t < 64)
    (ds : List ℕ) : bytesOf (p :: q :: r :: t :: ds) =
      [UInt8.ofNat (p * 4 + q / 16), UInt8.ofNat (q % 16 * 16 + r / 4),
        UInt8.ofNat (r % 4 * 64 + t)] ++ bytesOf ds := by
  have hbits : (p :: q :: r :: t :: ds).flatMap (bits 6) = (bits 6 p ++ bits 2 (q / 2 ^ 4)) ++
      ((bits 4 q ++ bits 4 (r / 2 ^ 2)) ++ ((bits 2 r ++ bits 6 t) ++ ds.flatMap (bits 6))) := by
    rw [List.flatMap_cons, List.flatMap_cons, List.flatMap_cons, List.flatMap_cons,
      bits_digit q (show 2 + 4 = 6 by rfl), bits_digit r (show 4 + 2 = 6 by rfl)]
    simp only [List.append_assoc]
  rw [bytesOf, hbits, blocks_append_of_length (by omega) (by simp),
    blocks_append_of_length (by omega) (by simp), blocks_append_of_length (by omega) (by simp),
    wholeBytes_cons (by simp), wholeBytes_cons (by simp), wholeBytes_cons (by simp),
    value_first hp hq, value_second hr, value_third ht]
  rfl

/-! ## What is read -/

/-- The blocks of a text of digits that may be filled at its end.

**Proof sketch.** By recursion on the digits, four at a time. A last group of two or three is read
up to the first fill letter or the end of the text; a single digit is excluded by the length. -/
lemma readBlocks_digits (behind : UInt8) : ∀ t u : List UInt8, (∀ c ∈ t, IsDigit c) →
    (∀ c ∈ u, isTrailing c = true) → t.length % 4 ≠ 1 → u.length ≤ (4 - t.length % 4) % 4 →
    readBlocks behind (blocks 4 (t ++ u)) = .ok (bytesOf (t.map digitOf))
  | [], u, _, _, _, hu => by
    have hnil : u = [] := by simpa using hu
    subst hnil
    simp [readBlocks, bytesOf, wholeBytes]
  | [_], _, _, _, h, _ => absurd rfl h
  | [c, d], u, ht, htrail, _, hu => by
    have hlen : u.length ≤ 2 := hu
    have hgroup : ([c, d] ++ u).length ≤ 4 := by
      rw [List.length_append]
      exact Nat.add_le_add_left hlen 2
    have hhead : ∀ x, u.head? = some x → isTrailing x = true := fun x hx =>
      htrail x (List.mem_of_mem_head? hx)
    rw [blocks_of_ne_nil (by omega) (by simp), List.take_of_length_le hgroup,
      List.drop_eq_nil_of_le hgroup, blocks_nil, List.cons_append, List.cons_append,
      List.nil_append, readBlocks, readBlock_two (ht c (by simp)) (ht d (by simp)) hhead,
      readBlocks, List.map_cons, List.map_cons, List.map_nil,
      bytesOf_two (digitOf_lt c) (digitOf_lt d)]
    rfl
  | [c, d, e], u, ht, htrail, _, hu => by
    have hlen : u.length ≤ 1 := hu
    have hgroup : ([c, d, e] ++ u).length ≤ 4 := by
      rw [List.length_append]
      exact Nat.add_le_add_left hlen 3
    have hhead : ∀ x, u.head? = some x → isTrailing x = true := fun x hx =>
      htrail x (List.mem_of_mem_head? hx)
    rw [blocks_of_ne_nil (by omega) (by simp), List.take_of_length_le hgroup,
      List.drop_eq_nil_of_le hgroup, blocks_nil, List.cons_append, List.cons_append,
      List.cons_append, List.nil_append, readBlocks,
      readBlock_three (ht c (by simp)) (ht d (by simp)) (ht e (by simp)) hhead, readBlocks,
      List.map_cons, List.map_cons, List.map_cons, List.map_nil,
      bytesOf_three (digitOf_lt c) (digitOf_lt d) (digitOf_lt e)]
    rfl
  | c :: d :: e :: f :: t, u, ht, htrail, h, hu => by
    have hmod : (c :: d :: e :: f :: t).length % 4 = t.length % 4 := by
      simp
      omega
    have hfour : [c, d, e, f].length = 4 := rfl
    rw [hmod] at h hu
    have ih := readBlocks_digits behind t u (fun x hx => ht x (by simp [hx])) htrail h hu
    rw [show c :: d :: e :: f :: t ++ u = [c, d, e, f] ++ (t ++ u) by rfl,
      blocks_append_of_length (by omega) hfour, readBlocks,
      readBlock_four (ht c (by simp)) (ht d (by simp)) (ht e (by simp)) (ht f (by simp)), ih,
      List.map_cons, List.map_cons, List.map_cons, List.map_cons,
      bytesOf_four (digitOf_lt c) (digitOf_lt d) (digitOf_lt e) (digitOf_lt f)]

/-- What is read of digits, for the whole text. -/
lemma base64Decode_digits (behind : UInt8) {t u : List UInt8} (ht : ∀ c ∈ t, IsDigit c)
    (hu : ∀ c ∈ u, isTrailing c = true) (hlast : t.length % 4 ≠ 1)
    (hfill : u.length ≤ (4 - t.length % 4) % 4) :
    base64Decode behind (t ++ u) false = .ok (bytesOf (t.map digitOf)) := by
  rw [base64Decode_eq]
  exact readBlocks_digits behind t u ht hu hlast hfill

/-! ## Round trips -/

/-- What the digits of some bytes are: digits, no single one in the last group, and those of which
the bytes are these.

**Proof sketch.** By recursion on the bytes, three at a time. The quotients and remainders of a
group put the three bytes together again, and a last group of one or two bytes gives two or three
digits. -/
lemma digits_spec : ∀ bytes : List UInt8,
    (∀ d ∈ digits bytes, d < 64) ∧ (digits bytes).length % 4 ≠ 1 ∧ bytesOf (digits bytes) = bytes
  | [] => by simp [digits, bytesOf, wholeBytes]
  | [a] => by
    have ha := byte_lt a
    have hbyte : a.toNat / 4 * 4 + a.toNat % 4 * 16 / 16 = a.toNat := by omega
    rw [digits_one, bytesOf_two (by omega) (by omega), hbyte, UInt8.ofNat_toNat]
    refine ⟨?_, by simp, rfl⟩
    simp
    omega
  | [a, b] => by
    have ha := byte_lt a
    have hb := byte_lt b
    have hfirst : a.toNat / 4 * 4 + (a.toNat % 4 * 16 + b.toNat / 16) / 16 = a.toNat := by omega
    have hsecond : (a.toNat % 4 * 16 + b.toNat / 16) % 16 * 16 + b.toNat % 16 * 4 / 4 =
        b.toNat := by omega
    rw [digits_two, bytesOf_three (by omega) (by omega) (by omega), hfirst, hsecond,
      UInt8.ofNat_toNat, UInt8.ofNat_toNat]
    refine ⟨?_, by simp, rfl⟩
    simp
    omega
  | a :: b :: c :: l => by
    have ha := byte_lt a
    have hb := byte_lt b
    have hc := byte_lt c
    have hfirst : a.toNat / 4 * 4 + (a.toNat % 4 * 16 + b.toNat / 16) / 16 = a.toNat := by omega
    have hsecond : (a.toNat % 4 * 16 + b.toNat / 16) % 16 * 16 +
        (b.toNat % 16 * 4 + c.toNat / 64) / 4 = b.toNat := by omega
    have hthird : (b.toNat % 16 * 4 + c.toNat / 64) % 4 * 64 + c.toNat % 64 = c.toNat := by omega
    obtain ⟨hlt, hlen, hbytes⟩ := digits_spec l
    rw [digits_three]
    refine ⟨?_, ?_, ?_⟩
    · simp only [List.cons_append, List.nil_append, List.forall_mem_cons]
      exact ⟨by omega, by omega, by omega, by omega, hlt⟩
    · simp
      omega
    · rw [List.cons_append, List.cons_append, List.cons_append, List.cons_append, List.nil_append,
        bytesOf_four (by omega) (by omega) (by omega) (by omega), hfirst, hsecond, hthird, hbytes,
        UInt8.ofNat_toNat, UInt8.ofNat_toNat, UInt8.ofNat_toNat]
      rfl

/-- The alphabet for URLs fills with another letter than the standard. -/
lemma filled_eq_written (url : Bool) (bytes : List UInt8) :
    filled url (trailingChar url) bytes = written url bytes := by
  cases url with
  | false => rfl
  | true =>
    have hletter : ∀ i < 64, base64Char true i ≠ 61 := by decide +kernel
    have htext : ((digits bytes).map (base64Char true)).map (fun c => if c = 61 then 46 else c) =
        (digits bytes).map (base64Char true) := by
      rw [List.map_map]
      refine List.map_congr_left fun d hd => if_neg (hletter d ?_)
      exact (digits_spec bytes).1 d hd
    rw [written, if_pos rfl, standard, filled, filled, List.map_append, htext, List.map_replicate]
    rfl

/-- **What the encoder writes.** It ends exactly where the number of the bytes fits into an
`unsigned int`, and then the text is the one of the standard, with `.` in place of `=` in the
alphabet for URLs.

**Proof sketch.** Below that number the position does not wrap around, so that the loop goes through
the blocks of three bytes, and each of them is written to the four letters that the standard has for
its bits. From it on the position never gets to the end. -/
theorem encode_standard (bytes : List UInt8) (url : Bool) :
    (bytes.length < 2 ^ 32 → ∀ fuel, bytes.length / 3 + 2 ≤ fuel →
      base64Encode bytes url fuel = some (written url bytes)) ∧
    (2 ^ 32 ≤ bytes.length → ∀ fuel, base64Encode bytes url fuel = none) := by
  refine ⟨fun hlen fuel hfuel => ?_, fun hlen fuel => ?_⟩
  · rw [base64Encode_eq url hlen hfuel, filled_eq_written]
  · rw [base64Encode, if_neg (by omega)]
    exact encodeLoop_eq_none url hlen fuel (by omega) []

/-- A letter in the alphabet for URLs, and a text that is too long. -/
theorem encode_standard_ends :
    base64Encode [77] true 2 = some (written true [77]) ∧
      base64Encode [77] true 2 = some (Search.text "TQ..") ∧
      ∃ bytes : List UInt8, bytes.length = 2 ^ 32 ∧
        ∀ fuel, base64Encode bytes false fuel = none := by
  refine ⟨(encode_standard [77] true).1 (by decide) 2 (by decide), by decide, ?_⟩
  obtain ⟨bytes, hbytes⟩ : ∃ bytes : List UInt8, bytes.length = 2 ^ 32 :=
    ⟨_, List.length_replicate (n := 2 ^ 32) (a := 0)⟩
  exact ⟨bytes, hbytes, (encode_standard bytes false).2 hbytes.ge⟩

/-- The text that is written is read to its bytes. -/
lemma base64Decode_filled (behind : UInt8) (url : Bool) (bytes : List UInt8) :
    base64Decode behind (filled url (trailingChar url) bytes) false = .ok bytes := by
  obtain ⟨hlt, hlen, hbytes⟩ := digits_spec bytes
  have hmap : ((digits bytes).map (base64Char url)).map digitOf = digits bytes := by
    rw [List.map_map]
    conv_rhs => rw [← List.map_id (digits bytes)]
    apply List.map_congr_left
    intro d hd
    exact digitOf_base64Char url (hlt d hd)
  rw [filled, base64Decode_digits behind _ _ (by simpa using hlen) (by simp), hmap, hbytes]
  · intro c hc
    obtain ⟨d, hd, rfl⟩ := List.mem_map.mp hc
    exact isDigit_base64Char url (hlt d hd)
  · intro c hc
    rw [List.eq_of_mem_replicate hc]
    exact isTrailing_trailingChar url

/-- No letter of the text is a line feed. -/
lemma filled_ne (url : Bool) (bytes : List UInt8) :
    ∀ c ∈ filled url (trailingChar url) bytes, c ≠ 10 := by
  intro c hc
  rw [filled, List.mem_append] at hc
  rcases hc with hc | hc
  · obtain ⟨d, hd, rfl⟩ := List.mem_map.mp hc
    exact base64Char_ne url ((digits_spec bytes).1 d hd)
  · rw [List.eq_of_mem_replicate hc]
    exact trailingChar_ne url

/-- The line feeds of a text in lines. -/
lemma filter_intercalate (ls : List (List UInt8)) :
    ([10].intercalate ls).filter (· != 10) = ls.flatten.filter (· != 10) := by
  induction ls with
  | nil => rfl
  | cons l ls ih =>
    cases ls with
    | nil => simp
    | cons m ls =>
      rw [List.intercalate_cons_cons, List.filter_append, List.filter_append, ih]
      simp

/-- A text in lines is read like the text. -/
lemma base64Decode_lines (behind : UInt8) {distance : ℕ} (hd : 0 < distance) (bytes : List UInt8) :
    base64Decode behind (insertLinebreaks distance hd (filled false (trailingChar false) bytes))
      true = .ok bytes := by
  have hall : (filled false (trailingChar false) bytes).filter (· != 10) =
      filled false (trailingChar false) bytes := by
    rw [List.filter_eq_self]
    intro c hc
    simpa using filled_ne false bytes c hc
  rw [insertLinebreaks_eq, base64Decode_remove, filter_intercalate, flatten_blocks hd, hall,
    base64Decode_filled]

/-- **What the encoders write is read again**, in both alphabets, and with the lines of PEM and
MIME.

**Proof sketch.** What is written are the digits of the bytes with the fill letters, and with line
ends, which are taken out first. Reading the digits gives the bytes. -/
theorem decode_encode {bytes : List UInt8} (hlen : bytes.length < 2 ^ 32) {fuel : ℕ}
    (hfuel : bytes.length / 3 + 2 ≤ fuel) (behind : UInt8) :
    (∀ url, (base64Encode bytes url fuel).map (base64Decode behind · false) = some (.ok bytes)) ∧
    (base64EncodePem bytes fuel).map (base64Decode behind · true) = some (.ok bytes) ∧
    (base64EncodeMime bytes fuel).map (base64Decode behind · true) = some (.ok bytes) := by
  refine ⟨fun url => ?_, ?_, ?_⟩
  · rw [base64Encode_eq url hlen hfuel, Option.map_some, base64Decode_filled]
  · rw [base64EncodePem, base64Encode_eq false hlen hfuel, Option.map_some, Option.map_some,
      base64Decode_lines]
  · rw [base64EncodeMime, base64Encode_eq false hlen hfuel, Option.map_some, Option.map_some,
      base64Decode_lines]

/-- A last block of two bytes, with a line feed in the middle of its letters. -/
theorem decode_encode_two :
    (base64EncodePem [77, 97] 2).map (base64Decode 0 · true) = some (.ok [77, 97]) :=
  (decode_encode (show [77, 97].length < 2 ^ 32 by decide)
    (show [77, 97].length / 3 + 2 ≤ 2 by decide) 0).2.1

/-- **What is read of digits.** A text of digits of either alphabet, whose last group is not a
single letter and may be filled with `=` or `.`, is read to the bytes of its digits.

**Proof sketch.** By `base64Decode_digits`: the groups of four are read one after another, and the
last one as far as it goes. -/
theorem decode_digits (behind : UInt8) {t u : List UInt8} (ht : ∀ c ∈ t, IsDigit c)
    (hu : ∀ c ∈ u, isTrailing c = true) (hlast : t.length % 4 ≠ 1)
    (hfill : u.length ≤ (4 - t.length % 4) % 4) :
    base64Decode behind (t ++ u) false = .ok (bytesOf (t.map digitOf)) :=
  base64Decode_digits behind ht hu hlast hfill

/-- Digits of both alphabets, and the fill letter of the one for URLs. -/
theorem decode_digits_filled :
    base64Decode 0 ([84, 87, 45] ++ [46]) false = .ok (bytesOf ([84, 87, 45].map digitOf)) :=
  decode_digits 0 (t := [84, 87, 45]) (u := [46])
    (by simp [IsDigit, digitOf, posOfChar, Except.toOption]) (by simp [isTrailing]) (by decide)
    (by decide)

/-! ## When the decoder throws -/

/-- **The letter at a place can be read**: it is a digit, or it is `=` or `.` in the second half of
its group, or it is any letter at the end of its group behind such a letter, which is not looked
at. -/
def Legal (s : List UInt8) (i : ℕ) : Prop :=
  IsDigit (s.getD i 0) ∨ 2 ≤ i % 4 ∧ isTrailing (s.getD i 0) = true ∨
    i % 4 = 3 ∧ isTrailing (s.getD (i - 1) 0) = true

/-- A group of one letter needs a digit, and one in the memory behind the text. -/
lemma throws_one : readBlock behind [c] = .error invalid ↔ ¬ IsDigit c ∨ ¬ IsDigit behind := by
  by_cases hb : IsDigit behind
  · have hb' : posOfChar behind = .ok (digitOf behind) := hb
    by_cases hc : IsDigit c
    · have hc' : posOfChar c = .ok (digitOf c) := hc
      simp [readBlock, decodeChunk, hb', hc', hb, hc, bind, Except.bind, pure, Except.pure]
    · simp [readBlock, decodeChunk, hb', error_of_not_isDigit hc, hc, bind, Except.bind]
  · simp [readBlock, decodeChunk, error_of_not_isDigit hb, hb, bind, Except.bind]

/-- The first two letters have to be digits. -/
lemma throws_of_not_isDigit (h : ¬ IsDigit c ∨ ¬ IsDigit d) (u : List UInt8) :
    readBlock behind (c :: d :: u) = .error invalid := by
  by_cases hd : IsDigit d
  · have hd' : posOfChar d = .ok (digitOf d) := hd
    have hc : ¬ IsDigit c := h.resolve_right (not_not.mpr hd)
    simp [readBlock, decodeChunk, hd', error_of_not_isDigit hc, bind, Except.bind]
  · simp [readBlock, decodeChunk, error_of_not_isDigit hd, bind, Except.bind]

/-- The third one has to be a digit or to fill the group. -/
lemma throws_of_third (hc : IsDigit c) (hd : IsDigit d) (he : ¬ IsDigit e)
    (ht : isTrailing e = false) (u : List UInt8) :
    readBlock behind (c :: d :: e :: u) = .error invalid := by
  have hc' : posOfChar c = .ok (digitOf c) := hc
  have hd' : posOfChar d = .ok (digitOf d) := hd
  simp [readBlock, decodeChunk, hc', hd', ht, error_of_not_isDigit he, bind, Except.bind]

/-- And the last one. -/
lemma throws_of_fourth (hc : IsDigit c) (hd : IsDigit d) (he : IsDigit e) (hf : ¬ IsDigit f)
    (ht : isTrailing f = false) : readBlock behind [c, d, e, f] = .error invalid := by
  have hc' : posOfChar c = .ok (digitOf c) := hc
  have hd' : posOfChar d = .ok (digitOf d) := hd
  have he' : posOfChar e = .ok (digitOf e) := he
  simp [readBlock, decodeChunk, hc', hd', he', he.isTrailing, ht, error_of_not_isDigit hf, bind,
    Except.bind]

/-- A group of two letters needs two digits. -/
lemma throws_two : readBlock behind [c, d] = .error invalid ↔ ¬ IsDigit c ∨ ¬ IsDigit d := by
  refine ⟨fun h => ?_, fun h => throws_of_not_isDigit h []⟩
  by_contra hno
  rw [not_or, not_not, not_not] at hno
  simp [readBlock_two hno.1 hno.2 (u := []) (by simp)] at h

/-- A group of three letters needs two digits, and a digit or a fill letter behind them. -/
lemma throws_three : readBlock behind [c, d, e] = .error invalid ↔
    ¬ IsDigit c ∨ ¬ IsDigit d ∨ ¬ (IsDigit e ∨ isTrailing e = true) := by
  by_cases hcd : IsDigit c ∧ IsDigit d
  · obtain ⟨hc, hd⟩ := hcd
    by_cases ht : isTrailing e = true
    · rw [readBlock_two hc hd (by simpa using ht)]
      simp [hc, hd, ht]
    · rw [Bool.not_eq_true] at ht
      by_cases he : IsDigit e
      · rw [readBlock_three hc hd he (by simp)]
        simp [hc, hd, he]
      · rw [throws_of_third hc hd he ht]
        simp [he, ht]
  · rw [not_and_or] at hcd
    rw [throws_of_not_isDigit hcd]
    simp [← or_assoc, hcd]

/-- A full group needs two digits and a digit or a fill letter behind them. The last letter is read
only if the third is a digit: behind a fill letter anything may stand.

**Proof sketch.** By cases on the four letters from left to right, as the decoder reads them. -/
lemma throws_four : readBlock behind [c, d, e, f] = .error invalid ↔
    ¬ IsDigit c ∨ ¬ IsDigit d ∨ ¬ (IsDigit e ∨ isTrailing e = true) ∨
      ¬ (IsDigit f ∨ isTrailing f = true ∨ isTrailing e = true) := by
  by_cases hcd : IsDigit c ∧ IsDigit d
  · obtain ⟨hc, hd⟩ := hcd
    by_cases ht : isTrailing e = true
    · rw [readBlock_two hc hd (by simpa using ht)]
      simp [hc, hd, ht]
    · rw [Bool.not_eq_true] at ht
      by_cases he : IsDigit e
      · by_cases hf : IsDigit f
        · rw [readBlock_four hc hd he hf]
          simp [hc, hd, he, hf]
        · by_cases hft : isTrailing f = true
          · rw [readBlock_three hc hd he (by simpa using hft)]
            simp [hc, hd, he, hft]
          · rw [Bool.not_eq_true] at hft
            rw [throws_of_fourth hc hd he hf hft]
            simp [hf, hft, ht]
      · rw [throws_of_third hc hd he ht]
        simp [he, ht]
  · rw [not_and_or] at hcd
    rw [throws_of_not_isDigit hcd, ← or_assoc]
    simp [hcd]

/-- Every exception has this text.

**Proof sketch.** The letters are looked at one after the other, the second one first, and the
first that is refused gives the text. -/
lemma readBlock_error {block : List UInt8} {msg : String}
    (h : readBlock behind block = .error msg) : msg = invalid := by
  rw [readBlock, decodeChunk] at h
  cases h₁ : posOfChar (block.getD (0 + 1) behind) with
  | error m₁ =>
    simp only [h₁, bind, Except.bind, Except.error.injEq] at h
    exact h ▸ posOfChar_error h₁
  | ok p₁ =>
  cases h₀ : posOfChar (block.getD 0 behind) with
  | error m₀ =>
    simp only [h₁, h₀, bind, Except.bind, Except.error.injEq] at h
    exact h ▸ posOfChar_error h₀
  | ok p₀ =>
  simp only [h₁, h₀, bind, Except.bind] at h
  split at h
  · cases h₂ : posOfChar (block.getD (0 + 2) behind) with
    | error m₂ =>
      simp only [h₂, Except.error.injEq] at h
      exact h ▸ posOfChar_error h₂
    | ok p₂ =>
    simp only [h₂] at h
    split at h
    · cases h₃ : posOfChar (block.getD (0 + 3) behind) with
      | error m₃ =>
        simp only [h₃, Except.error.injEq] at h
        exact h ▸ posOfChar_error h₃
      | ok p₃ => simp only [h₃, pure, Except.pure, reduceCtorEq] at h
    · simp [pure, Except.pure] at h
  · simp [pure, Except.pure] at h

/-- The blocks are read one after the other. -/
lemma readBlocks_throws (block : List UInt8) (l : List (List UInt8)) :
    readBlocks behind (block :: l) = .error invalid ↔
      readBlock behind block = .error invalid ∨ readBlocks behind l = .error invalid := by
  rw [readBlocks]
  cases hblock : readBlock behind block with
  | error msg =>
    have hmsg := readBlock_error hblock
    subst hmsg
    cases readBlocks behind l <;> simp
  | ok bytes => cases readBlocks behind l <;> simp

/-- A letter behind the first group. -/
lemma legal_add_four (c d e f : UInt8) (s : List UInt8) (i : ℕ) :
    Legal (c :: d :: e :: f :: s) (i + 4) ↔ Legal s i := by
  have hmod : (i + 4) % 4 = i % 4 := Nat.add_mod_right i 4
  rw [Legal, Legal, hmod, List.getD_cons_succ, List.getD_cons_succ, List.getD_cons_succ,
    List.getD_cons_succ]
  by_cases hthird : i % 4 = 3
  · obtain ⟨j, rfl⟩ : ∃ j, i = j + 1 := ⟨i - 1, by omega⟩
    rw [show j + 1 + 4 - 1 = j + 4 by omega, List.getD_cons_succ, List.getD_cons_succ,
      List.getD_cons_succ, List.getD_cons_succ, Nat.add_sub_cancel]
  · simp only [hthird, false_and]

/-- The places of a text of more than one group.

**Proof sketch.** A place is one of the first four or is four behind a place of the rest, and
whether a letter may stand somewhere depends on its own group only. -/
lemma exists_not_legal (c d e f : UInt8) (s : List UInt8) :
    (∃ i < (c :: d :: e :: f :: s).length, ¬ Legal (c :: d :: e :: f :: s) i) ↔
      (¬ IsDigit c ∨ ¬ IsDigit d ∨ ¬ (IsDigit e ∨ isTrailing e = true) ∨
        ¬ (IsDigit f ∨ isTrailing f = true ∨ isTrailing e = true)) ∨
      ∃ i < s.length, ¬ Legal s i := by
  have hsplit (P : ℕ → Prop) : (∃ i < s.length + 4, P i) ↔
      (P 0 ∨ P 1 ∨ P 2 ∨ P 3) ∨ ∃ i < s.length, P (i + 4) := by
    constructor
    · rintro ⟨i, hi, hP⟩
      by_cases hfirst : i < 4
      · left
        obtain rfl | rfl | rfl | rfl : i = 0 ∨ i = 1 ∨ i = 2 ∨ i = 3 := by omega
        · exact .inl hP
        · exact .inr (.inl hP)
        · exact .inr (.inr (.inl hP))
        · exact .inr (.inr (.inr hP))
      · right
        exact ⟨i - 4, by omega, by rwa [Nat.sub_add_cancel (by omega)]⟩
    · rintro ((h | h | h | h) | ⟨i, hi, h⟩)
      · exact ⟨0, by omega, h⟩
      · exact ⟨1, by omega, h⟩
      · exact ⟨2, by omega, h⟩
      · exact ⟨3, by omega, h⟩
      · exact ⟨i + 4, by omega, h⟩
  rw [show (c :: d :: e :: f :: s).length = s.length + 4 by rfl, hsplit]
  simp only [legal_add_four]
  simp [Legal]

/-- A text of a single group. -/
lemma base64Decode_group {block : List UInt8} (hne : block ≠ []) (hlen : block.length ≤ 4) :
    base64Decode behind block false = .error invalid ↔
      readBlock behind block = .error invalid := by
  rw [base64Decode_eq, blocks_of_ne_nil (by omega) hne, List.take_of_length_le hlen,
    List.drop_eq_nil_of_le hlen, blocks_nil, readBlocks_throws, readBlocks]
  simp

/-- A letter of the text cannot be read. -/
def Unreadable (s : List UInt8) : Prop := ∃ i < s.length, ¬ Legal s i

/-- When the decoder throws on a text whose line feeds are not removed.

**Proof sketch.** By recursion on the letters, four at a time. The first group that has a wrong
letter throws, and a last group of one letter reads the byte behind the text. -/
lemma throws_iff_unreadable (behind : UInt8) : ∀ s : List UInt8,
    base64Decode behind s false = .error invalid ↔
      Unreadable s ∨ s.length % 4 = 1 ∧ ¬ IsDigit behind
  | [] => by simp [base64Decode, Unreadable]
  | [c] => by
    rw [base64Decode_group (by simp) (by simp), throws_one]
    simp [Legal, Unreadable]
  | [c, d] => by
    rw [base64Decode_group (by simp) (by simp), throws_two]
    simp only [Unreadable, List.length_cons, List.length_nil, Nat.exists_lt_succ_right]
    simp [Legal]
  | [c, d, e] => by
    rw [base64Decode_group (by simp) (by simp), throws_three]
    simp only [Unreadable, List.length_cons, List.length_nil, Nat.exists_lt_succ_right]
    simp [Legal, or_assoc]
  | c :: d :: e :: f :: s => by
    have hfour : [c, d, e, f].length = 4 := rfl
    have hmod : (c :: d :: e :: f :: s).length % 4 = s.length % 4 := by
      simp
      omega
    have ih := throws_iff_unreadable behind s
    rw [base64Decode_eq, Unreadable] at ih
    rw [base64Decode_eq, show c :: d :: e :: f :: s = [c, d, e, f] ++ s by rfl,
      blocks_append_of_length (by omega) hfour, readBlocks_throws, throws_four, ih,
      ← or_assoc, ← exists_not_legal, ← hmod]
    rfl

/-- **When the decoder throws.** It throws exactly where a letter cannot be read, or the last group
is a single letter and what stands behind the text, which is looked at then, is no digit. If the
line feeds are removed, this is said of the text without them, and a zero byte stands behind it.
Nothing is left out of a text that is read.

**Proof sketch.** The text is read in groups of four letters, and the places of the letters that
have to be digits depend on their groups only; so the statement for a text follows from the one for
the text behind its first group. -/
theorem decode_throws_iff (behind : UInt8) (s : List UInt8) :
    (base64Decode behind s false = .error invalid ↔
      Unreadable s ∨ s.length % 4 = 1 ∧ ¬ IsDigit behind) ∧
    (base64Decode behind s true = .error invalid ↔
      Unreadable (s.filter (· != 10)) ∨ (s.filter (· != 10)).length % 4 = 1) := by
  refine ⟨throws_iff_unreadable behind s, ?_⟩
  have hzero : ¬ IsDigit 0 := by simp [IsDigit, posOfChar]
  rw [base64Decode_remove, throws_iff_unreadable, and_iff_left hzero]

end Base64
