import Mathlib.Data.Nat.Bitwise
import HkuUtils.Blocks
import HkuUtils.Search

set_option relaxedAutoImplicit false
set_option autoImplicit false

/-!
# Base64

The functions of `base64.cpp`. The encoder goes through the bytes with a position that is an
`unsigned int`, three at a time, and the decoder through the letters four at a time. The decoder
takes the letters of both alphabets, and looks at the second letter of a group without a check that
there is one.

## Main definitions

* `Base64.base64Encode`, `base64EncodePem`, `base64EncodeMime` — the encoders.
* `Base64.base64Decode` — the decoder.
* `Base64.encodeBlock`, `readBlock` — what one turn of the loops does with its bytes or letters.

## Main results

* `Base64.encodeLoop_eq`, `encodeLoop_eq_none` — the encoder goes through the bytes block by block,
  and never ends where their number does not fit into the position.
* `Base64.decodeLoop_eq` — the decoder goes through the letters block by block.
* `Base64.insertLinebreaks_eq` — the lines of a text.

## Design

A string is the list of its bytes. What stands behind the end of a string is a parameter: for a
`std::string` it is the zero byte, for a `std::string_view` it can be anything. The loop of the
encoder has a number of turns as an argument, with `none` when it has not ended after these.
-/

namespace Base64

open Blocks

/-! ## Letters -/

/-- `base64_chars[url]`. -/
def base64Chars (url : Bool) : List UInt8 :=
  if url then Search.text "ABCDEFGHIJKLMNOPQRSTUVWXYZabcdefghijklmnopqrstuvwxyz0123456789-_"
  else Search.text "ABCDEFGHIJKLMNOPQRSTUVWXYZabcdefghijklmnopqrstuvwxyz0123456789+/"

/-- `base64_chars_[i]`, where the array ends with a zero byte. -/
def base64Char (url : Bool) (i : ℕ) : UInt8 := (base64Chars url).getD i 0

/-- `trailing_char`: `.` or `=`. -/
def trailingChar (url : Bool) : UInt8 := if url then 46 else 61

/-- `pos_of_char`, with the text of its exception. -/
def posOfChar (chr : UInt8) : Except String ℕ :=
  if 65 ≤ chr ∧ chr ≤ 90 then .ok (chr.toNat - 65)
  else if 97 ≤ chr ∧ chr ≤ 122 then .ok (chr.toNat - 97 + (90 - 65) + 1)
  else if 48 ≤ chr ∧ chr ≤ 57 then .ok (chr.toNat - 48 + (90 - 65) + (122 - 97) + 2)
  else if chr = 43 ∨ chr = 45 then .ok 62
  else if chr = 47 ∨ chr = 95 then .ok 63
  else .error "Input is not valid base64-encoded data."

/-! ## The encoder -/

/-- A value of type `unsigned int`. -/
def uint (n : ℕ) : ℕ := n % 2 ^ 32

/-- What a turn of the loop appends: four letters for three bytes, with fill letters for the bytes
that are not there at the end.

The positions are `unsigned int`, as in the source, and wrap at `2 ^ 32`. -/
def encodeChunk (bytes : List UInt8) (url : Bool) (pos : ℕ) : List UInt8 :=
  let at' (k : ℕ) := (bytes.getD (uint (pos + k)) 0).toNat
  if uint (pos + 1) < bytes.length then
    if uint (pos + 2) < bytes.length then
      [base64Char url ((at' 0 &&& 0xfc) >>> 2),
        base64Char url (((at' 0 &&& 0x03) <<< 4) + ((at' 1 &&& 0xf0) >>> 4)),
        base64Char url (((at' 1 &&& 0x0f) <<< 2) + ((at' 2 &&& 0xc0) >>> 6)),
        base64Char url (at' 2 &&& 0x3f)]
    else
      [base64Char url ((at' 0 &&& 0xfc) >>> 2),
        base64Char url (((at' 0 &&& 0x03) <<< 4) + ((at' 1 &&& 0xf0) >>> 4)),
        base64Char url ((at' 1 &&& 0x0f) <<< 2),
        trailingChar url]
  else
    [base64Char url ((at' 0 &&& 0xfc) >>> 2),
      base64Char url ((at' 0 &&& 0x03) <<< 4),
      trailingChar url,
      trailingChar url]

/-- The loop of `base64_encode`. -/
def encodeLoop (bytes : List UInt8) (url : Bool) : ℕ → ℕ → List UInt8 → Option (List UInt8)
  | 0, _, _ => none
  | fuel + 1, pos, ret =>
    if pos < bytes.length then
      encodeLoop bytes url fuel (uint (pos + 3)) (ret ++ encodeChunk bytes url pos)
    else some ret

/-- `base64_encode`. -/
def base64Encode (bytes : List UInt8) (url : Bool) (fuel : ℕ) : Option (List UInt8) :=
  if bytes.length = 0 then some [] else encodeLoop bytes url fuel 0 []

/-- `insert_linebreaks`: the loop inserts a line feed at `pos`. -/
def insertLoop (distance : ℕ) (hd : 0 < distance) (str : List UInt8) (pos : ℕ) : List UInt8 :=
  if h : pos < str.length then
    insertLoop distance hd (str.insertIdx pos 10) (pos + (distance + 1))
  else str
termination_by str.length - pos
decreasing_by
  rw [List.length_insertIdx_of_le_length h.le]
  omega

/-- `insert_linebreaks`. -/
def insertLinebreaks (distance : ℕ) (hd : 0 < distance) (str : List UInt8) : List UInt8 :=
  if str.length = 0 then [] else insertLoop distance hd str distance

/-- `base64_encode_pem`. -/
def base64EncodePem (s : List UInt8) (fuel : ℕ) : Option (List UInt8) :=
  (base64Encode s false fuel).map (insertLinebreaks 64 (by omega))

/-- `base64_encode_mime`. -/
def base64EncodeMime (s : List UInt8) (fuel : ℕ) : Option (List UInt8) :=
  (base64Encode s false fuel).map (insertLinebreaks 76 (by omega))

/-! ## The decoder -/

/-- `=` or `.`. -/
def isTrailing (c : UInt8) : Bool := c == 61 || c == 46

/-- What a turn of the loop appends, or the exception that it throws.

The second letter is looked up before the first one, as in the source. `behind` is the character
behind the end of the text, which is read if the last group has one letter only. -/
def decodeChunk (behind : UInt8) (s : List UInt8) (pos : ℕ) : Except String (List UInt8) := do
  let pos1 ← posOfChar (s.getD (pos + 1) behind)
  let pos0 ← posOfChar (s.getD pos behind)
  let first := UInt8.ofNat ((pos0 <<< 2) + ((pos1 &&& 0x30) >>> 4))
  if pos + 2 < s.length && !isTrailing (s.getD (pos + 2) behind) then
    let pos2 ← posOfChar (s.getD (pos + 2) behind)
    let second := UInt8.ofNat (((pos1 &&& 0x0f) <<< 4) + ((pos2 &&& 0x3c) >>> 2))
    if pos + 3 < s.length && !isTrailing (s.getD (pos + 3) behind) then
      let pos3 ← posOfChar (s.getD (pos + 3) behind)
      return [first, second, UInt8.ofNat (((pos2 &&& 0x03) <<< 6) + pos3)]
    else return [first, second]
  else return [first]

/-- The loop of `decode`. -/
def decodeLoop (behind : UInt8) (s : List UInt8) (pos : ℕ) (ret : List UInt8) :
    Except String (List UInt8) :=
  if pos < s.length then
    match decodeChunk behind s pos with
    | .ok bytes => decodeLoop behind s (pos + 4) (ret ++ bytes)
    | .error e => .error e
  else .ok ret
termination_by s.length - pos

/-- `base64_decode`; without its line feeds the text is a `std::string`. -/
def base64Decode (behind : UInt8) (s : List UInt8) (removeLinebreaks : Bool) :
    Except String (List UInt8) :=
  if s = [] then .ok []
  else if removeLinebreaks then
    let copy := s.filter (· != 10)
    if copy = [] then .ok [] else decodeLoop 0 copy 0 []
  else decodeLoop behind s 0 []

/-! ## Block by block -/

/-- What the encoder writes for a block of one, two or three bytes. -/
def encodeBlock (url : Bool) (block : List UInt8) : List UInt8 := encodeChunk block url 0

/-- What the decoder reads of a block of letters. -/
def readBlock (behind : UInt8) (block : List UInt8) : Except String (List UInt8) :=
  decodeChunk behind block 0

/-- Arithmetic on `unsigned int` is exact below `2 ^ 32`. -/
lemma uint_of_lt {n : ℕ} (h : n < 2 ^ 32) : uint n = n := Nat.mod_eq_of_lt h

/-- A turn looks at three bytes only. -/
lemma encodeChunk_eq {bytes : List UInt8} (url : Bool) {pos : ℕ} (h : pos + 3 ≤ 2 ^ 32)
    (hpos : pos < bytes.length) :
    encodeChunk bytes url pos = encodeBlock url ((bytes.drop pos).take 3) := by
  have hget (k : ℕ) (hk : k < 3) :
      bytes.getD (uint (pos + k)) 0 = ((bytes.drop pos).take 3).getD (uint (0 + k)) 0 := by
    rw [uint_of_lt (by omega), uint_of_lt (by omega), List.getD_eq_getElem?_getD,
      List.getD_eq_getElem?_getD, List.getElem?_take_of_lt (by omega), List.getElem?_drop,
      Nat.zero_add]
  have hlt (k : ℕ) (hk : k < 3) : uint (pos + k) < bytes.length ↔
      uint (0 + k) < ((bytes.drop pos).take 3).length := by
    rw [uint_of_lt (by omega), uint_of_lt (by omega), List.length_take, List.length_drop]
    omega
  simp only [encodeBlock, encodeChunk, hget 0 (by omega), hget 1 (by omega), hget 2 (by omega),
    hlt 1 (by omega), hlt 2 (by omega)]

/-- **The encoder goes through the bytes block by block** when their number fits into the position.

**Proof sketch.** The largest number that fits is a multiple of three, so that the position is
never beyond it when the loop ends. -/
theorem encodeLoop_eq {bytes : List UInt8} (url : Bool) (hlen : bytes.length < 2 ^ 32) {fuel : ℕ}
    {pos : ℕ} (hpos : 3 ∣ pos) (hfuel : bytes.length ≤ pos + 3 * fuel) (hfits : pos < 2 ^ 32)
    (ret : List UInt8) : encodeLoop bytes url (fuel + 1) pos ret =
      some (ret ++ (blocks 3 (bytes.drop pos)).flatMap (encodeBlock url)) := by
  induction fuel generalizing pos ret with
  | zero =>
    rw [encodeLoop, if_neg (by omega), List.drop_eq_nil_of_le (by omega)]
    simp
  | succ fuel ih =>
    rw [encodeLoop]
    by_cases h : pos < bytes.length
    · have hnext : pos + 3 < 2 ^ 32 := by omega
      have hne : bytes.drop pos ≠ [] := by simp; omega
      rw [if_pos h, uint_of_lt hnext, ih (by omega) (by omega) hnext, List.append_assoc,
        encodeChunk_eq url hnext.le h, blocks_of_ne_nil (by omega) hne, List.flatMap_cons,
        List.drop_drop]
    · rw [if_neg h, List.drop_eq_nil_of_le (by omega)]
      simp

/-- **The encoder never ends** where the number of the bytes does not fit into the position. -/
theorem encodeLoop_eq_none {bytes : List UInt8} (url : Bool) (hlen : 2 ^ 32 ≤ bytes.length)
    (fuel : ℕ) {pos : ℕ} (hpos : pos < 2 ^ 32) (ret : List UInt8) :
    encodeLoop bytes url fuel pos ret = none := by
  induction fuel generalizing pos ret with
  | zero => rfl
  | succ fuel ih =>
    rw [encodeLoop, if_pos (by omega)]
    exact ih (Nat.mod_lt _ (by omega)) _

/-- A turn looks at four letters only. -/
lemma decodeChunk_eq (behind : UInt8) {s : List UInt8} {pos : ℕ} (hpos : pos < s.length) :
    decodeChunk behind s pos = readBlock behind ((s.drop pos).take 4) := by
  have hget (k : ℕ) (hk : k < 4) :
      s.getD (pos + k) behind = ((s.drop pos).take 4).getD (0 + k) behind := by
    rw [List.getD_eq_getElem?_getD, List.getD_eq_getElem?_getD,
      List.getElem?_take_of_lt (by omega), List.getElem?_drop, Nat.zero_add]
  have hlt (k : ℕ) (hk : k < 4) : pos + k < s.length ↔
      0 + k < ((s.drop pos).take 4).length := by
    rw [List.length_take, List.length_drop]
    omega
  have hzero := hget 0 (by omega)
  rw [Nat.add_zero, Nat.add_zero] at hzero
  simp only [readBlock, decodeChunk, hzero, hget 1 (by omega), hget 2 (by omega),
    hget 3 (by omega), hlt 2 (by omega), hlt 3 (by omega)]

/-- The blocks of a text that is read block by block. -/
def readBlocks (behind : UInt8) : List (List UInt8) → Except String (List UInt8)
  | [] => .ok []
  | block :: l =>
    match readBlock behind block, readBlocks behind l with
    | .ok bytes, .ok rest => .ok (bytes ++ rest)
    | .error e, _ => .error e
    | _, .error e => .error e

/-- **The decoder goes through the letters block by block.**

**Proof sketch.** By induction on the number of letters that are left. One pass of the loop reads
what `readBlock` reads of the next four letters, and appends it. -/
theorem decodeLoop_eq (behind : UInt8) (s : List UInt8) (pos : ℕ) (ret : List UInt8) :
    decodeLoop behind s pos ret =
      (readBlocks behind (blocks 4 (s.drop pos))).map (ret ++ ·) := by
  induction hn : s.length - pos using Nat.strong_induction_on generalizing pos ret with
  | _ n ih =>
  rw [decodeLoop]
  by_cases h : pos < s.length
  · have hne : s.drop pos ≠ [] := by simp; omega
    rw [if_pos h, decodeChunk_eq behind h, blocks_of_ne_nil (by omega) hne, readBlocks,
      List.drop_drop]
    cases hblock : readBlock behind ((s.drop pos).take 4) with
    | error e => rfl
    | ok bytes =>
      simp only
      rw [ih _ (by omega) (pos + 4) _ rfl]
      cases readBlocks behind (blocks 4 (s.drop (pos + 4))) with
      | error e => rfl
      | ok rest => simp [Except.map]
  · rw [if_neg h, List.drop_eq_nil_of_le (by omega)]
    simp [readBlocks, Except.map]

/-- `base64_decode` without line feeds to remove. -/
lemma base64Decode_eq (behind : UInt8) (s : List UInt8) :
    base64Decode behind s false = readBlocks behind (blocks 4 s) := by
  rw [base64Decode]
  by_cases hs : s = []
  · rw [if_pos hs, hs, blocks_nil, readBlocks]
  · rw [if_neg hs, if_neg Bool.false_ne_true, decodeLoop_eq, List.drop_zero]
    cases readBlocks behind (blocks 4 s) <;> simp [Except.map]

/-- `base64_decode` with line feeds to remove. -/
lemma base64Decode_remove (behind : UInt8) (s : List UInt8) :
    base64Decode behind s true = base64Decode 0 (s.filter (· != 10)) false := by
  rw [base64Decode_eq, base64Decode]
  by_cases hs : s = []
  · simp [hs, readBlocks]
  · rw [if_neg hs, if_pos rfl]
    have h := base64Decode_eq 0 (s.filter (· != 10))
    rwa [base64Decode, if_neg Bool.false_ne_true] at h

/-! ## Lines -/

/-- `insert` behind a part of a text. -/
lemma insertIdx_length (a b : List UInt8) (c : UInt8) :
    (a ++ b).insertIdx a.length c = a ++ c :: b := by
  induction a with
  | nil => rfl
  | cons d a ih => simpa using ih

/-- The loop of `insert_linebreaks` behind a part that it has gone through.

**Proof sketch.** By induction on the length of the part not yet gone through. As long as it is
longer than a line, the next line feed goes behind its first line, and the position moves on by the
line and the line feed. -/
lemma insertLoop_eq {distance : ℕ} (hd : 0 < distance) (front str : List UInt8) :
    insertLoop distance hd (front ++ str) (front.length + distance) =
      front ++ [10].intercalate (blocks distance str) := by
  induction hn : str.length using Nat.strong_induction_on generalizing front str with
  | _ n ih =>
  rw [insertLoop]
  by_cases h : distance < str.length
  · have hcut : str = str.take distance ++ str.drop distance := (List.take_append_drop _ _).symm
    have htake : (str.take distance).length = distance := by
      rw [List.length_take]
      omega
    have hinsert : (front ++ str).insertIdx (front.length + distance) 10 =
        (front ++ str.take distance ++ [10]) ++ str.drop distance := by
      have hplace := insertIdx_length (front ++ str.take distance) (str.drop distance) 10
      rw [List.length_append, htake, List.append_assoc, ← hcut] at hplace
      simpa using hplace
    have hlen : front.length + distance + (distance + 1) =
        (front ++ str.take distance ++ [10]).length + distance := by
      simp only [List.length_append, htake, List.length_singleton]
      omega
    have hne : str ≠ [] := by
      intro hnil
      simp [hnil] at h
    have hdrop : str.drop distance ≠ [] := by simp; omega
    rw [dif_pos (by simp; omega), hinsert, hlen, ih _ _ _ _ rfl, blocks_of_ne_nil hd hne,
      blocks_of_ne_nil hd hdrop, List.intercalate_cons_cons]
    · simp
    · simp
      omega
  · have hblock : [10].intercalate (blocks distance str) = str := by
      by_cases hne : str = []
      · simp [hne]
      · rw [blocks_of_ne_nil hd hne, List.drop_eq_nil_of_le (by omega), blocks_nil,
          List.intercalate_singleton, List.take_of_length_le (by omega)]
    rw [dif_neg (by simp; omega), hblock]

/-- **The lines of a text** are its blocks. -/
theorem insertLinebreaks_eq {distance : ℕ} (hd : 0 < distance) (str : List UInt8) :
    insertLinebreaks distance hd str = [10].intercalate (blocks distance str) := by
  rw [insertLinebreaks]
  by_cases h : str.length = 0
  · rw [if_pos h, List.length_eq_zero_iff.mp h]
    simp
  · rw [if_neg h]
    have hloop := insertLoop_eq hd [] str
    simpa using hloop

end Base64
