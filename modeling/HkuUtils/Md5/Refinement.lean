import HkuUtils.Md5.Algorithm

set_option relaxedAutoImplicit false
set_option autoImplicit false

/-!
# The function `md5` against the checksum

The two pointers fill the new array exactly, and every word that the loop reads has been written.
The number at the end of the padding has 48 bits only: the two highest bytes of the number of bits
are always zero.

## Main results

* `Md5.md5Temp_eq` — the array is the padded message.
* `Md5.md5_eq_checksum` — **`md5` writes the checksum of every message whose number of bits fits
  into 48 bits, and hashes another padded message otherwise.**

## Design

The elements of `temp` that are written always come first, so the states of the loops are given by
the bytes written and the number of elements left.
-/

namespace Md5

open Blocks

/-! ## Filling -/

/-- An array of which some first elements have been written. -/
def begun (written : List UInt8) (left : ℕ) : Buffer :=
  written.map some ++ List.replicate left none

/-- A buffer that is begun is as long as what was written and what is left. -/
@[simp] lemma length_begun (w : List UInt8) (r : ℕ) : (begun w r).length = w.length + r := by
  simp [begun]

/-- The next element is written. -/
lemma set_begun (w : List UInt8) (r : ℕ) (v : UInt8) :
    (begun w (r + 1)).set w.length (some v) = begun (w ++ [v]) r := by
  rw [begun, List.replicate_succ, List.set_append_right _ _ (by simp), begun, List.map_append,
    List.append_assoc]
  simp

/-- One more byte is written behind those that were. -/
lemma put_begun (w : List UInt8) (r : ℕ) (v : UInt8) :
    put v (begun w (r + 1), w.length) = .ok (begun (w ++ [v]) r, (w ++ [v]).length) := by
  rw [put, if_pos (by simp), set_begun, List.length_append, List.length_singleton]

/-- The assignments one after the other. -/
lemma foldlM_put (l w : List UInt8) (r : ℕ) :
    l.foldlM (fun s v => put v s) (begun w (l.length + r), w.length) =
      .ok (begun (w ++ l) r, (w ++ l).length) := by
  induction l generalizing w with
  | nil => simp [pure, Except.pure]
  | cons v l ih =>
    rw [List.foldlM_cons, List.length_cons, Nat.add_right_comm, put_begun]
    change l.foldlM (fun s v => put v s) (begun (w ++ [v]) (l.length + r), _) = _
    rw [ih, List.append_assoc, List.singleton_append]

/-- A loop that fills.

**Proof sketch.** By induction on what is left to fill in. The next byte is written behind those
that have been. -/
lemma fillLoop_begun {f : ℕ → Option UInt8} (l w : List UInt8) (r : ℕ)
    (hf : ∀ k, (hk : k < l.length) → f (w.length + k) = some l[k]) :
    fillLoop f (w.length + l.length) (begun w (l.length + r)) w.length =
      .ok (begun (w ++ l) r, (w ++ l).length) := by
  induction l generalizing w with
  | nil =>
    rw [fillLoop, if_pos (by simp)]
    simp
  | cons v l ih =>
    have hfirst := hf 0 (by simp)
    rw [Nat.add_zero, List.getElem_cons_zero] at hfirst
    rw [fillLoop, if_neg (by simp), hfirst]
    simp only [List.length_cons, length_begun]
    rw [dif_pos (by omega), Nat.add_right_comm, set_begun]
    have hlen : w.length + 1 = (w ++ [v]).length := by simp
    rw [show w.length + (l.length + 1) = (w ++ [v]).length + l.length by simp; omega, hlen, ih,
      List.append_assoc, List.singleton_append]
    intro k hk
    have hnext := hf (k + 1) (by simp; omega)
    rw [List.getElem_cons_succ] at hnext
    rw [← hnext]
    congr 1
    simp
    omega

/-! ## The number of bits -/

/-- A byte is a number up to `256`. -/
lemma ofNat_congr {m n : ℕ} (h : m % 256 = n % 256) : UInt8.ofNat m = UInt8.ofNat n := by
  apply UInt8.toNat_inj.1
  simpa using h

/-- The low byte of a number is the number as a byte. -/
lemma lowByte_eq (n : ℕ) : lowByte n = UInt8.ofNat n := by
  rw [lowByte, show (0xFF : ℕ) = 2 ^ 8 - 1 by rfl, Nat.and_two_pow_sub_one_eq_mod]
  apply ofNat_congr
  simp

/-- Three digits of 16 bits hold 48 bits of the number of bits. -/
lemma lengthBytes_eq (len : ℕ) : lengthBytes len = leBytes 8 (8 * len % 2 ^ 48) := by
  have hmask : ∀ n, n &&& 0xFFFF = n % 65536 := fun n => Nat.and_two_pow_sub_one_eq_mod n 16
  simp only [lengthBytes, leBytes, lowByte_eq, hmask, Nat.shiftRight_eq_div_pow]
  rw [show (0 : UInt8) = UInt8.ofNat 0 by rfl]
  simp only [List.range, List.range.loop, List.map_cons, List.map_nil, List.cons.injEq, and_true]
  refine ⟨?_, ?_, ?_, ?_, ?_, ?_, ?_, ?_⟩ <;> apply ofNat_congr <;> omega

/-- How much is added. -/
lemma extraLen_eq (len : ℕ) : extraLen len = (119 - len % 64) % 64 + 9 := by
  have := Nat.mod_lt len (show 0 < 64 by omega)
  simp only [extraLen]
  split <;> omega

/-- The length takes eight bytes. -/
lemma length_lengthBytes (len : ℕ) : (lengthBytes len).length = 8 := rfl

/-- **The array is the padded message.**

**Proof sketch.** The array is filled from the left: with the message, with the byte `0x80`, with
the zeros, and with the length, which ends at its last byte but one. -/
theorem md5Temp_eq {input : List UInt8} (hlen : input.length + 72 < 2 ^ 64) :
    md5Temp input = .ok ((padded input (8 * input.length % 2 ^ 48)).map some) := by
  set zeros := (119 - input.length % 64) % 64 with hzeros
  have hzlt : zeros < 64 := Nat.mod_lt _ (by omega)
  have hnew : List.replicate ((extraLen input.length + input.length) % 2 ^ 64) none =
      begun [] (input.length + (zeros + 8 + 1)) := by
    rw [extraLen_eq, Nat.mod_eq_of_lt (by omega), begun, List.map_nil, List.nil_append]
    congr 1
    omega
  have hcopy := fillLoop_begun (f := fun p => input[p]?) input [] (zeros + 8 + 1)
    (fun k hk => by simp [hk])
  have hzero := fillLoop_begun (f := fun _ => some 0) (List.replicate zeros 0)
    (input ++ [0x80]) 8 (fun k hk => by simp)
  have hbytes := foldlM_put (lengthBytes input.length) (input ++ [0x80] ++ List.replicate zeros 0) 0
  rw [length_lengthBytes] at hbytes
  have hstop : input.length + (extraLen input.length - 8) =
      (input ++ [0x80]).length + zeros := by
    rw [extraLen_eq, List.length_append, List.length_singleton]
    omega
  rw [List.nil_append, List.length_nil, Nat.zero_add] at hcopy
  rw [List.length_replicate, ← hstop] at hzero
  simp only [md5Temp, hnew, hcopy, bind, Except.bind, put_begun, hzero, hbytes]
  rw [begun, List.replicate_zero, List.append_nil, padded, ← hzeros, lengthBytes_eq]
  simp [pure, Except.pure]

/-! ## The words -/

/-- Elements that have been written are read. -/
lemma byteAt_map {l : List UInt8} {i : ℕ} (hi : i < l.length) :
    byteAt (l.map some) i = .ok (l[i].toBitVec.setWidth 32) := by
  rw [byteAt, List.getElem?_map, List.getElem?_eq_getElem hi]
  rfl

/-- Four bytes put together by shifts.

**Proof sketch.** The shifts lose nothing, since a byte shifted by up to 24 stays below `2 ^ 32`,
and what is joined by `|||` has no bit in common, so that joining is adding. -/
lemma word_eq (b0 b1 b2 b3 : UInt8) :
    (b3.toBitVec.setWidth 32 <<< 24) ||| (b2.toBitVec.setWidth 32 <<< 16)
        ||| (b1.toBitVec.setWidth 32 <<< 8) ||| b0.toBitVec.setWidth 32 =
      BitVec.ofNat 32 (littleEndian [b0, b1, b2, b3]) := by
  have h0 := b0.toNat_lt
  have h1 := b1.toNat_lt
  have h2 := b2.toNat_lt
  have h3 := b3.toNat_lt
  have hsmall : ∀ b : UInt8, (b.toBitVec.setWidth 32).toNat = b.toNat := by
    intro b
    rw [BitVec.toNat_setWidth, UInt8.toNat_toBitVec, Nat.mod_eq_of_lt]
    exact b.toNat_lt.trans (by decide)
  apply BitVec.eq_of_toNat_eq
  simp only [BitVec.toNat_or, BitVec.toNat_shiftLeft, hsmall, BitVec.toNat_ofNat, littleEndian,
    List.foldr_cons, List.foldr_nil]
  have hfit : ∀ (b : UInt8) (k : ℕ), k ≤ 24 → b.toNat <<< k % 2 ^ 32 = b.toNat <<< k := by
    intro b k hk
    apply Nat.mod_eq_of_lt
    rw [Nat.shiftLeft_eq]
    calc b.toNat * 2 ^ k < 2 ^ 8 * 2 ^ k :=
          Nat.mul_lt_mul_of_pos_right b.toNat_lt (Nat.two_pow_pos k)
      _ = 2 ^ (8 + k) := (pow_add 2 8 k).symm
      _ ≤ 2 ^ 32 := Nat.pow_le_pow_right (by omega) (by omega)
  rw [hfit b3 24 (by omega), hfit b2 16 (by omega), hfit b1 8 (by omega), Nat.or_assoc,
    Nat.or_assoc, ← Nat.shiftLeft_add_eq_or_of_lt h0, ← Nat.shiftLeft_add_eq_or_of_lt
      (show b1.toNat <<< 8 + b0.toNat < 2 ^ 16 by rw [Nat.shiftLeft_eq]; omega),
    ← Nat.shiftLeft_add_eq_or_of_lt
      (show b2.toNat <<< 16 + (b1.toNat <<< 8 + b0.toNat) < 2 ^ 24 by
        rw [Nat.shiftLeft_eq, Nat.shiftLeft_eq]
        omega)]
  simp only [Nat.shiftLeft_eq]
  omega

/-- The part of a list at a position. -/
lemma take_four {l : List UInt8} {i : ℕ} (hi : i + 3 < l.length) :
    (l.drop i).take 4 = [l[i], l[i + 1], l[i + 2], l[i + 3]] := by
  rw [List.drop_eq_getElem_cons (by omega), List.drop_eq_getElem_cons (by omega),
    List.drop_eq_getElem_cons (by omega), List.drop_eq_getElem_cons (by omega)]
  rfl

/-- A word of a block is read. -/
lemma wordAt_map {l : List UInt8} {i j : ℕ} (hj : j < 16) (hi : 64 * i + 64 ≤ l.length) :
    wordAt (l.map some) i j =
      .ok (BitVec.ofNat 32 (littleEndian ((((l.drop (64 * i)).take 64).drop (4 * j)).take 4))) := by
  have hpart : (((l.drop (64 * i)).take 64).drop (4 * j)).take 4 =
      (l.drop (4 * (j + 16 * i))).take 4 := by
    rw [List.drop_take, List.take_take, List.drop_drop]
    congr 1
    · omega
    · congr 1
      omega
  rw [hpart, take_four (by omega), ← word_eq, wordAt, byteAt_map (by omega), byteAt_map (by omega),
    byteAt_map (by omega), byteAt_map (by omega)]
  rfl

/-- Reads that all succeed. -/
lemma mapM_ok {α β ε : Type} {f : α → Except ε β} {g : α → β} {l : List α}
    (h : ∀ a ∈ l, f a = .ok (g a)) : l.mapM f = .ok (l.map g) := by
  induction l with
  | nil => rfl
  | cons a l ih =>
    rw [List.mapM_cons, h a (by simp), ih fun b hb => h b (List.mem_cons_of_mem a hb)]
    rfl

/-- Turns that all succeed. -/
lemma foldlM_ok {α β ε : Type} {f : β → α → Except ε β} {g : β → α → β} {l : List α}
    (h : ∀ a ∈ l, ∀ b, f b a = .ok (g b a)) (b : β) : l.foldlM f b = .ok (l.foldl g b) := by
  induction l generalizing b with
  | nil => rfl
  | cons a l ih =>
    rw [List.foldlM_cons, h a (by simp), List.foldl_cons,
      ← ih fun c hc => h c (List.mem_cons_of_mem a hc)]
    rfl

/-- A turn is what a block does. -/
lemma turn_map {l : List UInt8} (r : Registers) {i : ℕ} (hi : 64 * i + 64 ≤ l.length) :
    turn (l.map some) r i = .ok (compress r ((l.drop (64 * i)).take 64)) := by
  have hblock : ((l.drop (64 * i)).take 64).length = 4 * 16 := by
    rw [List.length_take, List.length_drop]
    omega
  rw [turn, mapM_ok fun j hj => wordAt_map (List.mem_range.1 hj) hi, compress, ← scrambleBlock_eq,
    words, blocks_eq_map_range (by omega) hblock, List.map_map]
  rfl

/-! ## The result -/

/-- The bytes of a variable. -/
lemma outputBytes_eq (v : BitVec 32) : outputBytes v = leBytes 4 v.toNat := by
  have hbyte : ∀ k, UInt8.ofBitVec ((v >>> k &&& 0xFF).setWidth 8) =
      UInt8.ofNat (v.toNat / 2 ^ k) := by
    intro k
    have hmask : v.toNat / 2 ^ k &&& (0xFF#32).toNat = v.toNat / 2 ^ k % 2 ^ 8 :=
      Nat.and_two_pow_sub_one_eq_mod _ 8
    apply UInt8.toNat_inj.1
    rw [UInt8.toNat_ofBitVec, BitVec.toNat_setWidth, BitVec.toNat_and, BitVec.toNat_ushiftRight,
      Nat.shiftRight_eq_div_pow, UInt8.toNat_ofNat']
    exact (congrArg (· % 2 ^ 8) hmask).trans (Nat.mod_mod _ _)
  have hzero := hbyte 0
  rw [BitVec.ushiftRight_zero] at hzero
  rw [outputBytes, hzero, hbyte, hbyte, hbyte]
  rfl

/-- The letters of a byte, none of which is the zero byte. -/
lemma hexLetter_eq (b : UInt8) :
    hexLetter (b >>> 4) = (Search.text "0123456789abcdef").getD (b.toNat / 16) 0 ∧
      hexLetter (b &&& 0x0F) = (Search.text "0123456789abcdef").getD (b.toNat % 16) 0 ∧
      hexLetter (b >>> 4) ≠ 0 ∧ hexLetter (b &&& 0x0F) ≠ 0 := by
  revert b
  apply CString.forall_byte
  decide +kernel

/-- `byteToHexStr` writes two letters for each byte. -/
theorem byteToHexStr_eq (bytes : List UInt8) : byteToHexStr bytes = hexText bytes := by
  have hletters : hexLetters bytes = hexText bytes := by
    rw [hexLetters, hexText]
    apply List.flatMap_congr
    intro b _
    obtain ⟨hhigh, hlow, -, -⟩ := hexLetter_eq b
    rw [hhigh, hlow]
  have hzero : 0 ∉ hexLetters bytes := by
    intro hmem
    obtain ⟨b, -, hb⟩ := List.mem_flatMap.1 hmem
    obtain ⟨-, -, hhigh, hlow⟩ := hexLetter_eq b
    rcases List.mem_pair.1 hb with h | h
    · exact hhigh h.symm
    · exact hlow h.symm
  rw [byteToHexStr, CString.terminated, CString.upToZero_append_zero,
    CString.upToZero_eq_self_iff.2 hzero, hletters]

/-- The blocks are read one after the other.

**Proof sketch.** The padded message has a multiple of 64 bytes, so every turn of the loop finds
its block, and what the turns do to the registers one after the other is `digest` of the blocks. -/
theorem md5_eq (input : List UInt8) (hlen : input.length + 72 < 2 ^ 64) :
    md5 (some input) =
      .ok (hexText (digest (padded input (8 * input.length % 2 ^ 48)))) := by
  set message := padded input (8 * input.length % 2 ^ 48) with hmessage
  have hlength : message.length = extraLen input.length + input.length := by
    rw [hmessage, padded, extraLen_eq, leBytes]
    simp
    omega
  have hdvd : 64 ∣ extraLen input.length + input.length := by
    rw [extraLen_eq]
    omega
  obtain ⟨N, hN⟩ := hdvd
  have hturns : (List.range N).foldlM (turn (message.map some)) initial =
      .ok ((List.range N).foldl (fun r i => compress r ((message.drop (64 * i)).take 64))
        initial) := by
    apply foldlM_ok
    intro i hi r
    have := List.mem_range.1 hi
    exact turn_map r (by omega)
  have hblocks : blocks 64 message =
      (List.range N).map fun i => (message.drop (64 * i)).take 64 :=
    blocks_eq_map_range (by omega) (hlength.trans hN)
  simp only [md5, md5Temp_eq hlen, ← hmessage, bind, Except.bind, hN,
    Nat.mul_div_cancel_left N (show 0 < 64 by omega), hturns]
  rw [digest, hblocks, List.foldl_map, byteToHexStr_eq]
  simp only [outputBytes_eq]
  rfl

/-- **The text that `md5` writes.** No element of the array is read before it is written, and none
behind its end. The message is padded as for the checksum, but of the number of its bits only the
last 48 binary digits are written: `md5` writes the checksum of a message of less than `2 ^ 45`
bytes, and what is hashed for a longer one is not its padded message.

**Proof sketch.** The array is the padded message with the length that the source writes, by
`md5_eq`. Below `2 ^ 45` bytes its number of bits has at most 48 digits and is whole; above, the
eight bytes of the length differ. -/
theorem md5_eq_checksum {input : List UInt8} (hlen : input.length < 2 ^ 61) :
    md5 (some input) = .ok (hexText (digest (padded input (8 * input.length % 2 ^ 48)))) ∧
      (input.length < 2 ^ 45 → md5 (some input) = .ok (hexText (checksum input))) ∧
      (2 ^ 45 ≤ input.length →
        padded input (8 * input.length % 2 ^ 48) ≠ padded input (8 * input.length)) := by
  have heq := md5_eq input (by omega)
  refine ⟨heq, ?_, ?_⟩
  · intro hshort
    rw [heq, checksum, Nat.mod_eq_of_lt (by omega)]
  · intro hlong hsame
    rw [padded, padded, List.append_cancel_left_eq, List.cons.injEq,
      List.append_cancel_left_eq] at hsame
    have hmod := congrArg littleEndian hsame.2
    rw [littleEndian_leBytes, littleEndian_leBytes] at hmod
    rw [show (256 : ℕ) ^ 8 = 2 ^ 64 by norm_num] at hmod
    omega

/-- A message of 64 bytes: the first block is filled by the copy of the message itself, and the
padding needs a block of its own. -/
theorem md5_eq_checksum_block :
    md5 (some (List.replicate 64 97)) = .ok (hexText (checksum (List.replicate 64 97))) ∧
      md5 (some (List.replicate 64 97)) =
        .ok (Search.text "014842d480b571495a4a0363793f7367") :=
  ⟨(md5_eq_checksum (by decide)).2.1 (by decide), by decide +kernel⟩

end Md5
