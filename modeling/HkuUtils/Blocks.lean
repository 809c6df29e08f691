import Mathlib.Data.List.Basic
import Mathlib.Data.List.Induction
import Mathlib.Tactic.Ring

set_option relaxedAutoImplicit false
set_option autoImplicit false

/-!
# Lists in blocks, strings of bits and of bytes

A list is cut into blocks of one length, the last of which may be shorter. A number is the string of
its bits, the most significant one first, so that a number that is put together from the bits of
others is a string that is cut at other places. In the order of little-endian machines it is a
string of bytes, the least significant one first.

## Main definitions

* `Blocks.blocks` — a list in blocks of `n`.
* `Blocks.bits`, `Blocks.value` — the `w` bits of a number, and the number of some bits.
* `Blocks.leBytes`, `Blocks.littleEndian` — the `k` bytes of a number, and the number of some bytes.

## Main results

* `Blocks.flatten_blocks`, `blocks_append_of_length`, `blocks_eq_map_range` — the blocks put
  together, a block in front, and the blocks by their positions.
* `Blocks.value_bits`, `bits_add`, `value_append` — numbers and strings of bits.
* `Blocks.littleEndian_leBytes`, `littleEndian_take` — numbers and strings of bytes.
-/

namespace Blocks

universe u

variable {α : Type u} {n : ℕ} {l a b : List α}

/-! ## Blocks -/

/-- A list cut into blocks of `n`; the last one may be shorter. -/
def blocks (n : ℕ) (l : List α) : List (List α) :=
  if _h : n = 0 ∨ l = [] then [] else l.take n :: blocks n (l.drop n)
termination_by l.length
decreasing_by
  rw [not_or] at _h
  have hpos := List.length_pos_of_ne_nil _h.2
  simp
  omega

/-- Nothing has no blocks. -/
@[simp] lemma blocks_nil (n : ℕ) : blocks n ([] : List α) = [] := by
  rw [blocks, dif_pos (.inr rfl)]

/-- The first block. -/
lemma blocks_of_ne_nil (hn : 0 < n) (hl : l ≠ []) :
    blocks n l = l.take n :: blocks n (l.drop n) := by
  rw [blocks, dif_neg]
  rw [not_or]
  exact ⟨by omega, hl⟩

/-- The blocks put together are the list. -/
theorem flatten_blocks (hn : 0 < n) (l : List α) : (blocks n l).flatten = l := by
  induction hlen : l.length using Nat.strong_induction_on generalizing l with
  | _ m ih =>
  by_cases hl : l = []
  · simp [hl]
  · have hpos := List.length_pos_of_ne_nil hl
    rw [blocks_of_ne_nil hn hl, List.flatten_cons, ih (l.drop n).length _ _ rfl,
      List.take_append_drop]
    simp
    omega

/-- A block in front. -/
lemma blocks_append_of_length (hn : 0 < n) (ha : a.length = n) :
    blocks n (a ++ b) = a :: blocks n b := by
  have hne : a ++ b ≠ [] := by
    intro h
    simp_all
  rw [blocks_of_ne_nil hn hne, List.take_left' ha, List.drop_left' ha]

/-- **The blocks by their positions**, where the last one is full. -/
theorem blocks_eq_map_range (hn : 0 < n) {k : ℕ} (hl : l.length = n * k) :
    blocks n l = (List.range k).map fun i => (l.drop (n * i)).take n := by
  induction k generalizing l with
  | zero =>
    rw [Nat.mul_zero, List.length_eq_zero_iff] at hl
    simp [hl]
  | succ k ih =>
    have hne : l ≠ [] := by
      apply List.ne_nil_of_length_pos
      rw [hl]
      exact Nat.mul_pos hn (Nat.succ_pos k)
    have hrest : (l.drop n).length = n * k := by
      rw [List.length_drop, hl, Nat.mul_succ, Nat.add_sub_cancel]
    rw [blocks_of_ne_nil hn hne, ih hrest, List.range_succ_eq_map, List.map_cons, List.map_map]
    congr 1
    apply List.map_congr_left
    intro i _
    rw [Function.comp_apply, List.drop_drop, Nat.mul_succ, Nat.add_comm]

/-! ## Bits -/

/-- The number of some bits, the most significant one first. -/
def value (s : List Bool) : ℕ := s.foldl (fun v b => 2 * v + b.toNat) 0

/-- The `w` bits of a number, the most significant one first. -/
def bits : ℕ → ℕ → List Bool
  | 0, _ => []
  | w + 1, v => bits w (v / 2) ++ [decide (v % 2 = 1)]

/-- A number is cut to as many bits as are asked for. -/
@[simp] lemma length_bits (w v : ℕ) : (bits w v).length = w := by
  induction w generalizing v with
  | zero => rfl
  | succ w ih => simp [bits, ih]

/-- No bits have the value zero. -/
@[simp] lemma value_nil : value [] = 0 := rfl

/-- One more bit at the end doubles the value. -/
@[simp] lemma value_concat (s : List Bool) (b : Bool) :
    value (s ++ [b]) = 2 * value s + b.toNat := by
  simp [value]

/-- Bits behind others. -/
theorem value_append (s t : List Bool) : value (s ++ t) = value s * 2 ^ t.length + value t := by
  induction t using List.reverseRecOn with
  | nil => simp
  | append_singleton t b ih =>
    rw [← List.append_assoc, value_concat, value_concat, ih, List.length_append,
      List.length_singleton]
    ring

/-- Zeros behind some bits. -/
theorem value_append_zeros (s : List Bool) (k : ℕ) :
    value (s ++ List.replicate k false) = value s * 2 ^ k := by
  induction k with
  | zero => simp
  | succ k ih =>
    rw [List.replicate_succ', ← List.append_assoc, value_concat, ih, pow_succ]
    simp
    ring

/-- The number of the last bits of a number. -/
theorem value_bits (w v : ℕ) : value (bits w v) = v % 2 ^ w := by
  induction w generalizing v with
  | zero => simp [bits, Nat.mod_one]
  | succ w ih =>
    have hsplit : v % 2 ^ (w + 1) = v % 2 + 2 * (v / 2 % 2 ^ w) := by
      rw [pow_succ', Nat.mod_mul]
    rw [bits, value_concat, ih, hsplit]
    rcases Nat.mod_two_eq_zero_or_one v with h | h
    · simp [h]
    · simp [h]
      omega

/-- The first and the last bits of a number. -/
theorem bits_add (w k v : ℕ) : bits (w + k) v = bits w (v / 2 ^ k) ++ bits k v := by
  induction k generalizing v with
  | zero => simp [bits]
  | succ k ih =>
    rw [← Nat.add_assoc, bits, bits, ih, Nat.div_div_eq_div_mul, ← pow_succ', List.append_assoc]

/-! ## Bytes -/

/-- The number of some bytes, the least significant one first. -/
def littleEndian (l : List UInt8) : ℕ := l.foldr (fun b v => b.toNat + 256 * v) 0

/-- The `k` bytes of a number, the least significant one first. -/
def leBytes (k v : ℕ) : List UInt8 := (List.range k).map fun i => UInt8.ofNat (v / 256 ^ i)

/-- A number is cut to as many bytes as are asked for. -/
@[simp] lemma length_leBytes (k v : ℕ) : (leBytes k v).length = k := by simp [leBytes]

/-- The low byte comes first. -/
lemma leBytes_succ (k v : ℕ) : leBytes (k + 1) v = UInt8.ofNat v :: leBytes k (v / 256) := by
  rw [leBytes, List.range_succ_eq_map, List.map_cons, List.map_map, pow_zero, Nat.div_one, leBytes]
  congr 1
  apply List.map_congr_left
  intro i _
  rw [Function.comp_apply, pow_succ', Nat.div_div_eq_div_mul]

/-- The number of the last bytes of a number. -/
theorem littleEndian_leBytes (k v : ℕ) : littleEndian (leBytes k v) = v % 256 ^ k := by
  induction k generalizing v with
  | zero => simp [leBytes, littleEndian, Nat.mod_one]
  | succ k ih =>
    have hcons : littleEndian (leBytes (k + 1) v) =
        (UInt8.ofNat v).toNat + 256 * littleEndian (leBytes k (v / 256)) := by
      rw [leBytes_succ]
      rfl
    rw [hcons, ih, UInt8.toNat_ofNat']
    exact Nat.mod_mul.symm.trans (congrArg (v % ·) (pow_succ' 256 k).symm)

/-- The number of the first of some bytes. -/
theorem littleEndian_take (k : ℕ) (l : List UInt8) :
    littleEndian (l.take k) = littleEndian l % 256 ^ k := by
  induction l generalizing k with
  | nil => simp [littleEndian]
  | cons b l ih =>
    cases k with
    | zero => simp [littleEndian, Nat.mod_one]
    | succ k =>
      have hb := b.toNat_lt
      have hcons : ∀ l, littleEndian (b :: l) = b.toNat + 256 * littleEndian l := fun l => rfl
      have hdiv : (b.toNat + 256 * littleEndian l) / 256 = littleEndian l := by omega
      have hmod : (b.toNat + 256 * littleEndian l) % 256 = b.toNat := by omega
      rw [List.take_succ_cons, hcons, hcons, ih, pow_succ', Nat.mod_mul, hdiv, hmod]

/-- The number of some bytes is one of that many bytes. -/
lemma littleEndian_lt (l : List UInt8) : littleEndian l < 256 ^ l.length := by
  have htake := littleEndian_take l.length l
  rw [List.take_length] at htake
  rw [htake]
  exact Nat.mod_lt _ (Nat.pow_pos (by omega))

end Blocks
