import HkuUtils.Blocks
import HkuUtils.Search
import HkuUtils.Sines
import HkuUtils.Md5.Model

set_option relaxedAutoImplicit false
set_option autoImplicit false

/-!
# What MD5 computes

The checksum in its own terms, apart from how `md5.cpp` computes it. A message is padded and cut
into blocks of 64 bytes. Each block is read as 16 words and changes four words in 64 steps; the
constant of a step is a number of digits of a sine, and the four words trade places after it.

## Main definitions

* `Md5.padded` — a message with its padding, where a number stands at its end.
* `Md5.step`, `Md5.compress` — a step, and what a block does.
* `Md5.digest`, `Md5.checksum` — the 16 bytes that a padded message and a message give.

## Main results

* `Md5.calls_eq` — the calls of `scramble_block` by their positions.
* `Md5.constantAt_eq` — their constants are the digits of sines.
* `Md5.scrambleBlock_eq` — **the calls on four variables are the 64 steps on four words.**
-/

namespace Md5

open Blocks

/-! ## Bytes and words -/

/-- The words of a block. -/
def words (block : List UInt8) : List (BitVec 32) :=
  (blocks 4 block).map fun l => BitVec.ofNat 32 (littleEndian l)

/-- A message with its padding: a byte whose first bit is set, the least number of zeros that leaves
eight bytes in a block, and a number in these. -/
def padded (message : List UInt8) (number : ℕ) : List UInt8 :=
  message ++ 0x80 :: (List.replicate ((119 - message.length % 64) % 64) 0 ++ leBytes 8 number)

/-- Bytes as text, with two lower-case hexadecimal digits for each. -/
def hexText (bytes : List UInt8) : List UInt8 :=
  bytes.flatMap fun b =>
    [(Search.text "0123456789abcdef").getD (b.toNat / 16) 0,
      (Search.text "0123456789abcdef").getD (b.toNat % 16) 0]

/-! ## Steps -/

/-- The function of a step. -/
def mixAt (i : ℕ) : Mix :=
  if i < 16 then .FF else if i < 32 then .GG else if i < 48 then .HH else .II

/-- The word that a step reads. -/
def wordIndex (i : ℕ) : ℕ :=
  if i < 16 then i else if i < 32 then (5 * i + 1) % 16
  else if i < 48 then (3 * i + 5) % 16 else 7 * i % 16

/-- By how many bits a step rotates. -/
def amount (i : ℕ) : ℕ :=
  ([[7, 12, 17, 22], [5, 9, 14, 20], [4, 11, 16, 23], [6, 10, 15, 21]].getD (i / 16) []).getD
    (i % 4) 0

/-- The constant of a step: the first 32 binary digits of a sine. -/
noncomputable def sineWord (i : ℕ) : BitVec 32 :=
  BitVec.ofNat 32 ⌊((2 ^ 32 : ℕ) : ℝ) * |Real.sin ((i + 1 : ℕ) : ℝ)|⌋₊

/-- A step: the first word is changed, and all four trade places. -/
noncomputable def step (x : List (BitVec 32)) (r : Registers) (i : ℕ) : Registers where
  a := r.d
  b := r.b + (r.a + (mixAt i).run r.b r.c r.d + x.getD (wordIndex i) 0
    + sineWord i).rotateLeft (amount i)
  c := r.b
  d := r.c

/-- What a block does. -/
noncomputable def compress (r : Registers) (block : List UInt8) : Registers :=
  ((List.range 64).foldl (step (words block)) r).add r

/-- The 16 bytes that a padded message gives. -/
noncomputable def digest (message : List UInt8) : List UInt8 :=
  let r := (blocks 64 message).foldl compress initial
  leBytes 4 r.a.toNat ++ leBytes 4 r.b.toNat ++ leBytes 4 r.c.toNat ++ leBytes 4 r.d.toNat

/-- The checksum of a message: the number at its end is the number of its bits. -/
noncomputable def checksum (message : List UInt8) : List UInt8 :=
  digest (padded message (8 * message.length))

/-! ## The calls by their positions -/

/-- The variables in the order in which calls change them. -/
def register (i : ℕ) : Register := [Register.a, .d, .c, .b].getD (i % 4) .a

/-- The constant of a call. -/
def constantAt (i : ℕ) : BitVec 32 := (calls.map Call.ac).getD i 0

/-- The call at a position. -/
def callAt (i : ℕ) : Call where
  mix := mixAt i
  a := register i
  b := register (i + 3)
  c := register (i + 2)
  d := register (i + 1)
  x := wordIndex i
  s := amount i
  ac := constantAt i

/-- The calls by their positions. -/
theorem calls_eq : calls = (List.range 64).map callAt := by decide

/-- The constants are exact digits of sines. -/
lemma decides_constantAt :
    ∀ i < 64, Sines.Decides 19 (2 ^ 32) (i + 1) (constantAt i).toNat := by
  decide +kernel

/-- **The constants are the digits of sines.** -/
theorem constantAt_eq {i : ℕ} (hi : i < 64) : constantAt i = sineWord i := by
  rw [sineWord, Sines.floor_mul_abs_sin (decides_constantAt i hi), BitVec.ofNat_toNat,
    BitVec.setWidth_eq]

/-! ## Calls as steps -/

/-- A register that was set has the value, and the others stay. -/
lemma Registers.get_set (r : Registers) (v : BitVec 32) (p q : Register) :
    (r.set v p).get q = if q = p then v else r.get q := by
  cases p <;> cases q <;> rfl

/-- The four words after some steps, in the variables. -/
def view (i : ℕ) (r : Registers) : Registers where
  a := r.get (register i)
  b := r.get (register (i + 3))
  c := r.get (register (i + 2))
  d := r.get (register (i + 1))

/-- The variables of four calls in a row are different ones. -/
lemma register_ne (i : ℕ) :
    register (i + 1) ≠ register i ∧ register (i + 2) ≠ register i ∧
      register (i + 3) ≠ register i := by
  have hbelow : ∀ k < 4, register (k + 1) ≠ register k ∧ register (k + 2) ≠ register k ∧
      register (k + 3) ≠ register k := by decide
  have hmod : ∀ j, register (i + j) = register (i % 4 + j) := by
    intro j
    rw [register, register, Nat.mod_add_mod]
  have hi := hbelow (i % 4) (Nat.mod_lt i (by omega))
  rw [hmod 1, hmod 2, hmod 3, ← Nat.add_zero i, hmod 0]
  exact hi

/-- The registers take turns in fours. -/
lemma register_add_four (i : ℕ) : register (i + 4) = register i := by
  rw [register, Nat.add_mod_right, register]

/-- A rotation by shifts. -/
lemma rotateLeft_eq (x : BitVec 32) {n : ℕ} (hn : n < 32) : rotateLeft x n = x.rotateLeft n := by
  rw [BitVec.rotateLeft_def, Nat.mod_eq_of_lt hn, rotateLeft]

/-- A step turns by less than a whole word. -/
lemma amount_lt {i : ℕ} (hi : i < 64) : amount i < 32 := by
  revert i
  decide

/-- A call is a step. -/
lemma view_run (x : List (BitVec 32)) (r : Registers) {i : ℕ} (hi : i < 64) :
    view (i + 1) ((callAt i).run x r) = step x (view i r) i := by
  obtain ⟨h1, h2, h3⟩ := register_ne i
  rw [Call.run, callAt, rotateLeft_eq _ (amount_lt hi), constantAt_eq hi]
  simp only [view, step, Registers.get_set, register_add_four, h1, h2, h3, if_false, if_true]
  congr 1
  rw [BitVec.add_comm, ← BitVec.add_assoc, ← BitVec.add_assoc]

/-- **The calls on four variables are the 64 steps on four words.** -/
theorem scrambleBlock_eq (r : Registers) (x : List (BitVec 32)) :
    scrambleBlock r x = (List.range 64).foldl (step x) r := by
  have hrun : ∀ n ≤ 64, view n ((List.range n).foldl (fun r i => (callAt i).run x r) r) =
      (List.range n).foldl (step x) r := by
    intro n
    induction n with
    | zero => intro _; rfl
    | succ n ih =>
      intro hn
      rw [List.range_succ, List.foldl_append, List.foldl_append, List.foldl_cons, List.foldl_nil,
        List.foldl_cons, List.foldl_nil, view_run x _ (by omega), ih (by omega)]
  -- after 64 steps the words are where they were
  have hview : ∀ r, view 64 r = r := fun r => rfl
  have hall := hrun 64 le_rfl
  rw [hview] at hall
  rw [scrambleBlock, calls_eq, List.foldl_map, hall]

end Md5
