import Mathlib.Algebra.Group.Nat.Defs
import HkuUtils.CString

set_option relaxedAutoImplicit false
set_option autoImplicit false

/-!
# The checksum MD5

The functions of `md5.cpp`, and `byteToHexStr` of `arithmetic.h`, which writes the result. The
message is copied into a new array with its padding behind it, through two pointers, and the number
of its bits is put together from three digits of 16 bits.

## Main definitions

* `Md5.scrambleBlock` — the 64 calls of `FF`, `GG`, `HH` and `II` on four registers.
* `Md5.md5Temp` — the array `temp` when it has been filled.
* `Md5.md5` — the function as a whole.
* `Md5.byteToHexStr` — the text of some bytes.

## Design

The calls of `scramble_block` differ in their arguments only, so they are a list that a reader can
hold against the source. An element of `temp` is `none` until it is written: what reads such an
element or leaves the array is undefined. The type `unsigned long` has 64 bits.
-/

namespace Md5

/-- How `md5` can end without a result. -/
inductive Failure
  /-- `HKU_CHECK` throws. -/
  | thrown (what : String)
  /-- The behaviour is undefined. -/
  | undefined
deriving DecidableEq, Repr

/-! ## The functions of a block -/

/-- `F`. -/
def F (x y z : BitVec 32) : BitVec 32 := (x &&& y) ||| (~~~x &&& z)

/-- `G`. -/
def G (x y z : BitVec 32) : BitVec 32 := (x &&& z) ||| (y &&& ~~~z)

/-- `H`. -/
def H (x y z : BitVec 32) : BitVec 32 := x ^^^ y ^^^ z

/-- `I`. -/
def I (x y z : BitVec 32) : BitVec 32 := y ^^^ (x ||| ~~~z)

/-- `rotate_left`. -/
def rotateLeft (x : BitVec 32) (n : ℕ) : BitVec 32 := (x <<< n) ||| (x >>> (32 - n))

/-- The variables that a call changes and reads. -/
inductive Register
  | a | b | c | d
deriving DecidableEq, Repr

/-- The values of the four variables. -/
structure Registers where
  a : BitVec 32
  b : BitVec 32
  c : BitVec 32
  d : BitVec 32
deriving DecidableEq, Repr

namespace Registers

/-- The value of a variable. -/
def get (r : Registers) : Register → BitVec 32
  | .a => r.a
  | .b => r.b
  | .c => r.c
  | .d => r.d

/-- An assignment. -/
def set (r : Registers) (v : BitVec 32) : Register → Registers
  | .a => { r with a := v }
  | .b => { r with b := v }
  | .c => { r with c := v }
  | .d => { r with d := v }

/-- The additions at the end of a turn: `a = a + aa` and so on. -/
def add (r s : Registers) : Registers := ⟨r.a + s.a, r.b + s.b, r.c + s.c, r.d + s.d⟩

end Registers

/-- Which of the four functions is called. -/
inductive Mix
  | FF | GG | HH | II
deriving DecidableEq, Repr

/-- What the function mixes the three other values with. -/
def Mix.run : Mix → BitVec 32 → BitVec 32 → BitVec 32 → BitVec 32
  | .FF => F
  | .GG => G
  | .HH => H
  | .II => I

/-- A call: the function, its four variables, the index in `x`, and the arguments `s` and `ac`. -/
structure Call where
  mix : Mix
  a : Register
  b : Register
  c : Register
  d : Register
  x : ℕ
  s : ℕ
  ac : BitVec 32
deriving DecidableEq, Repr

/-- `FF`, `GG`, `HH` and `II`, which change their first argument. -/
def Call.run (call : Call) (x : List (BitVec 32)) (r : Registers) : Registers :=
  let a := r.get call.a
  let b := r.get call.b
  let a := a + (call.mix.run b (r.get call.c) (r.get call.d) + x.getD call.x 0 + call.ac)
  let a := rotateLeft a call.s
  let a := a + b
  r.set a call.a

/-- The first amount of the first round. -/
def S11 : ℕ := 7
/-- The second amount of the first round. -/
def S12 : ℕ := 12
/-- The third amount of the first round. -/
def S13 : ℕ := 17
/-- The fourth amount of the first round. -/
def S14 : ℕ := 22
/-- The first amount of the second round. -/
def S21 : ℕ := 5
/-- The second amount of the second round. -/
def S22 : ℕ := 9
/-- The third amount of the second round. -/
def S23 : ℕ := 14
/-- The fourth amount of the second round. -/
def S24 : ℕ := 20
/-- The first amount of the third round. -/
def S31 : ℕ := 4
/-- The second amount of the third round. -/
def S32 : ℕ := 11
/-- The third amount of the third round. -/
def S33 : ℕ := 16
/-- The fourth amount of the third round. -/
def S34 : ℕ := 23
/-- The first amount of the fourth round. -/
def S41 : ℕ := 6
/-- The second amount of the fourth round. -/
def S42 : ℕ := 10
/-- The third amount of the fourth round. -/
def S43 : ℕ := 15
/-- The fourth amount of the fourth round. -/
def S44 : ℕ := 21

/-- The calls of `scramble_block`, as they stand in the source: the function, the order of the
words, the place in the block, the shift and the constant. -/
def calls : List Call := [
  ⟨.FF, .a, .b, .c, .d, 0, S11, 0xd76aa478⟩,
  ⟨.FF, .d, .a, .b, .c, 1, S12, 0xe8c7b756⟩,
  ⟨.FF, .c, .d, .a, .b, 2, S13, 0x242070db⟩,
  ⟨.FF, .b, .c, .d, .a, 3, S14, 0xc1bdceee⟩,
  ⟨.FF, .a, .b, .c, .d, 4, S11, 0xf57c0faf⟩,
  ⟨.FF, .d, .a, .b, .c, 5, S12, 0x4787c62a⟩,
  ⟨.FF, .c, .d, .a, .b, 6, S13, 0xa8304613⟩,
  ⟨.FF, .b, .c, .d, .a, 7, S14, 0xfd469501⟩,
  ⟨.FF, .a, .b, .c, .d, 8, S11, 0x698098d8⟩,
  ⟨.FF, .d, .a, .b, .c, 9, S12, 0x8b44f7af⟩,
  ⟨.FF, .c, .d, .a, .b, 10, S13, 0xffff5bb1⟩,
  ⟨.FF, .b, .c, .d, .a, 11, S14, 0x895cd7be⟩,
  ⟨.FF, .a, .b, .c, .d, 12, S11, 0x6b901122⟩,
  ⟨.FF, .d, .a, .b, .c, 13, S12, 0xfd987193⟩,
  ⟨.FF, .c, .d, .a, .b, 14, S13, 0xa679438e⟩,
  ⟨.FF, .b, .c, .d, .a, 15, S14, 0x49b40821⟩,
  ⟨.GG, .a, .b, .c, .d, 1, S21, 0xf61e2562⟩,
  ⟨.GG, .d, .a, .b, .c, 6, S22, 0xc040b340⟩,
  ⟨.GG, .c, .d, .a, .b, 11, S23, 0x265e5a51⟩,
  ⟨.GG, .b, .c, .d, .a, 0, S24, 0xe9b6c7aa⟩,
  ⟨.GG, .a, .b, .c, .d, 5, S21, 0xd62f105d⟩,
  ⟨.GG, .d, .a, .b, .c, 10, S22, 0x2441453⟩,
  ⟨.GG, .c, .d, .a, .b, 15, S23, 0xd8a1e681⟩,
  ⟨.GG, .b, .c, .d, .a, 4, S24, 0xe7d3fbc8⟩,
  ⟨.GG, .a, .b, .c, .d, 9, S21, 0x21e1cde6⟩,
  ⟨.GG, .d, .a, .b, .c, 14, S22, 0xc33707d6⟩,
  ⟨.GG, .c, .d, .a, .b, 3, S23, 0xf4d50d87⟩,
  ⟨.GG, .b, .c, .d, .a, 8, S24, 0x455a14ed⟩,
  ⟨.GG, .a, .b, .c, .d, 13, S21, 0xa9e3e905⟩,
  ⟨.GG, .d, .a, .b, .c, 2, S22, 0xfcefa3f8⟩,
  ⟨.GG, .c, .d, .a, .b, 7, S23, 0x676f02d9⟩,
  ⟨.GG, .b, .c, .d, .a, 12, S24, 0x8d2a4c8a⟩,
  ⟨.HH, .a, .b, .c, .d, 5, S31, 0xfffa3942⟩,
  ⟨.HH, .d, .a, .b, .c, 8, S32, 0x8771f681⟩,
  ⟨.HH, .c, .d, .a, .b, 11, S33, 0x6d9d6122⟩,
  ⟨.HH, .b, .c, .d, .a, 14, S34, 0xfde5380c⟩,
  ⟨.HH, .a, .b, .c, .d, 1, S31, 0xa4beea44⟩,
  ⟨.HH, .d, .a, .b, .c, 4, S32, 0x4bdecfa9⟩,
  ⟨.HH, .c, .d, .a, .b, 7, S33, 0xf6bb4b60⟩,
  ⟨.HH, .b, .c, .d, .a, 10, S34, 0xbebfbc70⟩,
  ⟨.HH, .a, .b, .c, .d, 13, S31, 0x289b7ec6⟩,
  ⟨.HH, .d, .a, .b, .c, 0, S32, 0xeaa127fa⟩,
  ⟨.HH, .c, .d, .a, .b, 3, S33, 0xd4ef3085⟩,
  ⟨.HH, .b, .c, .d, .a, 6, S34, 0x4881d05⟩,
  ⟨.HH, .a, .b, .c, .d, 9, S31, 0xd9d4d039⟩,
  ⟨.HH, .d, .a, .b, .c, 12, S32, 0xe6db99e5⟩,
  ⟨.HH, .c, .d, .a, .b, 15, S33, 0x1fa27cf8⟩,
  ⟨.HH, .b, .c, .d, .a, 2, S34, 0xc4ac5665⟩,
  ⟨.II, .a, .b, .c, .d, 0, S41, 0xf4292244⟩,
  ⟨.II, .d, .a, .b, .c, 7, S42, 0x432aff97⟩,
  ⟨.II, .c, .d, .a, .b, 14, S43, 0xab9423a7⟩,
  ⟨.II, .b, .c, .d, .a, 5, S44, 0xfc93a039⟩,
  ⟨.II, .a, .b, .c, .d, 12, S41, 0x655b59c3⟩,
  ⟨.II, .d, .a, .b, .c, 3, S42, 0x8f0ccc92⟩,
  ⟨.II, .c, .d, .a, .b, 10, S43, 0xffeff47d⟩,
  ⟨.II, .b, .c, .d, .a, 1, S44, 0x85845dd1⟩,
  ⟨.II, .a, .b, .c, .d, 8, S41, 0x6fa87e4f⟩,
  ⟨.II, .d, .a, .b, .c, 15, S42, 0xfe2ce6e0⟩,
  ⟨.II, .c, .d, .a, .b, 6, S43, 0xa3014314⟩,
  ⟨.II, .b, .c, .d, .a, 13, S44, 0x4e0811a1⟩,
  ⟨.II, .a, .b, .c, .d, 4, S41, 0xf7537e82⟩,
  ⟨.II, .d, .a, .b, .c, 11, S42, 0xbd3af235⟩,
  ⟨.II, .c, .d, .a, .b, 2, S43, 0x2ad7d2bb⟩,
  ⟨.II, .b, .c, .d, .a, 9, S44, 0xeb86d391⟩]

/-- `scramble_block`. -/
def scrambleBlock (r : Registers) (x : List (BitVec 32)) : Registers :=
  calls.foldl (fun r call => call.run x r) r

/-! ## The padding -/

/-- The elements of `temp`. -/
abbrev Buffer := List (Option UInt8)

/-- `*temp2 = v; ++temp2`, where the pointer is given by the number of elements in front of it. -/
def put (v : UInt8) (s : Buffer × ℕ) : Except Failure (Buffer × ℕ) :=
  if s.2 < s.1.length then .ok (s.1.set s.2 (some v), s.2 + 1) else .error .undefined

/-- The two loops that end when `temp2` is `end`: one takes its values from `input2`, which goes
along with `temp2`, the other writes zeros. -/
def fillLoop (value : ℕ → Option UInt8) (stop : ℕ) (temp : Buffer) (p : ℕ) :
    Except Failure (Buffer × ℕ) :=
  if p = stop then .ok (temp, p)
  else
    match value p with
    | none => .error .undefined
    | some v =>
      if _h : p < temp.length then fillLoop value stop (temp.set p (some v)) (p + 1)
      else .error .undefined
termination_by temp.length - p
decreasing_by
  rw [List.length_set]
  omega

/-- `extra_len`. -/
def extraLen (len : ℕ) : ℕ :=
  let extra := 64 - len % 64
  if extra ≤ 8 then extra + 64 else extra

/-- `static_cast<unsigned char>(n & 0xFF)`. -/
def lowByte (n : ℕ) : UInt8 := UInt8.ofNat (n &&& 0xFF)

/-- The bytes that are written behind the zeros: `low`, `high` and `upper`, and two zeros. They are
computed in pieces of 16 bits, of which there are three. -/
def lengthBytes (len : ℕ) : List UInt8 :=
  let low := len &&& 0xFFFF
  let high := len >>> 16
  let tmp := low * 8
  let low := tmp &&& 0xFFFF
  let tmp := high * 8 + (tmp >>> 16)
  let high := tmp &&& 0xFFFF
  let upper := tmp >>> 16
  [lowByte low, lowByte (low >>> 8), lowByte high, lowByte (high >>> 8),
    lowByte upper, lowByte (upper >>> 8), 0, 0]

/-- The part of `md5` that fills `temp`. -/
def md5Temp (input : List UInt8) : Except Failure Buffer := do
  let len := input.length
  let temp : Buffer := List.replicate ((extraLen len + len) % 2 ^ 64) none
  let (temp, temp2) ← fillLoop (fun p => input[p]?) len temp 0
  let stop := len + (extraLen len - 8)
  let (temp, temp2) ← put 0x80 (temp, temp2)
  let (temp, temp2) ← fillLoop (fun _ => some 0) stop temp temp2
  let (temp, _) ← (lengthBytes len).foldlM (fun s v => put v s) (temp, temp2)
  return temp

/-! ## The words -/

/-- `static_cast<uint32_t>(temp[i])`. -/
def byteAt (temp : Buffer) (i : ℕ) : Except Failure (BitVec 32) :=
  match temp[i]? with
  | some (some v) => .ok (v.toBitVec.setWidth 32)
  | _ => .error .undefined

/-- `x[j]` in the turn `i`. -/
def wordAt (temp : Buffer) (i j : ℕ) : Except Failure (BitVec 32) := do
  let b3 ← byteAt temp (4 * (j + 16 * i) + 3)
  let b2 ← byteAt temp (4 * (j + 16 * i) + 2)
  let b1 ← byteAt temp (4 * (j + 16 * i) + 1)
  let b0 ← byteAt temp (4 * (j + 16 * i))
  return (b3 <<< 24) ||| (b2 <<< 16) ||| (b1 <<< 8) ||| b0

/-- A turn of the loop over the blocks. -/
def turn (temp : Buffer) (r : Registers) (i : ℕ) : Except Failure Registers := do
  let x ← (List.range 16).mapM (wordAt temp i)
  return (scrambleBlock r x).add r

/-- The values of `a`, `b`, `c` and `d` before the loop. -/
def initial : Registers := ⟨0x67452301, 0xefcdab89, 0x98badcfe, 0x10325476⟩

/-- The four bytes of `output` that a variable gives. -/
def outputBytes (v : BitVec 32) : List UInt8 :=
  [.ofBitVec ((v &&& 0xFF).setWidth 8), .ofBitVec ((v >>> 8 &&& 0xFF).setWidth 8),
    .ofBitVec ((v >>> 16 &&& 0xFF).setWidth 8), .ofBitVec ((v >>> 24 &&& 0xFF).setWidth 8)]

/-! ## The text -/

/-- The letter of a half byte. -/
def hexLetter (v : UInt8) : UInt8 := if v ≤ 9 then v + 0x30 else v + 87

/-- What the loop of `byteToHexStr` writes into `buf`. -/
def hexLetters (bytes : List UInt8) : List UInt8 :=
  bytes.flatMap fun b : UInt8 => [hexLetter (b >>> 4), hexLetter (b &&& 0x0F)]

/-- `byteToHexStr` of bytes that are there. The text is read from `buf` up to a zero byte. -/
def byteToHexStr (bytes : List UInt8) : List UInt8 :=
  CString.upToZero (CString.terminated (hexLetters bytes))

/-- `md5`, for a pointer to `len` bytes or for a null pointer. -/
def md5 (input : Option (List UInt8)) : Except Failure (List UInt8) :=
  match input with
  | none => .error (.thrown "char *buf is null!")
  | some input => do
    let temp ← md5Temp input
    let N := (extraLen input.length + input.length) / 64
    let r ← (List.range N).foldlM (turn temp) initial
    return byteToHexStr (outputBytes r.a ++ outputBytes r.b ++ outputBytes r.c ++ outputBytes r.d)

end Md5
