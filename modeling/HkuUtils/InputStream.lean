import Mathlib.Data.List.Infix
import Mathlib.Data.Int.Notation

set_option relaxedAutoImplicit false
set_option autoImplicit false

/-!
# Streams of bytes that are read

A stream over given bytes, with a position and the two flags that the standard library sets when
bytes are missing. A read that finds too few bytes sets both, and nothing is read from then on: to
move the position clears the flag for the end, but not the one for the failure.

## Main definitions

* `InputStream.read`, `InputStream.seek` — `read` and `seekg`.
* `InputStream.slice` — some bytes by their place.
* `InputStream.At` — the stream has been read up to a place, which may be behind the end.

## Main results

* `InputStream.read_at` — **a read at a place gives the bytes there**, also when it fails.
* `InputStream.read_seek` — the same for a read behind a move.
-/

/-- A stream over given bytes. -/
structure InputStream where
  data : List UInt8
  pos : ℕ
  /-- `eofbit`. -/
  eof : Bool
  /-- `failbit`. -/
  fail : Bool
  deriving DecidableEq, Repr

namespace InputStream

/-- A stream at its beginning. -/
def ofData (data : List UInt8) : InputStream := ⟨data, 0, false, false⟩

/-- `read` of `n` bytes: what is read, and the stream after it. -/
def read (s : InputStream) (n : ℕ) : List UInt8 × InputStream :=
  if s.eof || s.fail then ([], { s with fail := true })
  else
    let bytes := (s.data.drop s.pos).take n
    let short := decide (bytes.length < n)
    (bytes, { s with pos := s.pos + bytes.length, eof := short, fail := short })

/-- `seekg` to a position. -/
def seek (s : InputStream) (pos : ℤ) : InputStream :=
  if s.fail then { s with eof := false }
  else if 0 ≤ pos ∧ pos ≤ s.data.length then { s with pos := pos.toNat, eof := false }
  else { s with eof := false, fail := true }

/-- The `n` bytes at a place, or those of them that are there. -/
def slice (data : List UInt8) (p n : ℕ) : List UInt8 := (data.drop p).take n

variable {data : List UInt8} {s : InputStream} {p n : ℕ}

/-- A part of the data is as long as was asked for, or ends with the data. -/
lemma length_slice (data : List UInt8) (p n : ℕ) :
    (slice data p n).length = min n (data.length - p) := by
  simp [slice]

/-- All bytes are there exactly if they end within the data. -/
lemma length_slice_eq (hn : 0 < n) : (slice data p n).length = n ↔ p + n ≤ data.length := by
  rw [length_slice]
  omega

/-- Behind the end there is nothing. -/
lemma slice_of_length_le (h : data.length ≤ p) : slice data p n = [] := by
  rw [slice, List.drop_eq_nil_of_le h, List.take_nil]

/-- The bytes of the first part of some data. -/
lemma slice_take (data : List UInt8) (k p n : ℕ) :
    slice (data.take k) p n = (slice data p n).take (k - p) := by
  rw [slice, slice, List.drop_take, List.take_take, List.take_take, Nat.min_comm]

/-- Bytes between others. -/
lemma slice_append (a b c : List UInt8) : slice (a ++ (b ++ c)) a.length b.length = b := by
  rw [slice, List.drop_left, List.take_left]

/-- The stream has been read up to a place: all bytes were there, or it has failed. -/
structure At (data : List UInt8) (p : ℕ) (s : InputStream) : Prop where
  data_eq : s.data = data
  state : s.eof = false ∧ s.fail = false ∧ s.pos = p ∧ p ≤ data.length ∨
    s.fail = true ∧ data.length < p

/-- A new stream stands at the beginning. -/
lemma at_ofData (data : List UInt8) : At data 0 (ofData data) :=
  ⟨rfl, .inl ⟨rfl, rfl, rfl, Nat.zero_le _⟩⟩

/-- A stream that has failed reads nothing. -/
lemma read_of_fail (h : s.fail = true) (n : ℕ) : s.read n = ([], s) := by
  obtain ⟨data, pos, eof, fail⟩ := s
  obtain rfl : fail = true := h
  simp [read]

/-- **A read at a place** gives the bytes that are there, and moves to the place behind them. -/
theorem read_at (h : At data p s) (n : ℕ) :
    (s.read n).1 = slice data p n ∧ At data (p + n) (s.read n).2 := by
  obtain ⟨rfl, ⟨heof, hfail, rfl, hle⟩ | ⟨hfail, hlt⟩⟩ := h
  · rw [read, heof, hfail, Bool.or_self, if_neg Bool.false_ne_true]
    refine ⟨rfl, rfl, ?_⟩
    by_cases hn : s.pos + n ≤ s.data.length
    · left
      have hlen : ((s.data.drop s.pos).take n).length = n := by simp; omega
      simp [hlen, hn]
    · right
      have hlen : ((s.data.drop s.pos).take n).length < n := by simp; omega
      exact ⟨decide_eq_true hlen, by omega⟩
  · rw [read_of_fail hfail, slice_of_length_le hlt.le]
    exact ⟨rfl, rfl, .inr ⟨hfail, by omega⟩⟩

/-- Moving leaves the data as they are. -/
@[simp] lemma data_seek (s : InputStream) (pos : ℤ) : (s.seek pos).data = s.data := by
  rw [seek]
  split_ifs <;> rfl

/-- A stream that has failed does not move. -/
lemma fail_seek (h : s.fail = true) (pos : ℤ) : (s.seek pos).fail = true := by
  rw [seek, if_pos h, h]

/-- There are no places before the beginning. -/
lemma fail_seek_of_neg {pos : ℤ} (hpos : pos < 0) : (s.seek pos).fail = true := by
  rw [seek, if_neg fun h : 0 ≤ pos ∧ _ => absurd h.1 (by omega)]
  split_ifs with h
  · exact h
  · rfl

/-- **A read behind a move** to a place gives the bytes there, unless the stream has failed. -/
theorem read_seek (hdata : s.data = data) (hfail : s.fail = false) {pos : ℤ} (hpos : 0 ≤ pos)
    (n : ℕ) :
    ((s.seek pos).read n).1 = slice data pos.toNat n ∧
      At data (pos.toNat + n) ((s.seek pos).read n).2 := by
  subst hdata
  by_cases hle : pos ≤ s.data.length
  · apply read_at
    rw [seek, hfail, if_neg Bool.false_ne_true, if_pos ⟨hpos, hle⟩]
    exact ⟨rfl, .inl ⟨rfl, rfl, rfl, by omega⟩⟩
  · have hseek : (s.seek pos).fail = true := by
      rw [seek, hfail, if_neg Bool.false_ne_true, if_neg fun h => hle h.2]
    have hbehind : s.data.length < pos.toNat := by omega
    rw [read_of_fail hseek, slice_of_length_le hbehind.le]
    exact ⟨rfl, data_seek s pos, .inr ⟨hseek, by omega⟩⟩

end InputStream
