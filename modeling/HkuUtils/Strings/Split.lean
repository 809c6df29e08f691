import Mathlib.Data.List.Basic

set_option relaxedAutoImplicit false
set_option autoImplicit false

/-!
# Texts in pieces

`split` cuts a text at each occurrence of a letter. Empty pieces are kept.

## Main definitions

* `Strings.split` — the function `split` of the source, for a single letter.

## Main results

* `Strings.split_append` — the first piece, and the rest.
-/

namespace Strings

/-- `split`: the piece in front of the next separator, and the pieces behind it. -/
def split (c : UInt8) (view : List UInt8) : List (List UInt8) :=
  match h : view.idxOf? c with
  | none => [view]
  | some pos => view.take pos :: split c (view.drop (pos + 1))
termination_by view.length
decreasing_by
  have hne : view ≠ [] := by
    rintro rfl
    simp at h
  have hpos := List.length_pos_of_ne_nil hne
  rw [List.length_drop]
  omega

variable {c : UInt8} {s : List UInt8}

/-- Where a letter occurs first. -/
lemma idxOf?_append (hs : c ∉ s) (t : List UInt8) : (s ++ c :: t).idxOf? c = some s.length := by
  induction s with
  | nil => simp [List.idxOf?_cons]
  | cons d s ih =>
    rw [List.mem_cons, not_or] at hs
    rw [List.cons_append, List.idxOf?_cons, ih hs.2]
    simp [Ne.symm hs.1]

/-- A text without the separator is one piece. -/
lemma split_of_not_mem (hs : c ∉ s) : split c s = [s] := by
  rw [split]
  split
  · rfl
  · rename_i pos h
    rw [List.idxOf?_eq_none_iff.mpr hs] at h
    cases h

/-- **The first piece, and the rest.** -/
lemma split_append (hs : c ∉ s) (t : List UInt8) : split c (s ++ c :: t) = s :: split c t := by
  have hrest : (s ++ c :: t).drop (s.length + 1) = t := by
    rw [← List.drop_drop, List.drop_left, List.drop_one, List.tail_cons]
  rw [split]
  split
  · rename_i h
    rw [idxOf?_append hs] at h
    cases h
  · rename_i pos h
    rw [idxOf?_append hs] at h
    obtain rfl := Option.some.inj h
    rw [List.take_left, hrest]

end Strings
