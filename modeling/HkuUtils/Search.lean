import Mathlib.Data.List.DropRight
import Mathlib.Data.List.Infix

set_option relaxedAutoImplicit false
set_option autoImplicit false

/-!
# Searching in texts

The string functions that a program uses to take a text apart: the last occurrence of a word, the
text in capitals, and a text without what stands at its ends. That a word occurs is the relation
`<:+:` on lists.

## Main definitions

* `Search.rfind`, `find` — where a word occurs last and first.
* `Search.toUpper` — a text in capitals.

## Main results

* `Search.rfind_eq_none_iff`, `rfind_eq_some_iff`, `find_eq_none_iff` — what is found.
-/

namespace Search

/-- The bytes of a text. -/
def text (s : String) : List UInt8 := s.toUTF8.data.toList

section Rfind

variable {α : Type*} [DecidableEq α] {pat s : List α}

/-- `rfind`: where a word occurs last. -/
def rfind (pat : List α) : List α → Option ℕ
  | [] => if pat <+: [] then some 0 else none
  | c :: s =>
    match rfind pat s with
    | some i => some (i + 1)
    | none => if pat <+: c :: s then some 0 else none

/-- What does not occur is not found. -/
theorem rfind_eq_none_iff : rfind pat s = none ↔ ¬ pat <:+: s := by
  induction s with
  | nil => simp [rfind, List.infix_nil]
  | cons c s ih =>
    rw [rfind, List.infix_cons_iff]
    cases h : rfind pat s with
    | some i =>
      have hs : pat <:+: s := by
        by_contra hs
        simp [ih.mpr hs] at h
      simp [hs]
    | none => simp [ih.mp h]

/-- **The last occurrence.** The word is found where it occurs with no further occurrence after its
first letter.

**Proof sketch.** By induction on the text. If there is an occurrence behind the first letter, the
last one of these counts; otherwise the word may stand at the front. -/
theorem rfind_eq_some_iff (hpat : pat ≠ []) {i : ℕ} :
    rfind pat s = some i ↔
      ∃ a b, s = a ++ b ∧ a.length = i ∧ pat <+: b ∧ ¬ pat <:+: b.tail := by
  induction s generalizing i with
  | nil =>
    simp only [rfind, List.prefix_nil, hpat, if_false, reduceCtorEq, false_iff]
    rintro ⟨a, b, hab, -, hb, -⟩
    obtain rfl : b = [] := (List.append_eq_nil_iff.mp hab.symm).2
    exact hpat (List.prefix_nil.mp hb)
  | cons c s ih =>
    rw [rfind]
    cases h : rfind pat s with
    | some j =>
      obtain ⟨a, b, rfl, rfl, hb, htail⟩ := ih.mp h
      refine ⟨fun hi => ⟨c :: a, b, rfl, Option.some.inj hi, hb, htail⟩, ?_⟩
      rintro ⟨a', b', hab, rfl, hb', htail'⟩
      cases a' with
      | nil =>
        obtain rfl : c :: (a ++ b) = b' := hab
        exact absurd (List.infix_append_of_infix_right hb.isInfix) htail'
      | cons d a' =>
        have hj := ih.mpr ⟨a', b', (List.cons.inj hab).2, rfl, hb', htail'⟩
        rw [h, Option.some.injEq] at hj
        simp [hj]
    | none =>
      have hs := rfind_eq_none_iff.mp h
      by_cases hpre : pat <+: c :: s
      · simp only [hpre, if_true, Option.some.injEq]
        refine ⟨fun hi => ⟨[], c :: s, rfl, hi, hpre, hs⟩, ?_⟩
        rintro ⟨a', b', hab, rfl, hb', htail'⟩
        cases a' with
        | nil => rfl
        | cons d a' =>
          obtain ⟨rfl, rfl⟩ := List.cons.inj hab
          exact absurd (List.infix_append_of_infix_right hb'.isInfix) hs
      · simp only [hpre, if_false, reduceCtorEq, false_iff]
        rintro ⟨a', b', hab, rfl, hb', htail'⟩
        cases a' with
        | nil => exact hpre (hab ▸ hb')
        | cons d a' =>
          obtain ⟨rfl, rfl⟩ := List.cons.inj hab
          exact hs (List.infix_append_of_infix_right hb'.isInfix)

/-- `find`: where a word occurs first. -/
def find (pat : List α) : List α → Option ℕ
  | [] => if pat <+: [] then some 0 else none
  | c :: s => if pat <+: c :: s then some 0 else (find pat s).map (· + 1)

/-- What does not occur is not found. -/
theorem find_eq_none_iff : find pat s = none ↔ ¬ pat <:+: s := by
  induction s with
  | nil => simp [find, List.infix_nil]
  | cons c s ih =>
    rw [find, List.infix_cons_iff]
    by_cases hpre : pat <+: c :: s
    · simp [hpre]
    · simp [hpre, ih]

end Rfind

/-! ## Capitals -/

/-- `toupper`. -/
def upper (c : UInt8) : UInt8 := if 97 ≤ c ∧ c ≤ 122 then c - 32 else c

/-- A text in capitals. -/
def toUpper (s : List UInt8) : List UInt8 := s.map upper

/-- Capital letters are as many. -/
@[simp]
lemma length_toUpper (s : List UInt8) : (toUpper s).length = s.length := List.length_map _

/-- Capital letters of two texts. -/
@[simp]
lemma toUpper_append (s t : List UInt8) : toUpper (s ++ t) = toUpper s ++ toUpper t :=
  List.map_append

/-- A text without small letters. -/
lemma toUpper_eq_self {s : List UInt8} (h : ∀ c ∈ s, upper c = c) : toUpper s = s := by
  conv_rhs => rw [← List.map_id s]
  exact List.map_congr_left h

end Search
