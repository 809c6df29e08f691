import HkuUtils.Search

set_option relaxedAutoImplicit false
set_option autoImplicit false

/-!
# Texts and separators

A text is cut at the occurrences of a separator, taken from the left: the next one begins at the
earliest place behind the one before.

## Main definitions

* `Separators.occurrences` — how many such occurrences there are.
* `Separators.Cuts` — a list of pieces that a text is cut into.

## Main results

* `Separators.first_of_find` — `Search.find` finds the first occurrence.
* `Separators.Cuts.intercalate_eq` — the pieces joined are the text.
* `Separators.Cuts.absent` — no piece has a separator in it.
* `Separators.Cuts.length_eq` — there is one piece more than there are occurrences.
-/

namespace Separators

universe u

variable {α : Type u} {sep s t a : List α} {l : List (List α)}

/-- Of `a` followed by the separator and `t`, no earlier place has the separator. -/
def First (sep a t : List α) : Prop := ∀ j < a.length, ¬ sep <+: (a ++ sep ++ t).drop j

/-- The pieces that a text is cut into. -/
inductive Cuts (sep : List α) : List α → List (List α) → Prop where
  | last {s : List α} (h : ¬ sep <:+: s) : Cuts sep s [s]
  | next {a t : List α} {l : List (List α)} (h : First sep a t) (hl : Cuts sep t l) :
    Cuts sep (a ++ sep ++ t) (a :: l)

/-! ## The first occurrence -/

/-- In front of the first occurrence there is none. -/
lemma First.absent (hsep : sep ≠ []) (h : First sep a t) : ¬ sep <:+: a := by
  rintro ⟨x, y, rfl⟩
  have hpos := List.length_pos_of_ne_nil hsep
  refine h x.length (by simp; omega) ⟨y ++ sep ++ t, ?_⟩
  simp [List.append_assoc]

/-- The first occurrence behind one letter more. -/
lemma First.tail {c : α} (h : First sep (c :: a) t) : First sep a t := by
  intro j hj
  exact h (j + 1) (Nat.succ_lt_succ hj)

section Find

variable [DecidableEq α]

/-- **What is found first** is the first occurrence.

**Proof sketch.** By induction on the text: the separator is found where it begins, and not
before. -/
theorem first_of_find {i : ℕ} (h : Search.find sep s = some i) :
    ∃ a t, s = a ++ sep ++ t ∧ a.length = i ∧ First sep a t := by
  induction s generalizing i with
  | nil =>
    rw [Search.find, Option.ite_none_right_eq_some] at h
    obtain ⟨hsep, hi⟩ := h
    rw [List.prefix_nil.mp hsep]
    exact ⟨[], [], rfl, Option.some.inj hi, fun j hj => absurd hj (Nat.not_lt_zero j)⟩
  | cons c s ih =>
    rw [Search.find] at h
    split at h
    · next hbegin =>
      obtain ⟨t, ht⟩ := hbegin
      exact ⟨[], t, ht.symm, Option.some.inj h, fun j hj => absurd hj (Nat.not_lt_zero j)⟩
    · next hbegin =>
      obtain ⟨j, hj, rfl⟩ := Option.map_eq_some_iff.mp h
      obtain ⟨a, t, rfl, rfl, hfirst⟩ := ih hj
      refine ⟨c :: a, t, rfl, rfl, fun j hj => ?_⟩
      cases j with
      | zero => exact hbegin
      | succ j => exact hfirst j (Nat.lt_of_succ_lt_succ hj)

/-! ## The number of occurrences -/

/-- How many occurrences there are behind the next `skip` letters. -/
def count (sep : List α) : ℕ → List α → ℕ
  | _, [] => 0
  | skip + 1, _ :: s => count sep skip s
  | 0, c :: s => if sep <+: c :: s then count sep (sep.length - 1) s + 1 else count sep 0 s

/-- The number of occurrences that do not overlap, taken from the left. -/
def occurrences (sep s : List α) : ℕ := count sep 0 s

/-- Skipped letters do not matter. -/
lemma count_eq (skip : ℕ) (s : List α) : count sep skip s = occurrences sep (s.drop skip) := by
  induction s generalizing skip with
  | nil => cases skip <;> simp [count, occurrences]
  | cons c s ih =>
    cases skip with
    | zero => rfl
    | succ skip => exact ih skip

/-- Where the separator does not occur. -/
lemma occurrences_of_absent (h : ¬ sep <:+: s) : occurrences sep s = 0 := by
  induction s with
  | nil => rfl
  | cons c s ih =>
    rw [List.infix_cons_iff, not_or] at h
    rw [occurrences, count, if_neg h.1]
    exact ih h.2

/-- **The first occurrence and those behind it.** -/
lemma occurrences_of_first (hsep : sep ≠ []) (h : First sep a t) :
    occurrences sep (a ++ sep ++ t) = occurrences sep t + 1 := by
  induction a with
  | nil =>
    obtain ⟨c, sep', rfl⟩ := List.exists_cons_of_ne_nil hsep
    have hbegin : c :: sep' <+: c :: (sep' ++ t) := ⟨t, rfl⟩
    rw [List.nil_append, List.cons_append, occurrences, count, if_pos hbegin, count_eq]
    simp
  | cons c a ih =>
    rw [← ih h.tail]
    exact if_neg (h 0 (Nat.succ_pos a.length))

end Find

/-! ## The pieces -/

namespace Cuts

/-- There is always a piece. -/
lemma ne_nil (h : Cuts sep s l) : l ≠ [] := by
  cases h <;> simp

/-- **The pieces joined** are the text. -/
theorem intercalate_eq (h : Cuts sep s l) : sep.intercalate l = s := by
  induction h with
  | last h => exact List.intercalate_singleton
  | next h hl ih => rw [List.intercalate_cons_of_ne_nil hl.ne_nil, ih]

/-- **No piece has a separator in it.** -/
theorem absent (hsep : sep ≠ []) (h : Cuts sep s l) : ∀ p ∈ l, ¬ sep <:+: p := by
  induction h with
  | last h => simpa using h
  | next h hl ih => exact List.forall_mem_cons.mpr ⟨h.absent hsep, ih⟩

/-- **There is one piece more** than there are occurrences. -/
theorem length_eq [DecidableEq α] (hsep : sep ≠ []) (h : Cuts sep s l) :
    l.length = occurrences sep s + 1 := by
  induction h with
  | last h => rw [occurrences_of_absent h, List.length_singleton]
  | next h hl ih => rw [occurrences_of_first hsep h, List.length_cons, ih]

end Cuts

end Separators
