import Mathlib.Algebra.Order.Floor.Div
import Mathlib.Data.List.Basic
import Mathlib.Data.List.Range
import Mathlib.Data.Nat.Basic

set_option relaxedAutoImplicit false
set_option autoImplicit false

/-!
# Pages of a list

A list is cut into pages of a fixed size; the last page can be shorter. The pages below the number
of pages cover the list, each element once, and an index is found in the page that division gives.

## Main definitions

* `Paging.page` — one page of a list.

## Main results

* `Paging.page_eq_nil_iff` — the pages that are empty.
* `Paging.flatten_pages` — the pages in their order are the list.
* `Paging.flatten_eq_iff` — pages whose elements come in another order.
* `Paging.getElem?_page` — an index inside of its page.
* `Paging.div_add_one_eq_ceilDiv_iff` — when rounding up adds one.
-/

namespace Paging

variable {α : Type*} {size : ℕ}

/-- The page `k` of a list, for pages of `size` elements. -/
def page (size k : ℕ) (l : List α) : List α := (l.drop (k * size)).take size

/-- The length of a page. -/
lemma length_page (k : ℕ) (l : List α) :
    (page size k l).length = min size (l.length - k * size) := by
  rw [page, List.length_take, List.length_drop]

/-- A page has elements exactly when it is below the number of pages. -/
lemma page_eq_nil_iff (hsize : 0 < size) (k : ℕ) (l : List α) :
    page size k l = [] ↔ l.length ⌈/⌉ size ≤ k := by
  rw [← List.length_eq_zero_iff, length_page, ceilDiv_le_iff_le_mul hsize, Nat.mul_comm size k]
  omega

/-- The pages below `n` are the first elements of the list. -/
lemma flatten_map_page (n : ℕ) (l : List α) :
    ((List.range n).map fun k => page size k l).flatten = l.take (n * size) := by
  induction n with
  | zero => simp
  | succ n ih =>
    rw [List.range_succ, List.map_append, List.flatten_append, ih, Nat.succ_mul, List.take_add]
    simp [page]

/-- **The pages cover the list**, each element once. -/
theorem flatten_pages (hsize : 0 < size) (l : List α) :
    ((List.range (l.length ⌈/⌉ size)).map fun k => page size k l).flatten = l := by
  rw [flatten_map_page]
  refine List.take_of_length_le ?_
  rw [Nat.mul_comm]
  exact (ceilDiv_le_iff_le_mul hsize).mp le_rfl

/-- Two lists of parts of the same lengths have the same concatenation only if the parts are the
same. -/
lemma eq_of_flatten_map_eq {ι : Type*} {f g : ι → List α} {is : List ι}
    (hlen : ∀ i ∈ is, (f i).length = (g i).length)
    (h : (is.map f).flatten = (is.map g).flatten) : ∀ i ∈ is, f i = g i := by
  induction is with
  | nil => simp
  | cons i is ih =>
    simp only [List.map_cons, List.flatten_cons] at h
    obtain ⟨hi, hrest⟩ := List.append_inj h (hlen i (by simp))
    intro j hj
    rcases List.mem_cons.mp hj with rfl | hj
    · exact hi
    · exact ih (fun i hi => hlen i (List.mem_cons_of_mem _ hi)) hrest j hj

/-- If every page comes with its elements in some order, then the pages are the list exactly when
each of them comes in the order of the list. -/
theorem flatten_eq_iff (hsize : 0 < size) (l : List α) {f : ℕ → List α}
    (hf : ∀ k < l.length ⌈/⌉ size, (f k).Perm (page size k l)) :
    ((List.range (l.length ⌈/⌉ size)).map f).flatten = l ↔
      ∀ k < l.length ⌈/⌉ size, f k = page size k l := by
  constructor
  · intro h k hk
    exact eq_of_flatten_map_eq (fun i hi => (hf i (List.mem_range.mp hi)).length_eq)
      (h.trans (flatten_pages hsize l).symm) k (List.mem_range.mpr hk)
  · intro h
    rw [List.map_congr_left fun k hk => h k (List.mem_range.mp hk), flatten_pages hsize]

/-- The element at an index is in the page that the quotient gives, at the remainder. -/
lemma getElem?_page (hsize : 0 < size) (i : ℕ) (l : List α) :
    (page size (i / size) l)[i - i / size * size]? = l[i]? := by
  have hi : i / size * size + (i - i / size * size) = i := by
    rw [Nat.add_sub_cancel' (Nat.div_mul_le_self i size)]
  have hlt : i - i / size * size < size := by
    rw [← Nat.mod_eq_sub_div_mul]
    exact Nat.mod_lt i hsize
  rw [page, List.getElem?_take_of_lt hlt, List.getElem?_drop, hi]

/-- Elements of different pages are different. -/
lemma disjoint_page {l : List α} (hl : l.Nodup) {j k : ℕ} (hjk : j ≠ k) :
    (page size j l).Disjoint (page size k l) := by
  wlog hlt : j < k generalizing j k
  · exact (this hjk.symm (by omega)).symm
  have hle : (j + 1) * size ≤ k * size := Nat.mul_le_mul_right size hlt
  have hj : (page size j l).Subset (l.take (k * size)) := by
    intro a ha
    have ha : a ∈ l.take ((j + 1) * size) := by
      rw [Nat.succ_mul, List.take_add]
      exact List.mem_append_right _ ha
    exact List.take_subset_take_left l hle ha
  have hk : (page size k l).Subset (l.drop (k * size)) := List.take_subset _ _
  have hdis : (l.take (k * size)).Disjoint (l.drop (k * size)) := by
    rw [← List.take_append_drop (k * size) l, List.nodup_append'] at hl
    simpa using hl.2.2
  exact fun a haj hak => hdis (hj haj) (hk hak)

/-- Adding one to the quotient rounds up exactly when there is a remainder. -/
theorem div_add_one_eq_ceilDiv_iff (hsize : 0 < size) (n : ℕ) :
    n / size + 1 = n ⌈/⌉ size ↔ ¬ size ∣ n := by
  rw [Nat.ceilDiv_eq_add_pred_div]
  constructor
  · rintro h ⟨m, rfl⟩
    rw [Nat.mul_div_cancel_left m hsize, Nat.add_sub_assoc hsize,
      Nat.mul_add_div hsize, Nat.div_eq_of_lt (by omega : size - 1 < size)] at h
    omega
  · intro h
    have hmod : 0 < n % size := Nat.pos_of_ne_zero fun h0 => h (Nat.dvd_of_mod_eq_zero h0)
    have hlt := Nat.mod_lt n hsize
    have hn : n + size - 1 = size * (n / size + 1) + (n % size - 1) := by
      have := Nat.div_add_mod n size
      rw [Nat.mul_add]
      omega
    rw [hn, Nat.mul_add_div hsize, Nat.div_eq_of_lt (by omega : n % size - 1 < size), Nat.add_zero]

end Paging
