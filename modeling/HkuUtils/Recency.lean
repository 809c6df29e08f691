import Mathlib.Data.List.Dedup
import Mathlib.Data.List.Perm.Subperm

set_option relaxedAutoImplicit false
set_option autoImplicit false

/-!
# Entries in the order of their last use

A table whose entries are ordered by their last use, the most recent one first, and that is cut to
the entries in front when it has become too large. An entry is lost by a cut only if enough others
have been used after it.

## Main definitions

* `Recency.Table` — the tables.
* `Recency.Table.promote`, `remove`, `cut` — an entry comes to the front or goes, and the entries
  in front stay.
* `Recency.Table.Before` — only keys of a given list are in front of a key.

## Main results

* `Recency.Table.promote_split`, `remove_split` — the entries afterwards.
* `Recency.Table.before_promote`, `before_remove`, `before_cut` — what comes in front of a key, and
  when a cut keeps it.
-/

namespace Recency

universe u v

/-- The entries, each with a key of its own. -/
@[ext]
structure Table (K : Type u) (V : Type v) where
  entries : List (K × V)
  nodup : (entries.map Prod.fst).Nodup

namespace Table

variable {K : Type u} {V : Type v}

/-- The keys, the one used last in front. -/
def keys (r : Table K V) : List K := r.entries.map Prod.fst

/-- A table without entries. -/
def empty : Table K V := ⟨[], List.nodup_nil⟩

/-- The first `n` entries. -/
def cut (r : Table K V) (n : ℕ) : Table K V :=
  ⟨r.entries.take n, by
    rw [List.map_take]
    exact r.nodup.sublist (List.take_sublist _ _)⟩

section Keys

variable [DecidableEq K]

/-- The value of a key. -/
def lookup (r : Table K V) (k : K) : Option V := (r.entries.find? (·.1 = k)).map Prod.snd

/-- The table without a key. -/
def remove (r : Table K V) (k : K) : Table K V :=
  ⟨r.entries.filter (·.1 ≠ k), by
    exact r.nodup.sublist (List.filter_sublist.map _)⟩

/-- The table with an entry in front. -/
def promote (r : Table K V) (k : K) (v : V) : Table K V :=
  ⟨(k, v) :: (r.remove k).entries, by
    rw [List.map_cons, List.nodup_cons]
    refine ⟨?_, (r.remove k).nodup⟩
    simp [remove]⟩

end Keys

variable [DecidableEq K] {r : Table K V} {k k' : K} {v w : V} {a b : List (K × V)}

omit [DecidableEq K] in
/-- The first pairs are left. -/
@[simp] lemma cut_entries (r : Table K V) (n : ℕ) : (r.cut n).entries = r.entries.take n := rfl

/-- All pairs but those of the key are left. -/
@[simp] lemma remove_entries (r : Table K V) (k : K) :
    (r.remove k).entries = r.entries.filter (·.1 ≠ k) := rfl

/-- The pair is in front of those of the other keys. -/
@[simp] lemma promote_entries (r : Table K V) (k : K) (v : V) :
    (r.promote k v).entries = (k, v) :: (r.remove k).entries := rfl

/-- All keys but this one are left. -/
@[simp] lemma remove_keys (r : Table K V) (k : K) : (r.remove k).keys = r.keys.filter (· ≠ k) := by
  rw [keys, keys, remove_entries, List.filter_map]
  rfl

omit [DecidableEq K] in
/-- The entries around one of them. -/
lemma ne_of_split (h : r.entries = a ++ (k, v) :: b) :
    (∀ e ∈ a, e.1 ≠ k) ∧ ∀ e ∈ b, e.1 ≠ k := by
  have hnodup := r.nodup
  rw [h, List.map_append, List.map_cons, List.nodup_middle, List.nodup_cons] at hnodup
  constructor
  · intro e he heq
    exact hnodup.1 (List.mem_append_left _ (List.mem_map.mpr ⟨e, he, heq⟩))
  · intro e he heq
    exact hnodup.1 (List.mem_append_right _ (List.mem_map.mpr ⟨e, he, heq⟩))

/-- The value of an entry. -/
lemma lookup_split (h : r.entries = a ++ (k, v) :: b) : r.lookup k = some v := by
  have hfirst : a.find? (·.1 = k) = none := by
    rw [List.find?_eq_none]
    intro e he
    simpa using (ne_of_split h).1 e he
  rw [lookup, h, List.find?_append, hfirst]
  simp

/-- A key without an entry. -/
lemma lookup_eq_none (h : k ∉ r.keys) : r.lookup k = none := by
  have hnone : r.entries.find? (·.1 = k) = none := by
    rw [List.find?_eq_none]
    intro e he heq
    exact h (List.mem_map.mpr ⟨e, he, by simpa using heq⟩)
  rw [lookup, hnone, Option.map_none]

/-- What is left when an entry goes. -/
lemma remove_split (h : r.entries = a ++ (k, v) :: b) : (r.remove k).entries = a ++ b := by
  obtain ⟨ha, hb⟩ := ne_of_split h
  rw [remove_entries, h, List.filter_append, List.filter_cons_of_neg (by simp),
    List.filter_eq_self.mpr fun e he => by simpa using ha e he,
    List.filter_eq_self.mpr fun e he => by simpa using hb e he]

/-- Nothing goes where there is no entry. -/
lemma remove_of_notMem (h : k ∉ r.keys) : r.remove k = r := by
  ext1
  rw [remove_entries, List.filter_eq_self]
  intro e he
  simpa using fun heq => h (List.mem_map.mpr ⟨e, he, heq⟩)

/-- An entry comes to the front. -/
lemma promote_split (h : r.entries = a ++ (k, v) :: b) (w : V) :
    (r.promote k w).entries = (k, w) :: (a ++ b) := by
  rw [promote_entries, remove_split h]

/-! ## In front of a key -/

/-- The table has the key, and the keys in front of it are among the given ones. -/
def Before (r : Table K V) (k : K) (used : List K) : Prop :=
  ∃ front back, r.keys = front ++ k :: back ∧ front ⊆ used

/-- Behind a use of the key itself. -/
lemma before_promote_self (r : Table K V) (k : K) (v : V) (used : List K) :
    (r.promote k v).Before k used :=
  ⟨[], (r.remove k).keys, rfl, List.nil_subset _⟩

/-- A key of the table stays when another one is used. -/
lemma before_promote {used : List K} (h : r.Before k used) (hk : k' ≠ k) (v : V) :
    (r.promote k' v).Before k (k' :: used) := by
  obtain ⟨front, back, hkeys, hsub⟩ := h
  refine ⟨k' :: front.filter (· ≠ k'), back.filter (· ≠ k'), ?_, ?_⟩
  · rw [keys, promote_entries, List.map_cons, ← keys, remove_keys, hkeys, List.filter_append,
      List.filter_cons_of_pos (by simpa using hk.symm), List.cons_append]
  · intro x hx
    rcases List.mem_cons.mp hx with rfl | hx
    · exact List.mem_cons_self
    · exact List.mem_cons_of_mem _ (hsub (List.mem_filter.mp hx).1)

/-- A key of the table stays when another one goes. -/
lemma before_remove {used : List K} (h : r.Before k used) (hk : k' ≠ k) :
    (r.remove k').Before k used := by
  obtain ⟨front, back, hkeys, hsub⟩ := h
  refine ⟨front.filter (· ≠ k'), back.filter (· ≠ k'), ?_, fun x hx => ?_⟩
  · rw [remove_keys, hkeys, List.filter_append, List.filter_cons_of_pos (by simpa using hk.symm)]
  · exact hsub (List.mem_filter.mp hx).1

/-- **A cut keeps a key** while fewer different keys have been used since than entries stay. -/
theorem before_cut {used : List K} (h : r.Before k used) {n : ℕ} (hn : used.dedup.length < n) :
    (r.cut n).Before k used := by
  obtain ⟨front, back, hkeys, hsub⟩ := h
  have hnodup : front.Nodup := by
    have hall := r.nodup
    rw [← keys, hkeys] at hall
    exact hall.sublist (List.sublist_append_left _ _)
  have hlen : front.length ≤ used.dedup.length :=
    (List.subperm_of_subset hnodup fun x hx => List.mem_dedup.mpr (hsub hx)).length_le
  refine ⟨front, back.take (n - front.length - 1), ?_, hsub⟩
  rw [keys, cut, List.map_take, ← keys, hkeys, List.take_append, List.take_of_length_le (by omega),
    show n - front.length = (n - front.length - 1) + 1 by omega, List.take_succ_cons]
  rfl

omit [DecidableEq K] in
/-- More keys may be in front of a key. -/
lemma Before.mono {used used' : List K} (h : r.Before k used) (hsub : used ⊆ used') :
    r.Before k used' := by
  obtain ⟨front, back, hkeys, hfront⟩ := h
  exact ⟨front, back, hkeys, fun x hx => hsub (hfront hx)⟩

end Table

end Recency
