import Mathlib.Data.List.Basic

set_option relaxedAutoImplicit false
set_option autoImplicit false

/-!
# The history of a map

What a map with removal and eviction should hold can be read off the list of all changes: the
value of a key is the one most recently inserted for it, unless the key was removed or evicted or
the map was cleared afterwards.

## Main definitions

* `History.Change` — what can happen to the entries of a map.
* `History.latest` — what the map should hold for a key.
* `History.Represents` — a map holds what its history says.

## Main results

* `History.Represents.insert`, `remove`, `clear`, `evict` — one rule for each change.
-/

namespace History

variable {K V : Type} [DecidableEq K]

/-- A change of a map with keys `K` and values `V`. -/
inductive Change (K V : Type) where
  | inserted (k : K) (v : V)
  | removed (k : K)
  | evicted (k : K)
  | cleared

/-- The value most recently inserted for a key since it was last removed, cleared or evicted. The
list has the last change first. -/
def latest (k : K) : List (Change K V) → Option V
  | [] => none
  | .inserted k' v :: h => if k' = k then some v else latest k h
  | .removed k' :: h => if k' = k then none else latest k h
  | .evicted k' :: h => if k' = k then none else latest k h
  | .cleared :: _ => none

/-- The map `m` holds what the history says. -/
def Represents (h : List (Change K V)) (m : K → Option V) : Prop := ∀ k, m k = latest k h

/-- After an eviction of several keys. -/
lemma latest_evicted (k : K) (ks : List K) (h : List (Change K V)) :
    latest k (ks.map .evicted ++ h) = if k ∈ ks then none else latest k h := by
  induction ks with
  | nil => rfl
  | cons k' ks ih =>
    rw [List.map_cons, List.cons_append, latest, ih]
    by_cases hk : k' = k
    · rw [if_pos hk, if_pos (by rw [hk]; exact List.mem_cons_self)]
    · have hmem : k ∈ k' :: ks ↔ k ∈ ks := by
        rw [List.mem_cons, or_iff_right (Ne.symm hk)]
      rw [if_neg hk]
      simp only [hmem]

namespace Represents

variable {h : List (Change K V)} {m m' : K → Option V}

/-- Before any change the map is empty. -/
lemma nil : Represents ([] : List (Change K V)) fun _ => none := fun _ => rfl

/-- A key gets a value. -/
lemma insert (hm : Represents h m) {k : K} {v : V} (hk : m' k = some v)
    (hne : ∀ k', k' ≠ k → m' k' = m k') : Represents (.inserted k v :: h) m' := by
  intro k'
  rw [latest]
  split
  · next heq => rw [← heq, hk]
  · next heq => rw [hne k' (Ne.symm heq), hm k']

/-- A key loses its value. -/
lemma remove (hm : Represents h m) {k : K} (hk : m' k = none)
    (hne : ∀ k', k' ≠ k → m' k' = m k') : Represents (.removed k :: h) m' := by
  intro k'
  rw [latest]
  split
  · next heq => rw [← heq, hk]
  · next heq => rw [hne k' (Ne.symm heq), hm k']

/-- All keys lose their values. -/
lemma clear (hm' : ∀ k, m' k = none) : Represents (.cleared :: h) m' := hm'

/-- Some keys are evicted. -/
lemma evict (hm : Represents h m) {ks : List K} (hmem : ∀ k ∈ ks, m' k = none)
    (hnot : ∀ k, k ∉ ks → m' k = m k) : Represents (ks.map .evicted ++ h) m' := by
  intro k
  rw [latest_evicted]
  split
  · next hk => exact hmem k hk
  · next hk => rw [hnot k hk, hm k]

end Represents

end History
