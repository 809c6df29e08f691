import HkuUtils.ResultSet.Cache

set_option relaxedAutoImplicit false
set_option autoImplicit false

/-!
# Iterators as values

An iterator is a position in the rows: it is copied and assigned like a number, and it stands for
the row at its position. The iterators of the code have the positions that they should have, but a
copied or assigned iterator does not take the row along. This file compares them with the positions.

## Main definitions

* `HkuUtils.ResultSet.positions` — iterators as they should be: positions, which are values.
* `HkuUtils.ResultSet.calls` — the iterators of the code, with loads that succeed.
* `HkuUtils.ResultSet.Agree` — each iterator has its position and the row at this position.
* `HkuUtils.ResultSet.traverse` — the loop from `begin()` to `end()`.
* `HkuUtils.ResultSet.Transfers` — the copies and assignments that lose no row.

## Main results

* `HkuUtils.ResultSet.tracks_of_run` — the indexes are always the positions.
* `HkuUtils.ResultSet.always_holdsRow_iff` — the runs in which every iterator holds its row.
* `HkuUtils.ResultSet.traverse_eq` — what the loop visits.
* `HkuUtils.ResultSet.valueSemantics_iff` — both together.
-/

namespace HkuUtils.ResultSet

open Transition

variable {R : Type} [Table R]

/-! ## Positions -/

/-- The position after the next increment, in `n` rows. -/
def advance (n : ℕ) (p : Option ℕ) : Option ℕ :=
  p.bind fun k => if k + 1 < n then some (k + 1) else none

/-- **Iterators as values**: a position below `n`, or none for the end. This is what the iterators
of the class should be. -/
def positions (n : ℕ) : System (List (Option ℕ)) Call where
  init := []
  step ps
    | .subscript _ => some ps
    | .at_ _ => some ps
    | .begin => some (ps ++ [if 0 < n then some 0 else none])
    | .end_ => some (ps ++ [none])
    | .copy j => ps[j]?.map fun p => ps ++ [p]
    | .assign j k => ps[j]?.bind fun _ => ps[k]?.map fun p => ps.set j p
    | .increment j => ps[j]?.map fun p => ps.set j (advance n p)

/-- The sequences of calls in which every load succeeds. -/
def calls (res : Result R) : System (State R) Call where
  init := res.start
  step := call res (res.load none)

/-- Each iterator has its position and dereferences to the row there. -/
structure Agree (res : Result R) (ps : List (Option ℕ)) (its : List (Iterator R)) : Prop where
  index : its.map Iterator.index = ps.map fun p => p.getD nullSize
  value : ∀ (j k : ℕ) (it : Iterator R), ps[j]? = some (some k) → its[j]? = some it →
    res.rows[k]? = some it.value

/-! ## Iterators without pages -/

namespace Result

variable (res : Result R)

/-- The iterator at an index, with its row, or at the end. -/
def iteratorAt (k : ℕ) : Iterator R :=
  res.rows[k]?.elim ⟨nullSize, Table.null⟩ fun r => ⟨k, r⟩

/-- The iterator after `++`. -/
def next (it : Iterator R) : Iterator R :=
  if it.index = nullSize then it else res.iteratorAt (it.index + 1)

/-- The iterators of the code over the rows themselves, without pages. An iterator has its index
and a copy of its row. -/
def direct : System (List (Iterator R)) Call where
  init := []
  step its
    | .subscript _ => some its
    | .at_ _ => some its
    | .begin => some (its ++ [res.iteratorAt 0])
    | .end_ => some (its ++ [⟨nullSize, Table.null⟩])
    | .copy j => its[j]?.map fun it => its ++ [copy it]
    | .assign j k =>
      its[j]?.bind fun it => its[k]?.map fun other =>
        if j = k then its else its.set j (assign it other)
    | .increment j => its[j]?.map fun it => its.set j (res.next it)

end Result

/-- The index of an iterator is below the number of rows, or it is at the end. -/
def InRange (res : Result R) (its : List (Iterator R)) : Prop :=
  ∀ it ∈ its, it.index ≠ nullSize → it.index < res.rows.length

section Direct

variable {res : Result R} {s t : State R} {its its' : List (Iterator R)} {c : Call}

/-- The index of the iterator at `k`. -/
lemma index_iteratorAt (k : ℕ) :
    (res.iteratorAt k).index = if k < res.rows.length then k else nullSize := by
  unfold Result.iteratorAt
  split
  next h => simp [h]
  next h => simp [List.getElem?_eq_none (Nat.le_of_not_lt h)]

/-- An iterator after a step has got its index from a row, or from an iterator before.

**Proof sketch.** One case for each call. Only a copy, an assignment and the calls that make an
iterator or move one give an index. -/
lemma index_of_mem_direct {it : Iterator R} (h : res.direct.step its c = some its')
    (hit : it ∈ its') :
    (∃ other ∈ its, it.index = other.index) ∨ (∃ k, it.index = (res.iteratorAt k).index) ∨
      it.index = nullSize := by
  cases c with
  | subscript i =>
    obtain rfl := Option.some.inj h
    exact .inl ⟨it, hit, rfl⟩
  | at_ i =>
    obtain rfl := Option.some.inj h
    exact .inl ⟨it, hit, rfl⟩
  | begin =>
    obtain rfl := Option.some.inj h
    rcases List.mem_append.mp hit with hit | hit
    · exact .inl ⟨it, hit, rfl⟩
    · exact .inr (.inl ⟨0, by rw [List.mem_singleton.mp hit]⟩)
  | end_ =>
    obtain rfl := Option.some.inj h
    rcases List.mem_append.mp hit with hit | hit
    · exact .inl ⟨it, hit, rfl⟩
    · exact .inr (.inr (by rw [List.mem_singleton.mp hit]))
  | copy j =>
    obtain ⟨other, hj, rfl⟩ := Option.map_eq_some_iff.mp h
    rcases List.mem_append.mp hit with hit | hit
    · exact .inl ⟨it, hit, rfl⟩
    · exact .inl ⟨other, List.mem_of_getElem? hj, by rw [List.mem_singleton.mp hit]; rfl⟩
  | assign j k =>
    obtain ⟨self, hj, h⟩ := Option.bind_eq_some_iff.mp h
    obtain ⟨other, hk, rfl⟩ := Option.map_eq_some_iff.mp h
    split at hit
    · exact .inl ⟨it, hit, rfl⟩
    · rcases List.mem_or_eq_of_mem_set hit with hit | rfl
      · exact .inl ⟨it, hit, rfl⟩
      · exact .inl ⟨other, List.mem_of_getElem? hk, rfl⟩
  | increment j =>
    obtain ⟨self, hj, rfl⟩ := Option.map_eq_some_iff.mp h
    rcases List.mem_or_eq_of_mem_set hit with hit | rfl
    · exact .inl ⟨it, hit, rfl⟩
    · unfold Result.next
      split
      · exact .inl ⟨self, List.mem_of_getElem? hj, rfl⟩
      · exact .inr (.inl ⟨_, rfl⟩)

/-- No index leaves the rows. -/
lemma InRange.step (hits : InRange res its) (h : res.direct.step its c = some its') :
    InRange res its' := by
  intro it hit hne
  rcases index_of_mem_direct h hit with ⟨other, hmem, hindex⟩ | ⟨k, hindex⟩ | hindex
  · rw [hindex] at hne ⊢
    exact hits other hmem hne
  · rw [hindex, index_iteratorAt] at hne ⊢
    split at hne
    next hlt => rwa [if_pos hlt]
    next => exact absurd rfl hne
  · exact absurd hindex hne

/-! ## Pages do not matter -/

/-- What every state of a run satisfies. -/
structure Regular (res : Result R) (s : State R) : Prop where
  belongs : Belongs res s.set
  coherent : Coherent res s.set
  inRange : InRange res s.iterators

/-- A row that exists is read, and otherwise an invalid one. -/
lemma get_regular {set : SQLResultSet R} (hs : Belongs res set) (hco : Coherent res set) {k : ℕ}
    (hk : k ≤ res.rows.length) :
    (get res.pageSize (res.load none) k set).1 = .ok (res.rows[k]?.getD Table.null) := by
  have hlen := res.length_lt
  by_cases hnull : k = nullSize
  · have hnone : res.rows[k]? = none := by
      rw [List.getElem?_eq_none_iff]
      unfold nullSize at hnull
      omega
    rw [hnone, hnull, get_nullSize]
    rfl
  · have hlt : k < nullSize := by
      unfold nullSize at hnull ⊢
      omega
    rw [get_right hs hco hlt rfl]

/-- An iterator that is made at an index has the row with this index. -/
lemma iteratorAt_eq (hvalid : ∀ r ∈ res.rows, valid r = true) (k : ℕ) :
    (if valid (res.rows[k]?.getD Table.null) then ⟨k, res.rows[k]?.getD Table.null⟩
      else ⟨nullSize, res.rows[k]?.getD Table.null⟩ : Iterator R) = res.iteratorAt k := by
  rw [Result.iteratorAt]
  cases h : res.rows[k]? with
  | none => simp
  | some r => simp [hvalid r (List.mem_of_getElem? h)]

/-- `++` of the code. -/
lemma increment_eq_next (hvalid : ∀ r ∈ res.rows, valid r = true) {set : SQLResultSet R}
    (hs : Belongs res set) (hco : Coherent res set) {it : Iterator R}
    (hit : it.index ≠ nullSize → it.index < res.rows.length) :
    (increment res.pageSize (res.load none) (set, it)).2.2 = res.next it := by
  unfold Result.next
  split
  next hend => rw [increment_end hend]
  next hne =>
    rw [increment_apply hne, get_regular hs hco (hit hne)]
    exact iteratorAt_eq hvalid (it.index + 1)

/-- **Pages do not matter**: the iterators are those over the rows themselves.

**Proof sketch.** One case for each call. The call that reads a row gets the row of its index, by
`get_regular`, whichever page is in memory. -/
theorem direct_of_step (hvalid : ∀ r ∈ res.rows, valid r = true) (hs : Regular res s)
    (h : (calls res).step s c = some t) : res.direct.step s.iterators c = some t.iterators := by
  cases c with
  | subscript i =>
    obtain rfl := Option.some.inj h
    rfl
  | at_ i =>
    obtain rfl := Option.some.inj h
    rfl
  | begin =>
    obtain rfl := Option.some.inj h
    rw [iterator_apply (by decide), get_regular hs.belongs hs.coherent (Nat.zero_le _)]
    simp only [Except.map, State.push, iteratorAt_eq hvalid]
    rfl
  | end_ =>
    obtain rfl := Option.some.inj h
    rfl
  | copy j =>
    obtain ⟨other, hj, rfl⟩ := Option.map_eq_some_iff.mp h
    exact Option.map_eq_some_iff.mpr ⟨other, hj, rfl⟩
  | assign j k =>
    obtain ⟨self, hj, h⟩ := Option.bind_eq_some_iff.mp h
    obtain ⟨other, hk, rfl⟩ := Option.map_eq_some_iff.mp h
    refine Option.bind_eq_some_iff.mpr ⟨self, hj, Option.map_eq_some_iff.mpr ⟨other, hk, ?_⟩⟩
    split <;> rfl
  | increment j =>
    obtain ⟨self, hj, rfl⟩ := Option.map_eq_some_iff.mp h
    refine Option.map_eq_some_iff.mpr ⟨self, hj, ?_⟩
    show _ = s.iterators.set j (increment res.pageSize (res.load none) (s.set, self)).2.2
    rw [increment_eq_next hvalid hs.belongs hs.coherent (hs.inRange self (List.mem_of_getElem? hj))]

/-- A step keeps a state regular. -/
lemma Regular.step (hvalid : ∀ r ∈ res.rows, valid r = true) (hs : Regular res s)
    (h : (calls res).step s c = some t) : Regular res t := by
  refine ⟨hs.belongs.call h, ?_, hs.inRange.step (direct_of_step hvalid hs h)⟩
  rw [set_of_call h]
  split
  · exact hs.coherent
  · exact hs.coherent.loaded rfl

/-- No iterators, and an empty buffer. -/
lemma regular_start (res : Result R) : Regular res res.start :=
  ⟨belongs_start res, fun h => absurd (currentPage_start res) h, fun it hit => by
    simp [Result.start] at hit⟩

end Direct

/-! ## Positions and indexes -/

section Positions

variable {res : Result R} {its its' : List (Iterator R)} {ps : List (Option ℕ)} {c : Call}

/-- The indexes of the iterators are the positions, which are below the number of rows. -/
structure Tracks (res : Result R) (ps : List (Option ℕ)) (its : List (Iterator R)) : Prop where
  index : its.map Iterator.index = ps.map fun p => p.getD nullSize
  lt : ∀ k, some k ∈ ps → k < res.rows.length

/-- A position below the number of rows is not `nullSize`. -/
lemma ne_nullSize_of_lt {k : ℕ} (h : k < res.rows.length) : k ≠ nullSize := by
  have := res.length_lt
  unfold nullSize
  omega

/-- The position of an iterator. -/
lemma Tracks.position (h : Tracks res ps its) {j : ℕ} {it : Iterator R} (hj : its[j]? = some it) :
    ∃ p, ps[j]? = some p ∧ it.index = p.getD nullSize := by
  have hmap : (ps.map fun p => p.getD nullSize)[j]? = some it.index := by
    rw [← h.index, List.getElem?_map, hj]
    rfl
  rw [List.getElem?_map] at hmap
  obtain ⟨p, hp, heq⟩ := Option.map_eq_some_iff.mp hmap
  exact ⟨p, hp, heq.symm⟩

/-- The iterator at an index has that position. -/
lemma getD_position (k : ℕ) :
    (if k < res.rows.length then some k else none).getD nullSize = (res.iteratorAt k).index := by
  rw [index_iteratorAt]
  split <;> rfl

/-- `++` moves the position. -/
lemma index_next (hlt : ∀ k, some k ∈ ps → k < res.rows.length) {p : Option ℕ} (hp : p ∈ ps)
    {it : Iterator R} (hit : it.index = p.getD nullSize) :
    (res.next it).index = (advance res.rows.length p).getD nullSize := by
  cases p with
  | none =>
    have hend : it.index = nullSize := hit
    rw [Result.next, if_pos hend, hend]
    rfl
  | some k =>
    have hk : it.index = k := hit
    rw [Result.next, hk, if_neg (ne_nullSize_of_lt (hlt k hp))]
    exact (getD_position (k + 1)).symm

/-- A new iterator with its position. -/
lemma Tracks.append (h : Tracks res ps its) {it : Iterator R} {p : Option ℕ}
    (hindex : it.index = p.getD nullSize) (hlt : ∀ k, p = some k → k < res.rows.length) :
    Tracks res (ps ++ [p]) (its ++ [it]) where
  index := by
    rw [List.map_append, List.map_append, h.index, List.map_singleton, List.map_singleton, hindex]
  lt k hk := by
    rcases List.mem_append.mp hk with hk | hk
    · exact h.lt k hk
    · exact hlt k (List.mem_singleton.mp hk).symm

/-- A changed iterator with its position. -/
lemma Tracks.set (h : Tracks res ps its) (j : ℕ) {it : Iterator R} {p : Option ℕ}
    (hindex : it.index = p.getD nullSize) (hlt : ∀ k, p = some k → k < res.rows.length) :
    Tracks res (ps.set j p) (its.set j it) where
  index := by rw [List.map_set, List.map_set, h.index, hindex]
  lt k hk := by
    rcases List.mem_or_eq_of_mem_set hk with hk | hk
    · exact h.lt k hk
    · exact hlt k hk.symm

/-- A position that was looked up is below the number of rows. -/
lemma lt_of_position {n k i : ℕ} (h : (if k < n then some k else none) = some i) : i < n := by
  split at h
  next hlt => rwa [← Option.some.inj h]
  next => cases h

/-- **Each step moves the iterators as it moves the positions.**

**Proof sketch.** One case for each call. An iterator at a row has its position, and one behind the
last row has none. -/
lemma Tracks.step (h : Tracks res ps its) (hst : res.direct.step its c = some its') :
    ∃ ps', (positions res.rows.length).step ps c = some ps' ∧ Tracks res ps' its' := by
  cases c with
  | subscript i =>
    obtain rfl := Option.some.inj hst
    exact ⟨ps, rfl, h⟩
  | at_ i =>
    obtain rfl := Option.some.inj hst
    exact ⟨ps, rfl, h⟩
  | begin =>
    obtain rfl := Option.some.inj hst
    exact ⟨_, rfl, h.append (getD_position 0).symm fun k hk => lt_of_position hk⟩
  | end_ =>
    obtain rfl := Option.some.inj hst
    exact ⟨_, rfl, h.append rfl fun k hk => by cases hk⟩
  | copy j =>
    obtain ⟨other, hj, rfl⟩ := Option.map_eq_some_iff.mp hst
    obtain ⟨p, hp, hindex⟩ := h.position hj
    exact ⟨_, Option.map_eq_some_iff.mpr ⟨p, hp, rfl⟩,
      h.append hindex fun k hk => h.lt k (hk ▸ List.mem_of_getElem? hp)⟩
  | assign j k =>
    obtain ⟨self, hj, hst⟩ := Option.bind_eq_some_iff.mp hst
    obtain ⟨other, hk, rfl⟩ := Option.map_eq_some_iff.mp hst
    obtain ⟨p, hp, -⟩ := h.position hj
    obtain ⟨q, hq, hindex⟩ := h.position hk
    refine ⟨_, Option.bind_eq_some_iff.mpr ⟨p, hp, Option.map_eq_some_iff.mpr ⟨q, hq, rfl⟩⟩, ?_⟩
    split
    next hjk =>
      -- an assignment to itself changes nothing
      subst hjk
      obtain ⟨hlt, rfl⟩ := List.getElem?_eq_some_iff.mp hq
      rw [List.set_getElem_self]
      exact h
    next => exact h.set j hindex fun i hi => h.lt i (hi ▸ List.mem_of_getElem? hq)
  | increment j =>
    obtain ⟨self, hj, rfl⟩ := Option.map_eq_some_iff.mp hst
    obtain ⟨p, hp, hindex⟩ := h.position hj
    have hmem := List.mem_of_getElem? hp
    refine ⟨_, Option.map_eq_some_iff.mpr ⟨p, hp, rfl⟩,
      h.set j (index_next h.lt hmem hindex) fun i hi => ?_⟩
    obtain ⟨k, -, hk⟩ := Option.bind_eq_some_iff.mp hi
    exact lt_of_position hk

end Positions

/-! ## Rows -/

/-- An iterator that is not at the end has the row with its index. -/
def HoldsRow (res : Result R) (its : List (Iterator R)) : Prop :=
  ∀ it ∈ its, it.index ≠ nullSize → res.rows[it.index]? = some it.value

/-- The copies and assignments that lose no row: those of end iterators, and an assignment to an
iterator that has the row already. -/
def Transfers (res : Result R) (its : List (Iterator R)) : Call → Prop
  | .copy j => ∀ it ∈ its[j]?, it.index = nullSize
  | .assign j k => ∀ it ∈ its[j]?, ∀ other ∈ its[k]?,
      j = k ∨ other.index = nullSize ∨ res.rows[other.index]? = some it.value
  | _ => True

instance [DecidableEq R] (res : Result R) (its : List (Iterator R)) :
    ∀ c, Decidable (Transfers res its c)
  | .copy _ => inferInstanceAs (Decidable (∀ _ ∈ _, _))
  | .assign _ _ => inferInstanceAs (Decidable (∀ _ ∈ _, _))
  | .subscript _ | .at_ _ | .begin | .end_ | .increment _ => inferInstanceAs (Decidable True)

section Rows

variable {res : Result R} {its its' : List (Iterator R)} {c : Call}

/-- The row of the iterator at an index. -/
lemma holdsRow_iteratorAt (k : ℕ) (hne : (res.iteratorAt k).index ≠ nullSize) :
    res.rows[(res.iteratorAt k).index]? = some (res.iteratorAt k).value := by
  unfold Result.iteratorAt at hne ⊢
  cases h : res.rows[k]? with
  | none => simp [h] at hne
  | some r => exact h

/-- The row after `++`. -/
lemma holdsRow_next {it : Iterator R} (hne : (res.next it).index ≠ nullSize) :
    res.rows[(res.next it).index]? = some (res.next it).value := by
  unfold Result.next at hne ⊢
  split at hne
  next hend => exact absurd hend hne
  next hnot =>
    rw [if_neg hnot]
    exact holdsRow_iteratorAt _ hne

/-- The rows after an iterator has been added. -/
lemma holdsRow_append (h : HoldsRow res its) {it : Iterator R} :
    HoldsRow res (its ++ [it]) ↔ (it.index ≠ nullSize → res.rows[it.index]? = some it.value) := by
  constructor
  · exact fun hall => hall it (by simp)
  · intro hit a ha
    rcases List.mem_append.mp ha with ha | ha
    · exact h a ha
    · rw [List.mem_singleton.mp ha]
      exact hit

/-- The rows after an iterator has been changed. -/
lemma holdsRow_set (h : HoldsRow res its) {j : ℕ} (hj : j < its.length) {it : Iterator R} :
    HoldsRow res (its.set j it) ↔ (it.index ≠ nullSize → res.rows[it.index]? = some it.value) := by
  constructor
  · exact fun hall => hall it (List.mem_set hj it)
  · intro hit a ha
    rcases List.mem_or_eq_of_mem_set ha with ha | rfl
    · exact h a ha
    · exact hit

/-- **Each step.** The iterators hold their rows afterwards unless a row gets lost in a copy or in
an assignment.

**Proof sketch.** One case for each call. A new iterator reads its row; a copy and an assignment
take over the index without the row. -/
theorem holdsRow_step_iff (hvalid : ∀ r ∈ res.rows, valid r = true) (h : HoldsRow res its)
    (hst : res.direct.step its c = some its') : HoldsRow res its' ↔ Transfers res its c := by
  cases c with
  | subscript i =>
    obtain rfl := Option.some.inj hst
    exact iff_of_true h trivial
  | at_ i =>
    obtain rfl := Option.some.inj hst
    exact iff_of_true h trivial
  | begin =>
    obtain rfl := Option.some.inj hst
    exact iff_of_true ((holdsRow_append h).mpr (holdsRow_iteratorAt 0)) trivial
  | end_ =>
    obtain rfl := Option.some.inj hst
    exact iff_of_true ((holdsRow_append h).mpr fun hne => absurd rfl hne) trivial
  | copy j =>
    obtain ⟨other, hj, rfl⟩ := Option.map_eq_some_iff.mp hst
    have hnull : ∀ k : ℕ, res.rows[k]? ≠ some (Table.null : R) := by
      intro k hk
      have := hvalid _ (List.mem_of_getElem? hk)
      simp at this
    rw [holdsRow_append h, Transfers]
    constructor
    · intro hrow it hit
      obtain rfl := Option.some.inj (hj.symm.trans hit)
      by_contra hne
      exact hnull _ (hrow hne)
    · exact fun hend hne => absurd (hend other hj) hne
  | assign j k =>
    obtain ⟨self, hj, hst⟩ := Option.bind_eq_some_iff.mp hst
    obtain ⟨other, hk, rfl⟩ := Option.map_eq_some_iff.mp hst
    by_cases hjk : j = k
    · rw [if_pos hjk]
      exact iff_of_true h fun _ _ _ _ => .inl hjk
    · rw [if_neg hjk, holdsRow_set h (List.getElem?_eq_some_iff.mp hj).1, Transfers]
      constructor
      · intro hrow it hit o ho
        obtain rfl := Option.some.inj (hj.symm.trans hit)
        obtain rfl := Option.some.inj (hk.symm.trans ho)
        exact .inr (Decidable.or_iff_not_imp_left.mpr hrow)
      · intro hall hne
        exact ((hall self hj other hk).resolve_left hjk).resolve_left hne
  | increment j =>
    obtain ⟨self, hj, rfl⟩ := Option.map_eq_some_iff.mp hst
    exact iff_of_true
      ((holdsRow_set h (List.getElem?_eq_some_iff.mp hj).1).mpr holdsRow_next) trivial

/-- **The rows of the iterators.** In a sequence of calls every iterator always holds the row at its
index exactly if no copy and no assignment loses a row. -/
theorem always_holdsRow_iff (hvalid : ∀ r ∈ res.rows, valid r = true) {es : List Call}
    {s : State R} (hrun : (calls res).run es = some s) :
    (calls res).Always (fun s => HoldsRow res s.iterators) es ↔
      (calls res).Along (fun s => Transfers res s.iterators) es :=
  System.always_iff_along (J := Regular res) (regular_start res)
    (fun it hit => by simp [calls, Result.start] at hit) (fun _ _ _ hs hst => hs.step hvalid hst)
    (fun _ _ _ hs h hst => holdsRow_step_iff hvalid h (direct_of_step hvalid hs hst)) hrun

/-- **The positions of the iterators.** Whatever is copied and assigned, each iterator has the
index that it should have.

**Proof sketch.** By induction on the calls: each moves the iterators over the rows as it moves the
positions, whatever page is in memory. -/
theorem tracks_of_run (hvalid : ∀ r ∈ res.rows, valid r = true) {es : List Call} {s : State R}
    (hrun : (calls res).run es = some s) :
    Regular res s ∧
      ∃ ps, (positions res.rows.length).run es = some ps ∧ Tracks res ps s.iterators := by
  suffices h : ∀ s₀ ps₀, Regular res s₀ → Tracks res ps₀ s₀.iterators →
      (calls res).runFrom s₀ es = some s → Regular res s ∧
        ∃ ps, (positions res.rows.length).runFrom ps₀ es = some ps ∧ Tracks res ps s.iterators from
    h res.start [] (regular_start res) ⟨rfl, by simp⟩ hrun
  clear hrun
  induction es with
  | nil =>
    intro s₀ ps₀ hs htracks hrun
    obtain rfl := Option.some.inj hrun
    exact ⟨hs, ps₀, rfl, htracks⟩
  | cons c es ih =>
    intro s₀ ps₀ hs htracks hrun
    obtain ⟨t, ht, hrest⟩ := System.runFrom_cons_eq_some _ |>.mp hrun
    obtain ⟨ps₁, hps₁, htracks₁⟩ := htracks.step (direct_of_step hvalid hs ht)
    obtain ⟨hs', ps, hps, htr⟩ := ih t ps₁ (hs.step hvalid ht) htracks₁ hrest
    exact ⟨hs', ps, System.runFrom_cons_eq_some _ |>.mpr ⟨ps₁, hps₁, hps⟩, htr⟩

/-- Iterators that are at their positions agree with them exactly if they hold their rows. -/
lemma Tracks.agree_iff {ps : List (Option ℕ)} (h : Tracks res ps its) :
    Agree res ps its ↔ HoldsRow res its := by
  constructor
  · intro hagree it hit hne
    obtain ⟨j, hj⟩ := List.getElem?_of_mem hit
    obtain ⟨p, hp, hindex⟩ := h.position hj
    cases p with
    | none => exact absurd hindex hne
    | some k =>
      rw [show it.index = k from hindex]
      exact hagree.value j k it hp hj
  · refine fun hrow => ⟨h.index, fun j k it hp hj => ?_⟩
    obtain ⟨p, hp', hindex⟩ := h.position hj
    obtain rfl := Option.some.inj (hp.symm.trans hp')
    have hk : it.index = k := hindex
    rw [← hk]
    refine hrow it (List.mem_of_getElem? hj) ?_
    rw [hk]
    exact ne_nullSize_of_lt (h.lt k (List.mem_of_getElem? hp))

end Rows

/-! ## The loop over all rows -/

/-- `for (auto it = begin(); it != end(); ++it)` with the body `visit(*it)`, from some iterator and
with some fuel: the rows that are visited. -/
def traverse (pageSize : ℕ) (load : ℕ → Answer R) :
    ℕ → SQLResultSet R × Iterator R → Option (List R)
  | 0, _ => none
  | n + 1, s =>
    if s.2.index = nullSize then some []
    else (traverse pageSize load n (increment pageSize load s).2).map (s.2.value :: ·)

/-- The loop from `begin()` ends and visits every row once, in order. -/
def Visits (res : Result R) (set : SQLResultSet R) : Prop :=
  ∃ n it t, iterator res.pageSize (res.load none) 0 set = (.ok it, t) ∧
    traverse res.pageSize (res.load none) n (t, it) = some res.rows

section Loop

variable {res : Result R} {set : SQLResultSet R}

/-- The iterator that `begin()` or `++` makes from the row at `k`. -/
def Result.made (res : Result R) (k : ℕ) : Iterator R :=
  if valid (res.rows[k]?.getD Table.null) then ⟨k, res.rows[k]?.getD Table.null⟩
  else ⟨nullSize, res.rows[k]?.getD Table.null⟩

/-- An invalid row is not visited, nor is what follows it. -/
lemma takeWhile_drop (k : ℕ) :
    (res.rows.drop k).takeWhile valid =
      if valid (res.rows[k]?.getD Table.null) then
        res.rows[k]?.getD Table.null :: (res.rows.drop (k + 1)).takeWhile valid
      else [] := by
  by_cases hk : k < res.rows.length
  · rw [List.drop_eq_getElem_cons hk, List.getElem?_eq_getElem hk, Option.getD_some,
      List.takeWhile_cons]
  · rw [List.drop_eq_nil_of_le (Nat.le_of_not_lt hk),
      List.getElem?_eq_none (Nat.le_of_not_lt hk)]
    simp

/-- **What the loop visits**: the rows up to the first invalid one.

**Proof sketch.** By induction on the fuel. At a valid row the loop goes on, to the next index or
behind the last row, where the null row ends it. -/
theorem traverse_eq (n : ℕ) {k : ℕ} (hk : k ≤ res.rows.length) (hs : Belongs res set)
    (hco : Coherent res set) :
    traverse res.pageSize (res.load none) n (set, res.made k) =
      if ((res.rows.drop k).takeWhile valid).length < n then
        some ((res.rows.drop k).takeWhile valid)
      else none := by
  induction n generalizing k set with
  | zero => rfl
  | succ n ih =>
    rw [takeWhile_drop, traverse, Result.made]
    by_cases hvalid : valid (res.rows[k]?.getD Table.null) = true
    · have hlt : k < res.rows.length := by
        by_contra hge
        rw [List.getElem?_eq_none (Nat.le_of_not_lt hge)] at hvalid
        simp at hvalid
      have hne : k ≠ nullSize := ne_nullSize_of_lt hlt
      simp only [if_pos hvalid, if_neg hne]
      have hnext : (increment res.pageSize (res.load none)
          (set, ⟨k, res.rows[k]?.getD Table.null⟩)).2 =
            ((get res.pageSize (res.load none) (k + 1) set).2, res.made (k + 1)) := by
        rw [increment_apply hne, get_regular hs hco hlt]
        rfl
      have hco' : Coherent res (get res.pageSize (res.load none) (k + 1) set).2 := by
        rw [get_snd]
        split
        · exact hco
        · exact hco.loaded rfl
      have hs' : Belongs res (get res.pageSize (res.load none) (k + 1) set).2 := by
        rw [get_snd]
        split
        · exact hs
        · exact hs.loaded _ _
      rw [hnext, ih hlt hs' hco', List.length_cons]
      by_cases hlen : ((res.rows.drop (k + 1)).takeWhile valid).length < n
      · rw [if_pos hlen, if_pos (by omega)]
        rfl
      · rw [if_neg hlen, if_neg (by omega)]
        rfl
    · simp only [if_neg hvalid]
      simp

/-- The loop visits every row exactly if all of them are valid.

**Proof sketch.** The loop visits the rows up to the first invalid one, by `traverse_eq`, and these
are all rows exactly if none is invalid. -/
theorem visits_iff (hs : Belongs res set) (hco : Coherent res set) :
    Visits res set ↔ ∀ r ∈ res.rows, valid r = true := by
  have h0 : 0 ≠ nullSize := by decide
  have hbegin : iterator res.pageSize (res.load none) 0 set =
      (.ok (res.made 0), set.loaded (res.load none) (0 / res.pageSize)) := by
    rw [iterator_apply h0, get_snd, if_neg h0, get_regular hs hco (Nat.zero_le _)]
    rfl
  have hs' := hs.loaded (res.load none) (0 / res.pageSize)
  have hco' := hco.loaded (res.load_none (0 / res.pageSize))
  have heq := fun n => traverse_eq n (Nat.zero_le res.rows.length) hs' hco'
  rw [List.drop_zero] at heq
  rw [← List.takeWhile_eq_self_iff]
  constructor
  · rintro ⟨n, it, t, hit, hrows⟩
    rw [hbegin] at hit
    obtain ⟨hmade, rfl⟩ := Prod.mk.inj hit
    obtain rfl := Except.ok.inj hmade
    rw [heq] at hrows
    split at hrows
    · exact Option.some.inj hrows
    · cases hrows
  · intro hall
    refine ⟨res.rows.length + 1, _, _, hbegin, ?_⟩
    rw [heq, hall, if_pos (Nat.lt_succ_self _)]

end Loop

/-! ## Value semantics -/

/-- After each of the calls, the iterators agree with their positions, and the loop over all rows
visits each of them once. -/
def ValueSemantics (res : Result R) (es : List Call) : Prop :=
  ∀ fs, fs <+: es → ∀ s, (calls res).run fs = some s →
    (∃ ps, (positions res.rows.length).run fs = some ps ∧ Agree res ps s.iterators) ∧
      Visits res s.set

/-- **Iterators as values.** Exactly if all rows are valid and no copy and no assignment loses a
row.

**Proof sketch.** The loop over all rows asks that they are valid. The iterators have their indexes
in any case, so they agree with the positions exactly if each holds its row. -/
theorem valueSemantics_iff (res : Result R) {es : List Call} {s : State R}
    (hrun : (calls res).run es = some s) :
    ValueSemantics res es ↔
      (∀ r ∈ res.rows, valid r = true) ∧
        (calls res).Along (fun s => Transfers res s.iterators) es := by
  constructor
  · intro h
    have hstart := regular_start res
    have hvalid := (visits_iff hstart.belongs hstart.coherent).mp (h [] List.nil_prefix _ rfl).2
    refine ⟨hvalid, (always_holdsRow_iff hvalid hrun).mp ?_⟩
    refine (calls res).alwaysFrom_iff.mpr fun fs hfs t ht => ?_
    obtain ⟨⟨ps, hps, hagree⟩, -⟩ := h fs hfs t ht
    obtain ⟨-, ps', hps', htracks⟩ := tracks_of_run hvalid ht
    obtain rfl := Option.some.inj (hps.symm.trans hps')
    exact htracks.agree_iff.mp hagree
  · rintro ⟨hvalid, halong⟩ fs hfs t ht
    obtain ⟨hs, ps, hps, htracks⟩ := tracks_of_run hvalid ht
    have hrow := (calls res).alwaysFrom_iff.mp ((always_holdsRow_iff hvalid hrun).mpr halong)
      fs hfs t ht
    exact ⟨⟨ps, hps, htracks.agree_iff.mpr hrow⟩, (visits_iff hs.belongs hs.coherent).mpr hvalid⟩

/-- An iterator is assigned to one that has moved to the same row. -/
theorem valueSemantics_same_row :
    ValueSemantics fourRows [.begin, .begin, .increment 0, .increment 1, .assign 1 0] :=
  (valueSemantics_iff fourRows
    (s := ⟨(firstPage [⟨1⟩, ⟨2⟩]).set, [⟨1, ⟨2⟩⟩, ⟨1, ⟨2⟩⟩]⟩) (by decide)).mpr
      ⟨by decide, by decide⟩

/-- A copy of `begin()` has the position of the first row and dereferences to an invalid row. -/
theorem not_valueSemantics_copy :
    (calls fourRows).run [.begin, .copy 0] =
        some ⟨(firstPage [⟨1⟩, ⟨2⟩]).set, [⟨0, ⟨1⟩⟩, ⟨0, ⟨0⟩⟩]⟩ ∧
      (positions 4).run [.begin, .copy 0] = some [some 0, some 0] ∧
      ¬ ValueSemantics fourRows [.begin, .copy 0] := by
  have hrun : (calls fourRows).run [.begin, .copy 0] =
      some ⟨(firstPage [⟨1⟩, ⟨2⟩]).set, [⟨0, ⟨1⟩⟩, ⟨0, ⟨0⟩⟩]⟩ := by
    decide
  have hpositions : (positions 4).run [.begin, .copy 0] = some [some 0, some 0] := by decide
  refine ⟨hrun, hpositions, fun h => ?_⟩
  obtain ⟨⟨ps, hps, hagree⟩, -⟩ := h _ List.prefix_rfl _ hrun
  obtain rfl := Option.some.inj (hpositions.symm.trans hps)
  have hrow : fourRows.rows[0]? = some ⟨0⟩ := hagree.value 1 0 ⟨0, ⟨0⟩⟩ rfl rfl
  exact absurd hrow (by decide)

end HkuUtils.ResultSet
