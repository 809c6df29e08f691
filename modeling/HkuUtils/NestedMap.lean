import Mathlib.Data.Finmap

set_option relaxedAutoImplicit false
set_option autoImplicit false

/-!
# Maps of maps and what is written to them

A map whose values are maps, written to by entering a key of the first level or by assigning a
value to a pair of keys. What a sequence of writes leaves is told by the last assignment to each
pair.

## Main definitions

* `NestedMap` — a map of maps, with `enter`, `assign` and `value`.
* `NestedMap.Write`, `writes` — one write, and a sequence of writes.
* `NestedMap.assigned` — the last value that a sequence assigns to a pair of keys.

## Main results

* `NestedMap.mem_writes_iff`, `value_writes` — what a sequence of writes leaves.
* `NestedMap.writes_eq_iff`, `writes_eq_self_iff` — when it leaves a given map, or changes nothing.
* `NestedMap.exists_blocks` — every map is left by writes that enter each key before assigning
  under it.
-/

/-- A map whose values are maps. -/
abbrev NestedMap (α β γ : Type*) := Finmap fun _ : α => Finmap fun _ : β => γ

namespace NestedMap

variable {α β γ : Type*} [DecidableEq α]

/-- `m[a]`: the key is entered with the empty map if it is not there. -/
def enter (m : NestedMap α β γ) (a : α) : NestedMap α β γ := if a ∈ m then m else m.insert a ∅

/-- `m[a][b] = c`. -/
def assign [DecidableEq β] (m : NestedMap α β γ) (a : α) (b : β) (c : γ) : NestedMap α β γ :=
  m.insert a (((m.lookup a).getD ∅).insert b c)

/-- The value at a pair of keys. -/
def value [DecidableEq β] (m : NestedMap α β γ) (a : α) (b : β) : Option γ :=
  (m.lookup a).bind (·.lookup b)

/-- One write. -/
inductive Write (α β γ : Type*) where
  | enter (a : α)
  | assign (a : α) (b : β) (c : γ)
  deriving DecidableEq

/-- The key of the first level that is written under. -/
def Write.key : Write α β γ → α
  | enter a => a
  | assign a _ _ => a

/-- What a write assigns to a pair of keys. -/
def Write.sets [DecidableEq β] (a : α) (b : β) : Write α β γ → Option γ
  | enter _ => none
  | assign a' b' c => if a' = a ∧ b' = b then some c else none

/-- A write is done. -/
def Write.run [DecidableEq β] (m : NestedMap α β γ) : Write α β γ → NestedMap α β γ
  | enter a => m.enter a
  | assign a b c => m.assign a b c

/-- The writes are done one after another. -/
def writes [DecidableEq β] (ws : List (Write α β γ)) (m : NestedMap α β γ) : NestedMap α β γ :=
  ws.foldl Write.run m

/-- The writes of a document in blocks: a key is entered, then assigned under. -/
def blockWrites (bs : List (α × List (β × γ))) : List (Write α β γ) :=
  bs.flatMap fun p => .enter p.1 :: p.2.map fun q => .assign p.1 q.1 q.2

/-- The value that the last assignment to a pair of keys assigns. -/
def assigned [DecidableEq β] (ws : List (Write α β γ)) (a : α) (b : β) : Option γ :=
  (ws.filterMap (Write.sets a b)).getLast?

variable {m m' : NestedMap α β γ} {ws : List (Write α β γ)} {a a' : α} {b b' : β} {c : γ}

/-- An outer key is there after it was entered, and no other is new. -/
lemma mem_enter : a' ∈ m.enter a ↔ a' = a ∨ a' ∈ m := by
  unfold enter
  split
  case isTrue h =>
    refine ⟨Or.inr, ?_⟩
    rintro (rfl | h')
    · exact h
    · exact h'
  case isFalse => exact Finmap.mem_insert

variable [DecidableEq β]

/-- Nothing is written. -/
@[simp]
lemma writes_nil (m : NestedMap α β γ) : writes [] m = m := rfl

/-- The first write and the others. -/
@[simp]
lemma writes_cons (w : Write α β γ) (ws : List (Write α β γ)) (m : NestedMap α β γ) :
    writes (w :: ws) m = writes ws (w.run m) := rfl

/-- Writes behind each other. -/
lemma writes_append (ws us : List (Write α β γ)) (m : NestedMap α β γ) :
    writes (ws ++ us) m = writes us (writes ws m) := List.foldl_append

/-! ## One write -/

/-- Entering an outer key changes no value. -/
lemma value_enter : (m.enter a).value a' b = m.value a' b := by
  unfold enter
  split
  case isTrue => rfl
  case isFalse h =>
    by_cases haa : a' = a
    · subst haa
      simp [value, Finmap.lookup_insert, Finmap.lookup_eq_none.mpr h]
    · simp [value, Finmap.lookup_insert_of_ne _ haa]

/-- A write enters its outer key, and no other. -/
lemma mem_run (w : Write α β γ) : a ∈ w.run m ↔ w.key = a ∨ a ∈ m := by
  cases w with
  | enter a' => exact mem_enter.trans (by rw [eq_comm]; rfl)
  | assign a' b c => exact Finmap.mem_insert.trans (by rw [eq_comm]; rfl)

/-- A write sets its value, and no other. -/
lemma value_run (w : Write α β γ) : (w.run m).value a b = (w.sets a b).or (m.value a b) := by
  cases w with
  | enter a' => exact value_enter
  | assign a' b' c =>
    by_cases haa : a = a'
    · subst haa
      by_cases hbb : b = b'
      · subst hbb
        simp [Write.run, assign, value, Write.sets]
      · have hset : Write.sets a b (Write.assign a b' c) = none := by
          simp [Write.sets, Ne.symm hbb]
        rw [hset, Option.none_or]
        cases h : m.lookup a <;>
          simp [Write.run, assign, value, h, Finmap.lookup_insert_of_ne _ hbb]
    · have hset : Write.sets a b (Write.assign a' b' c) = none := by
        simp [Write.sets, Ne.symm haa]
      rw [hset, Option.none_or]
      simp [Write.run, assign, value, Finmap.lookup_insert_of_ne _ haa]

/-! ## Sequences of writes -/

/-- What is assigned last counts. -/
lemma assigned_cons (w : Write α β γ) (ws : List (Write α β γ)) (a : α) (b : β) :
    assigned (w :: ws) a b = (assigned ws a b).or (w.sets a b) := by
  unfold assigned
  rw [List.filterMap_cons]
  cases w.sets a b with
  | none => simp
  | some c =>
    rw [List.getLast?_cons]
    cases (ws.filterMap (Write.sets a b)).getLast? <;> rfl

/-- The keys of the first level after a sequence of writes. -/
theorem mem_writes_iff : a ∈ writes ws m ↔ (∃ w ∈ ws, w.key = a) ∨ a ∈ m := by
  induction ws generalizing m with
  | nil => simp
  | cons w ws ih => rw [writes_cons, ih, mem_run, List.exists_mem_cons_iff, or_left_comm, or_assoc]

/-- **What a sequence of writes leaves**: at each pair of keys the last value assigned to it, else
the value that was there. -/
theorem value_writes : (writes ws m).value a b = (assigned ws a b).or (m.value a b) := by
  induction ws generalizing m with
  | nil => rfl
  | cons w ws ih => rw [writes_cons, ih, value_run, assigned_cons, Option.or_assoc]

/-- A map of maps is told by its keys and the values at the pairs of keys. -/
theorem ext_iff_value :
    m = m' ↔ (∀ a, a ∈ m ↔ a ∈ m') ∧ ∀ a b, m.value a b = m'.value a b := by
  refine ⟨by rintro rfl; simp, fun ⟨hmem, hvalue⟩ => Finmap.ext_lookup fun a => ?_⟩
  cases h : m.lookup a with
  | none =>
    rw [Finmap.lookup_eq_none, hmem a] at h
    exact (Finmap.lookup_eq_none.mpr h).symm
  | some o =>
    obtain ⟨o', ho'⟩ := Finmap.mem_iff.mp ((hmem a).mp (Finmap.mem_of_lookup_eq_some h))
    rw [ho', Option.some_inj]
    refine Finmap.ext_lookup fun b => ?_
    simpa [value, h, ho'] using hvalue a b

/-- When a sequence of writes leaves a given map. -/
theorem writes_eq_iff :
    writes ws m = m' ↔ (∀ a, a ∈ m' ↔ (∃ w ∈ ws, w.key = a) ∨ a ∈ m) ∧
      ∀ a b, m'.value a b = (assigned ws a b).or (m.value a b) := by
  rw [eq_comm, ext_iff_value]
  simp only [mem_writes_iff, value_writes]

/-- **When a sequence of writes changes nothing**: the keys written under are there, and the last
value assigned to each pair of keys is the one that is there. -/
theorem writes_eq_self_iff :
    writes ws m = m ↔ (∀ w ∈ ws, w.key ∈ m) ∧
      ∀ a b c, assigned ws a b = some c → m.value a b = some c := by
  rw [writes_eq_iff]
  refine and_congr ⟨fun h w hw => (h w.key).mpr (.inl ⟨w, hw, rfl⟩), fun h a => ?_⟩ ?_
  · refine ⟨Or.inr, ?_⟩
    rintro (⟨w, hw, rfl⟩ | ha)
    · exact h w hw
    · exact ha
  · refine forall_congr' fun a => forall_congr' fun b => ?_
    cases h : assigned ws a b <;> simp

/-! ## Documents in blocks -/

/-- A block under a new key leaves any given map at it.

**Proof sketch.** By induction on the map, one assignment for each key, which are all different. -/
lemma exists_block (o : Finmap fun _ : β => γ) (m : NestedMap α β γ) (a : α) :
    ∃ qs : List (β × γ), writes (qs.map fun q => .assign a q.1 q.2) (m.insert a ∅) = m.insert a o ∧
      ∀ q ∈ qs, o.lookup q.1 = some q.2 := by
  induction o using Finmap.induction_on with
  | H s =>
    induction s using AList.insertRec with
    | H0 => exact ⟨[], rfl, by simp⟩
    | IH b c s hb ih =>
      obtain ⟨qs, hrun, hqs⟩ := ih
      refine ⟨qs ++ [(b, c)], ?_, ?_⟩
      · rw [List.map_append, writes_append, hrun]
        simp [Write.run, assign, Finmap.insert_insert, Finmap.insert_toFinmap]
      · intro q hq
        rw [← Finmap.insert_toFinmap]
        rcases List.mem_append.mp hq with hq | hq
        · have hmem := Finmap.mem_of_lookup_eq_some (hqs q hq)
          have hne : q.1 ≠ b := fun h => hb (Finmap.mem_toFinmap.mp (h ▸ hmem))
          rw [Finmap.lookup_insert_of_ne _ hne, hqs q hq]
        · obtain rfl : q = (b, c) := by simpa using hq
          exact Finmap.lookup_insert _

/-- **Every map of maps is left by the writes of a document in blocks** that names only its keys
and values.

**Proof sketch.** By induction on the outer map, one outer key at a time. Its values are those of a
block of writes, which is put behind the document for the others; its key is new, so the values of
the others stay. -/
theorem exists_blocks (m : NestedMap α β γ) :
    ∃ bs : List (α × List (β × γ)), writes (blockWrites bs) ∅ = m ∧
      ∀ p ∈ bs, p.1 ∈ m ∧ ∀ q ∈ p.2, m.value p.1 q.1 = some q.2 := by
  induction m using Finmap.induction_on with
  | H s =>
    induction s using AList.insertRec with
    | H0 => exact ⟨[], rfl, by simp⟩
    | IH a o s ha ih =>
      obtain ⟨bs, hrun, hbs⟩ := ih
      obtain ⟨qs, hblock, hqs⟩ := exists_block o s.toFinmap a
      have hfresh : a ∉ s.toFinmap := fun h => ha (Finmap.mem_toFinmap.mp h)
      refine ⟨bs ++ [(a, qs)], ?_, ?_⟩
      · have happend : blockWrites (bs ++ [(a, qs)]) = blockWrites bs ++ blockWrites [(a, qs)] :=
          List.flatMap_append
        rw [happend, writes_append, hrun, blockWrites, List.flatMap_singleton,
          writes_cons, Write.run, enter, if_neg hfresh, hblock, Finmap.insert_toFinmap]
      · intro p hp
        rw [← Finmap.insert_toFinmap]
        rcases List.mem_append.mp hp with hp | hp
        · have hne : p.1 ≠ a := fun h => hfresh (h ▸ (hbs p hp).1)
          refine ⟨Finmap.mem_insert.mpr (.inr (hbs p hp).1), fun q hq => ?_⟩
          rw [value, Finmap.lookup_insert_of_ne _ hne]
          exact (hbs p hp).2 q hq
        · obtain rfl : p = (a, qs) := by simpa using hp
          refine ⟨Finmap.mem_insert.mpr (.inl rfl), fun q hq => ?_⟩
          simpa [value, Finmap.lookup_insert] using hqs q hq

end NestedMap
