import Mathlib.Logic.Function.Basic
import HkuUtils.Custody
import HkuUtils.History
import HkuUtils.LruCache.Model

set_option relaxedAutoImplicit false
set_option autoImplicit false

/-!
# The LRU cache refines a bounded map

The list orders the keys, the map holds iterators into the list, and both are changed together by
each function. What a caller sees of this is a map that forgets its least recently used keys: the
order is a matter of the list alone, and a lookup changes marks only.

## Main definitions

* `HkuUtils.LruCache.Agrees`, `WellFormed` — the list and the map have the same keys, and the
  iterators point where they should.
* `HkuUtils.LruCache.history` — the insertions, removals and evictions of a list of calls.
* `HkuUtils.LruCache.Refines` — the joint invariant: well-formed, bounded, and with the values
  that the history says.
* `HkuUtils.LruCache.pruned` — the cache that a call prunes.

## Main results

* `HkuUtils.LruCache.pruneLoop_spec`, `insert_spec`, `remove_spec` — what the functions do.
* `HkuUtils.LruCache.step_refines`, `runFrom_refines` — one call and a run keep the invariant.
* `HkuUtils.LruCache.evicts` — when a key is lost.
* `HkuUtils.LruCache.cache_refines_map` — what holds after every run.
-/

namespace HkuUtils.LruCache

open Transition History Custody

variable {K V : Type} [DecidableEq K] {s t : State K V}

/-! ## The list and the map agree -/

/-- The keys of the map are those of the list, and each iterator points at the node of its key. -/
structure Agrees (l : List (Node K)) (m : AList fun _ : K => Entry V) : Prop where
  keys : (l.map (·.key)).Perm m.keys
  addrs : (l.map (·.addr)).Nodup
  points : ∀ k e, m.lookup k = some e → ⟨e.iter, k⟩ ∈ l

namespace Agrees

variable {l l' : List (Node K)} {m : AList fun _ : K => Entry V} {n : Node K} {k : K} {e : Entry V}

/-- An empty list and an empty map. -/
lemma empty : Agrees ([] : List (Node K)) (∅ : AList fun _ : K => Entry V) :=
  ⟨by simp, by simp, by simp⟩

/-- The order of the list does not matter. -/
lemma perm (h : Agrees l m) (hl : l'.Perm l) : Agrees l' m :=
  ⟨(hl.map _).trans h.keys, ((hl.map _).nodup_iff).mpr h.addrs,
    fun k e he => hl.mem_iff.mpr (h.points k e he)⟩

/-- The keys of the list are distinct. -/
lemma keys_nodup (h : Agrees l m) : (l.map (·.key)).Nodup := h.keys.nodup_iff.mpr m.keys_nodup

/-- The map has as many keys as the list has nodes. -/
lemma length_eq (h : Agrees l m) : m.entries.length = l.length := by
  have := h.keys.length_eq
  simpa [AList.keys, List.keys] using this.symm

/-- A key of the list is a key of the map. -/
lemma mem_iff (h : Agrees l m) : k ∈ l.map (·.key) ↔ (m.lookup k).isSome = true := by
  rw [h.keys.mem_iff, ← AList.mem_keys, AList.lookup_isSome]

/-- A node is found by its address. -/
lemma find_addr (h : Agrees l m) (hn : n ∈ l) : l.find? (·.addr = n.addr) = some n := by
  obtain ⟨n', hn'⟩ : ∃ n', l.find? (·.addr = n.addr) = some n' := by
    rw [← Option.isSome_iff_exists, List.find?_isSome]
    exact ⟨n, hn, by simp⟩
  have haddr : n'.addr = n.addr := by simpa using List.find?_some hn'
  have hnode : n' = n :=
    List.inj_on_of_nodup_map h.addrs (List.mem_of_find?_eq_some hn') hn haddr
  rw [hn', hnode]

/-- The node of a key is the one that its iterator points at. -/
lemma find_iter (h : Agrees l m) (he : m.lookup k = some e) :
    l.find? (·.addr = e.iter) = some ⟨e.iter, k⟩ := h.find_addr (h.points k e he)

/-- The entry of a key is written and its iterator kept. -/
lemma store (h : Agrees l m) (he : m.lookup k = some e) (value : V) (dirty : Bool) :
    Agrees l (m.insert k ⟨e.iter, value, dirty⟩) := by
  have hmem : k ∈ m.keys := by
    rw [← AList.mem_keys, ← AList.lookup_isSome, he]
    rfl
  refine ⟨?_, h.addrs, fun k' e' he' => ?_⟩
  · rw [AList.keys_insert]
    exact h.keys.trans (List.perm_cons_erase hmem)
  · by_cases hk : k' = k
    · subst hk
      rw [AList.lookup_insert] at he'
      obtain rfl := Option.some.inj he'
      exact h.points k' e he
    · rw [AList.lookup_insert_ne hk] at he'
      exact h.points k' e' he'

/-- A node and the entry of its key are new. -/
lemma cons (h : Agrees l m) (hk : m.lookup k = none) {addr : ℕ} (ha : addr ∉ l.map (·.addr))
    (value : V) (dirty : Bool) :
    Agrees (⟨addr, k⟩ :: l) (m.insert k ⟨addr, value, dirty⟩) := by
  have hmem : k ∉ m.keys := by
    rw [← AList.mem_keys, ← AList.lookup_isSome, hk]
    simp
  refine ⟨?_, List.nodup_cons.mpr ⟨ha, h.addrs⟩, fun k' e' he' => ?_⟩
  · rw [AList.keys_insert, List.erase_of_not_mem hmem]
    exact h.keys.cons k
  · by_cases hk : k' = k
    · subst hk
      rw [AList.lookup_insert] at he'
      obtain rfl := Option.some.inj he'
      exact List.mem_cons_self
    · rw [AList.lookup_insert_ne hk] at he'
      exact List.mem_cons_of_mem _ (h.points k' e' he')

/-- A node and the entry of its key are gone. -/
lemma erase (h : Agrees (n :: l) m) : Agrees l (m.erase n.key) := by
  refine ⟨?_, (List.nodup_cons.mp h.addrs).2, fun k' e' he' => ?_⟩
  · rw [AList.keys_erase]
    have := h.keys.erase n.key
    simpa using this
  · have hk : k' ≠ n.key := by
      rintro rfl
      simp at he'
    rw [AList.lookup_erase_ne hk] at he'
    rcases List.mem_cons.mp (h.points k' e' he') with heq | hmem
    · exact absurd (congrArg Node.key heq) hk
    · exact hmem

end Agrees

/-- A well-formed cache: the list and the map agree, and the next address is free. -/
structure WellFormed (s : State K V) : Prop where
  agrees : Agrees s.lruList s.cache
  fresh : ∀ n ∈ s.lruList, n.addr < s.nextAddr

/-- What a cache holds for a key. -/
def State.find (s : State K V) (key : K) : Option V := (s.cache.lookup key).map (·.value)

/-- The keys of a cache, the front first. -/
def State.keys (s : State K V) : List K := s.lruList.map (·.key)

/-- Steps that reorder the list and keep the values. -/
structure Reorders (s t : State K V) : Prop where
  wellFormed : WellFormed t
  perm : t.lruList.Perm s.lruList
  find_eq : t.find = s.find
  capacity_eq : t.capacity = s.capacity
  overflow_eq : t.overflow = s.overflow

namespace WellFormed

/-- A splice reorders the list. -/
lemma spliceToFront (h : WellFormed s) (iter : ℕ) : Reorders s (s.spliceToFront iter) := by
  unfold State.spliceToFront
  split
  · next n hn =>
    have hperm : (n :: s.lruList.eraseP (·.addr = iter)).Perm s.lruList :=
      (perm_cons_eraseP hn).symm
    exact ⟨⟨h.agrees.perm hperm, fun n' hn' => h.fresh n' (hperm.mem_iff.mp hn')⟩, hperm, rfl,
      rfl, rfl⟩
  · exact ⟨h, .refl _, rfl, rfl, rfl⟩

/-- The mark of an entry is written. -/
lemma mark (h : WellFormed s) {k : K} {e : Entry V} (he : s.cache.lookup k = some e)
    (dirty : Bool) : Reorders s (s.store k { e with dirty := dirty }) := by
  refine ⟨⟨h.agrees.store he e.value dirty, h.fresh⟩, .refl _, ?_, rfl, rfl⟩
  funext k'
  by_cases hk : k' = k
  · subst hk
    simp [State.find, State.store, he]
  · simp [State.find, State.store, AList.lookup_insert_ne hk]

end WellFormed

/-- A reordered cache has the same keys. -/
lemma Reorders.keys_perm (h : Reorders s t) : t.keys.Perm s.keys := h.perm.map _

/-- One reordering after another. -/
lemma Reorders.trans {u : State K V} (h : Reorders s t) (h' : Reorders t u) : Reorders s u :=
  ⟨h'.wellFormed, h'.perm.trans h.perm, h'.find_eq.trans h.find_eq,
    h'.capacity_eq.trans h.capacity_eq, h'.overflow_eq.trans h.overflow_eq⟩

/-- `_batch_update_dirty_nodes` reorders the list. -/
lemma batchUpdateDirtyNodes_reorders (h : WellFormed s) :
    Reorders s (batchUpdateDirtyNodes s) := by
  unfold batchUpdateDirtyNodes
  split
  · exact ⟨h, .refl _, rfl, rfl, rfl⟩
  · split
    · exact ⟨h, .refl _, rfl, rfl, rfl⟩
    · next e he =>
      have hmark := h.mark he false
      exact hmark.trans (hmark.wellFormed.spliceToFront _)

/-! ## Pruning -/

/-- The loop keeps `capacity` nodes, and removes the entries of the others.

**Proof sketch.** By induction on the list. While there are too many entries, the node in front
goes with its entry; then the loop stops. -/
lemma pruneLoop_spec {l : List (Node K)} {m : AList fun _ : K => Entry V} (capacity : ℕ)
    (h : Agrees l m) :
    (pruneLoop capacity l m).1 = l.drop (l.length - capacity) ∧
      Agrees (pruneLoop capacity l m).1 (pruneLoop capacity l m).2 ∧
      ∀ k, (pruneLoop capacity l m).2.lookup k =
        if k ∈ (l.drop (l.length - capacity)).map (·.key) then m.lookup k else none := by
  induction l generalizing m with
  | nil =>
    refine ⟨by simp [pruneLoop], h, fun k => ?_⟩
    have hk : ¬ (m.lookup k).isSome = true := by
      rw [← h.mem_iff]
      simp
    simpa [pruneLoop] using hk
  | cons n rest ih =>
    have hlen := h.length_eq
    rw [List.length_cons] at hlen
    by_cases hc : capacity < m.entries.length
    · have hdrop : (n :: rest).drop ((n :: rest).length - capacity) =
          rest.drop (rest.length - capacity) := by
        rw [List.length_cons, Nat.sub_add_comm (by omega), List.drop_succ_cons]
      rw [pruneLoop, if_pos hc, hdrop]
      obtain ⟨hlist, hagrees, hlookup⟩ := ih h.erase
      refine ⟨hlist, hagrees, fun k => ?_⟩
      rw [hlookup k]
      split
      · next hk =>
        have hne : k ≠ n.key := by
          rintro rfl
          have hnot := (List.nodup_cons.mp h.keys_nodup).1
          exact hnot (List.map_subset _ (List.drop_subset _ _) hk)
        rw [AList.lookup_erase_ne hne]
      · rfl
    · have hdrop : (n :: rest).drop ((n :: rest).length - capacity) = n :: rest := by
        rw [List.length_cons, show rest.length + 1 - capacity = 0 by omega, List.drop_zero]
      rw [pruneLoop, if_neg hc, hdrop]
      refine ⟨rfl, h, fun k => ?_⟩
      split
      · rfl
      · next hk =>
        rw [h.mem_iff] at hk
        simpa using hk

/-- The size exceeds `m_capacity + m_overflow`, and `_prune_if_needed` runs its loop. -/
def State.overfull (s : State K V) : Prop := s.capacity ≠ 0 ∧ s.maxAllowed.toNat < s.size

/-- What `_prune_if_needed` makes of `s`: the first nodes stay, as many as the capacity allows. -/
structure Prunes (s t : State K V) : Prop where
  wellFormed : WellFormed t
  list_eq : t.lruList = s.lruList.take s.capacity.toNat
  find_eq : ∀ k, t.find k = if k ∈ t.keys then s.find k else none
  capacity_eq : t.capacity = s.capacity
  overflow_eq : t.overflow = s.overflow

/-- `_prune_if_needed` on an overfull cache.

**Proof sketch.** The loop works on the list from its end, so what it keeps is the first `capacity`
nodes. -/
lemma pruneIfNeeded_prunes (h : WellFormed s) (ho : s.overfull) :
    Prunes s (pruneIfNeeded s) := by
  have hcond : ¬ (s.capacity = 0 ∨ s.size ≤ s.maxAllowed.toNat) := by
    rintro (hc | hsize)
    · exact ho.1 hc
    · exact absurd ho.2 (by omega)
  obtain ⟨hlist, hagrees, hlookup⟩ :=
    pruneLoop_spec s.capacity.toNat (h.agrees.perm s.lruList.reverse_perm)
  have htake : (pruneLoop s.capacity.toNat s.lruList.reverse s.cache).1.reverse =
      s.lruList.take s.capacity.toNat := by
    rw [hlist, List.length_reverse, List.drop_reverse, List.reverse_reverse,
      Nat.sub_sub_eq_min, Nat.min_comm, ← List.take_eq_take_min]
  have hlist_eq : (pruneIfNeeded s).lruList = s.lruList.take s.capacity.toNat := by
    rw [pruneIfNeeded, if_neg hcond]
    exact htake
  have hlookup_eq (k : K) : (pruneIfNeeded s).cache.lookup k =
      if k ∈ (pruneIfNeeded s).keys then s.cache.lookup k else none := by
    have hmem : k ∈ (pruneIfNeeded s).keys ↔
        k ∈ (s.lruList.reverse.drop (s.lruList.reverse.length - s.capacity.toNat)).map (·.key) := by
      rw [State.keys, hlist_eq, ← htake, hlist, List.map_reverse, List.mem_reverse]
    simp only [hmem]
    rw [pruneIfNeeded, if_neg hcond]
    exact hlookup k
  refine ⟨⟨?_, ?_⟩, hlist_eq, fun k => ?_, ?_, ?_⟩
  · rw [pruneIfNeeded, if_neg hcond]
    exact hagrees.perm (List.reverse_perm _)
  · intro n hn
    rw [hlist_eq] at hn
    rw [pruneIfNeeded, if_neg hcond]
    exact h.fresh n (List.take_subset _ _ hn)
  · rw [State.find, hlookup_eq]
    split <;> rfl
  · rw [pruneIfNeeded, if_neg hcond]
  · rw [pruneIfNeeded, if_neg hcond]

/-- On any other cache it does nothing. -/
lemma pruneIfNeeded_eq (ho : ¬ s.overfull) : pruneIfNeeded s = s := by
  unfold pruneIfNeeded
  rw [if_pos]
  by_contra hcond
  rw [not_or] at hcond
  exact ho ⟨hcond.1, by omega⟩

/-- `_prune_if_needed` leaves a well-formed cache. -/
lemma pruneIfNeeded_wellFormed (h : WellFormed s) : WellFormed (pruneIfNeeded s) := by
  by_cases ho : s.overfull
  · exact (pruneIfNeeded_prunes h ho).wellFormed
  · rwa [pruneIfNeeded_eq ho]

/-! ## What a cache holds -/

namespace WellFormed

/-- The keys of the list are those that have a value. -/
lemma mem_keys_iff (h : WellFormed s) {k : K} : k ∈ s.keys ↔ (s.find k).isSome = true := by
  rw [State.keys, h.agrees.mem_iff, State.find, Option.isSome_map]

/-- The others have none. -/
lemma find_eq_none (h : WellFormed s) {k : K} (hk : k ∉ s.keys) : s.find k = none := by
  rw [h.mem_keys_iff] at hk
  simpa using hk

/-- The size is the length of the list. -/
lemma size_eq (h : WellFormed s) : s.size = s.lruList.length := h.agrees.length_eq

end WellFormed

/-- `t` holds for the keys that it has what `s` holds. -/
def KeepsValues (s t : State K V) (k : K) : Prop :=
  ∀ k', k' ≠ k → k' ∈ t.keys → t.find k' = s.find k'

/-- A cache with capacity is not larger than that and the overflow together, if these do not wrap
around. -/
def Bounded (s : State K V) : Prop :=
  s.capacity ≠ 0 → s.capacity.toNat + s.overflow.toNat < 2 ^ 64 →
    s.size ≤ s.capacity.toNat + s.overflow.toNat

omit [DecidableEq K] in
/-- A cache of the same limits that is not larger. -/
lemma Bounded.mono (h : Bounded s) (hsize : t.size ≤ s.size) (hcapacity : t.capacity = s.capacity)
    (hoverflow : t.overflow = s.overflow) : Bounded t := by
  intro hc hwrap
  rw [hcapacity] at hc
  rw [hcapacity, hoverflow] at hwrap ⊢
  exact hsize.trans (h hc hwrap)

/-- A pruned cache is bounded. -/
lemma pruneIfNeeded_bounded (h : WellFormed s) : Bounded (pruneIfNeeded s) := by
  by_cases ho : s.overfull
  · have hp := pruneIfNeeded_prunes h ho
    intro _ _
    rw [hp.wellFormed.size_eq, hp.list_eq, hp.capacity_eq, List.length_take]
    omega
  · rw [pruneIfNeeded_eq ho]
    intro hc hwrap
    have hsize : ¬ s.maxAllowed.toNat < s.size := fun hlt => ho ⟨hc, hlt⟩
    rw [State.maxAllowed, BitVec.toNat_add, Nat.mod_eq_of_lt hwrap] at hsize
    omega

/-- Pruning keeps values. -/
lemma pruneIfNeeded_find (h : WellFormed s) {k : K} (hk : k ∈ (pruneIfNeeded s).keys) :
    (pruneIfNeeded s).find k = s.find k := by
  by_cases ho : s.overfull
  · rw [(pruneIfNeeded_prunes h ho).find_eq, if_pos hk]
  · rw [pruneIfNeeded_eq ho]

/-- What pruning removes makes the cache exactly as large as its capacity. -/
lemma pruneIfNeeded_size (h : WellFormed s) {k : K} (hk : k ∈ s.keys)
    (hgone : k ∉ (pruneIfNeeded s).keys) :
    s.overfull ∧ (pruneIfNeeded s).size = s.capacity.toNat := by
  by_cases ho : s.overfull
  · have hp := pruneIfNeeded_prunes h ho
    refine ⟨ho, ?_⟩
    rw [hp.wellFormed.size_eq, hp.list_eq, List.length_take]
    by_contra hne
    have hall : s.lruList.take s.capacity.toNat = s.lruList := List.take_of_length_le (by omega)
    rw [State.keys, hp.list_eq, hall] at hgone
    exact hgone hk
  · rw [pruneIfNeeded_eq ho] at hgone
    exact absurd hk hgone

/-! ## The functions -/

/-- A new key and its value. -/
lemma WellFormed.emplace (h : WellFormed s) {key : K} (hk : s.cache.lookup key = none)
    (value : V) : WellFormed (s.emplace key value) := by
  refine ⟨h.agrees.cons hk (fun hmem => ?_) value false, fun n hn => ?_⟩
  · obtain ⟨n, hn, haddr⟩ := List.mem_map.mp hmem
    have := h.fresh n hn
    omega
  · rcases List.mem_cons.mp hn with rfl | hn
    · exact Nat.lt_succ_self _
    · exact (h.fresh n hn).trans (Nat.lt_succ_self _)

/-- What a cache with a new key holds. -/
lemma find_emplace (s : State K V) (key k : K) (value : V) :
    (s.emplace key value).find k = if k = key then some value else s.find k := by
  split
  · next hk =>
    subst hk
    simp [State.find, State.emplace]
  · next hk => simp [State.find, State.emplace, AList.lookup_insert_ne hk]

/-- A key that has just come to the front is not pruned. -/
lemma mem_keys_prune_emplace (h : WellFormed s) {key : K} (hk : s.cache.lookup key = none)
    (value : V) : key ∈ (pruneIfNeeded (s.emplace key value)).keys := by
  by_cases ho : (s.emplace key value).overfull
  · have hpos : 0 < s.capacity.toNat := by
      have : s.capacity ≠ 0 := ho.1
      bv_omega
    rw [State.keys, (pruneIfNeeded_prunes (h.emplace hk value) ho).list_eq]
    obtain ⟨c, hc⟩ : ∃ c, s.capacity.toNat = c + 1 := ⟨s.capacity.toNat - 1, by omega⟩
    have hcap : (s.emplace key value).capacity.toNat = c + 1 := hc
    rw [hcap]
    simp [State.emplace]
  · rw [pruneIfNeeded_eq ho]
    simp [State.keys, State.emplace]

/-- The value of a key is replaced. -/
lemma replace_spec (h : WellFormed s) {key : K} {e : Entry V}
    (he : s.cache.lookup key = some e) (value : V) :
    WellFormed (s.store key ⟨e.iter, value, false⟩) ∧
      ∀ k, (s.store key ⟨e.iter, value, false⟩).find k =
        if k = key then some value else s.find k := by
  refine ⟨⟨h.agrees.store he value false, h.fresh⟩, fun k => ?_⟩
  split
  · next hk =>
    subst hk
    simp [State.find, State.store]
  · next hk => simp [State.find, State.store, AList.lookup_insert_ne hk]

/-- What a call of `insert` does. -/
structure Inserts (s t : State K V) (key : K) (value : V) : Prop where
  wellFormed : WellFormed t
  find_key : t.find key = some value
  keeps : KeepsValues s t key
  bounded : Bounded s → Bounded t

/-- **`insert`** puts the value in, and loses keys at most by pruning.

**Proof sketch.** The batch reorders only. If the key is there, its value is replaced and its node
moved to the front; otherwise a new node is put in front, and the cache is pruned if it is overfull
then. -/
theorem insert_spec (h : WellFormed s) (key : K) (value : V) :
    Inserts s (insert s key value) key value := by
  have hb := batchUpdateDirtyNodes_reorders h
  have hwf := hb.wellFormed
  unfold insert
  simp only
  split
  · next e he =>
    obtain ⟨hstore, hfind⟩ := replace_spec hwf he value
    have hsplice := hstore.spliceToFront e.iter
    refine ⟨hsplice.wellFormed, ?_, fun k hk _ => ?_, fun hbound => hbound.mono ?_ ?_ ?_⟩
    · rw [hsplice.find_eq, hfind, if_pos rfl]
    · rw [hsplice.find_eq, hfind, if_neg hk, hb.find_eq]
    · rw [hsplice.wellFormed.size_eq, hsplice.perm.length_eq, h.size_eq, ← hb.perm.length_eq]
      exact le_rfl
    · rw [hsplice.capacity_eq, ← hb.capacity_eq]
      rfl
    · rw [hsplice.overflow_eq, ← hb.overflow_eq]
      rfl
  · next hnone =>
    have hemplace := hwf.emplace hnone value
    have hmem := mem_keys_prune_emplace hwf hnone value
    refine ⟨pruneIfNeeded_wellFormed hemplace, ?_, fun k hk hkt => ?_,
      fun _ => pruneIfNeeded_bounded hemplace⟩
    · rw [pruneIfNeeded_find hemplace hmem, find_emplace, if_pos rfl]
    · rw [pruneIfNeeded_find hemplace hkt, find_emplace, if_neg hk, hb.find_eq]

/-- **`remove`** takes the key out.

**Proof sketch.** If the key is there, its node and its entry go together; otherwise nothing
happens. -/
theorem remove_spec (h : WellFormed s) (key : K) :
    WellFormed (remove s key).2 ∧ (remove s key).2.find key = none ∧
      (∀ k, k ≠ key → (remove s key).2.find k = s.find k) ∧
      (Bounded s → Bounded (remove s key).2) := by
  unfold remove
  split
  · next e he =>
    have hfind := h.agrees.find_iter he
    have hperm : s.lruList.Perm (⟨e.iter, key⟩ :: s.lruList.eraseP (·.addr = e.iter)) :=
      perm_cons_eraseP hfind
    have hagrees : Agrees (s.lruList.eraseP (·.addr = e.iter)) (s.cache.erase key) :=
      (h.agrees.perm hperm.symm).erase
    refine ⟨⟨hagrees, fun n hn => h.fresh n (List.mem_of_mem_eraseP hn)⟩, ?_, fun k hk => ?_,
      fun hbound => hbound.mono ?_ rfl rfl⟩
    · simp [State.find]
    · simp [State.find, AList.lookup_erase_ne hk]
    · have h₁ : (s.cache.erase key).entries.length = _ := hagrees.length_eq
      have h₂ := hperm.length_eq
      rw [List.length_cons] at h₂
      rw [h.size_eq]
      simp only [State.size]
      omega
  · next he => exact ⟨h, by simp [State.find, he], fun _ _ => rfl, id⟩

/-- A lookup of a key marks its entry. -/
lemma get_reorders [Inhabited V] (h : WellFormed s) (key : K) : Reorders s (get s key).2 := by
  unfold get
  split
  · next e he => exact h.mark he true
  · exact ⟨h, .refl _, rfl, rfl, rfl⟩

/-- So does `tryGet`. -/
lemma tryGet_reorders (h : WellFormed s) (key : K) (value : V) :
    Reorders s (tryGet s key value).2.2 := by
  unfold tryGet
  split
  · next e he => exact h.mark he true
  · exact ⟨h, .refl _, rfl, rfl, rfl⟩

/-! ## The history of a cache -/

/-- The keys of `s` that are not in `t`. -/
def vanished (s t : State K V) : List K := s.keys.filter (· ∉ t.keys)

/-- What an event changes in `s`, the last change first. A key that vanishes in a call that does
not remove it was evicted. -/
def changes [Inhabited V] (s : State K V) (e : Event K V) : List (Change K V) :=
  match e with
  | .insert key value | .insertMove key value =>
    (vanished s (apply s e)).map .evicted ++ [.inserted key value]
  | .remove key => [.removed key]
  | .clear => [.cleared]
  | .resize _ | .setOverflow _ => (vanished s (apply s e)).map .evicted
  | .get _ | .tryGet _ _ | .contains _ => []

/-- The changes of a list of calls, the last change first. -/
def history [Inhabited V] (s : State K V) : List (Event K V) → List (Change K V)
  | [] => []
  | e :: es => history (apply s e) es ++ changes s e

/-- The cache is well-formed and bounded, and holds what the history says. -/
structure Refines (h : List (Change K V)) (s : State K V) : Prop where
  wellFormed : WellFormed s
  bounded : Bounded s
  represents : Represents h s.find

namespace Refines

variable {h : List (Change K V)}

/-- What vanishes has no value, and what does not vanish keeps the one of `m`. -/
lemma evicted {m : K → Option V} (hm : Represents h m) (ht : WellFormed t)
    (hmem : ∀ k ∈ t.keys, t.find k = m k) (hnot : ∀ k, k ∉ t.keys → k ∉ s.keys → m k = none) :
    Represents ((vanished s t).map .evicted ++ h) t.find := by
  refine hm.evict (fun k hk => ht.find_eq_none ?_) fun k hk => ?_
  · simpa using (List.mem_filter.mp hk).2
  · by_cases hkt : k ∈ t.keys
    · exact hmem k hkt
    · have hks : k ∉ s.keys := fun hks => hk (List.mem_filter.mpr ⟨hks, by simpa using hkt⟩)
      rw [ht.find_eq_none hkt, hnot k hkt hks]

/-- A call of `insert`. -/
lemma inserts (hs : Refines h s) {key : K} {value : V} (hi : Inserts s t key value) :
    Refines ((vanished s t).map .evicted ++ .inserted key value :: h) t := by
  have hmem : key ∈ t.keys := by
    rw [hi.wellFormed.mem_keys_iff, hi.find_key]
    rfl
  have hput : Represents (.inserted key value :: h) (Function.update s.find key (some value)) :=
    hs.represents.insert (by simp) fun k hk => by simp [hk]
  refine ⟨hi.wellFormed, hi.bounded hs.bounded,
    evicted hput hi.wellFormed (fun k hk => ?_) fun k hkt hks => ?_⟩
  · by_cases hkey : k = key
    · rw [hkey, hi.find_key, Function.update_self]
    · rw [Function.update_of_ne hkey, hi.keeps k hkey hk]
  · have hkey : k ≠ key := fun heq => hkt (by rwa [heq])
    rw [Function.update_of_ne hkey, hs.wellFormed.find_eq_none hks]

/-- A cache with other limits is pruned. The keys that vanish are recorded as evicted, and the
others keep their values. -/
lemma prunes (hs : Refines h s) {b : State K V} (hlist : b.lruList = s.lruList)
    (hcache : b.cache = s.cache) (haddr : b.nextAddr = s.nextAddr) :
    Refines ((vanished s (pruneIfNeeded b)).map .evicted ++ h) (pruneIfNeeded b) := by
  have hb : WellFormed b := by
    refine ⟨?_, ?_⟩
    · rw [hlist, hcache]
      exact hs.wellFormed.agrees
    · rw [hlist, haddr]
      exact hs.wellFormed.fresh
  have hfind : b.find = s.find := by
    funext k
    rw [State.find, hcache]
    rfl
  refine ⟨pruneIfNeeded_wellFormed hb, pruneIfNeeded_bounded hb,
    evicted hs.represents (pruneIfNeeded_wellFormed hb) (fun k hk => ?_)
      fun k _ hks => hs.wellFormed.find_eq_none hks⟩
  rw [pruneIfNeeded_find hb hk, hfind]

/-- The list is reordered. -/
lemma reorders (hs : Refines h s) (hr : Reorders s t) : Refines h t := by
  refine ⟨hr.wellFormed, hs.bounded.mono ?_ hr.capacity_eq hr.overflow_eq, ?_⟩
  · rw [hr.wellFormed.size_eq, hs.wellFormed.size_eq, hr.perm.length_eq]
  · rw [hr.find_eq]
    exact hs.represents

end Refines

/-- **One call keeps the refinement**, with the changes that it makes.

**Proof sketch.** One case for each function, with its specification. Reads only reorder the list;
a change of the limits prunes it. -/
theorem step_refines [Inhabited V] {h : List (Change K V)} (hs : Refines h s) (e : Event K V) :
    Refines (changes s e ++ h) (apply s e) := by
  cases e with
  | insert key value | insertMove key value =>
    simp only [changes, List.append_assoc, List.singleton_append]
    exact hs.inserts (insert_spec hs.wellFormed key value)
  | get key => exact hs.reorders (get_reorders hs.wellFormed key)
  | tryGet key value => exact hs.reorders (tryGet_reorders hs.wellFormed key value)
  | contains key => exact hs
  | remove key =>
    obtain ⟨hwf, hkey, hne, hbound⟩ := remove_spec hs.wellFormed key
    exact ⟨hwf, hbound hs.bounded, hs.represents.remove hkey hne⟩
  | clear =>
    refine ⟨⟨.empty, by simp [apply, clear]⟩, fun _ _ => Nat.zero_le _, .clear fun k => ?_⟩
    simp [State.find, apply, clear]
  | resize capacity => exact hs.prunes rfl rfl rfl
  | setOverflow overflow => exact hs.prunes rfl rfl rfl

/-- **So do several calls.** -/
theorem runFrom_refines [Inhabited V] {capacity overflow : BitVec 64} {h : List (Change K V)}
    (hs : Refines h s) {es : List (Event K V)}
    (hrun : (system capacity overflow).runFrom s es = some t) :
    Refines (history s es ++ h) t := by
  induction es generalizing s h with
  | nil =>
    obtain rfl : s = t := by simpa using hrun
    exact hs
  | cons e es ih =>
    rw [history, List.append_assoc]
    exact ih (step_refines hs e) hrun

/-- A new cache is empty. -/
lemma init_refines (capacity overflow : BitVec 64) :
    Refines [] (State.init capacity overflow : State K V) :=
  ⟨⟨.empty, by simp [State.init]⟩, fun _ _ => Nat.zero_le _, fun k => by
    simp [State.find, State.init, latest]⟩

/-! ## Evictions -/

/-- The cache that a call of `apply s e` prunes at its end, if it prunes one. -/
def pruned (s : State K V) : Event K V → Option (State K V)
  | .insert key value | .insertMove key value =>
    if (batchUpdateDirtyNodes s).cache.lookup key = none then
      some ((batchUpdateDirtyNodes s).emplace key value)
    else none
  | .resize capacity => some { s with capacity := capacity }
  | .setOverflow overflow => some { s with overflow := overflow }
  | .get _ | .tryGet _ _ | .contains _ | .remove _ | .clear => none

/-- A call of `insert` with a new key prunes a cache that has all the keys there were. -/
lemma insert_of_pruned (h : WellFormed s) {key : K} {value : V} {b : State K V}
    (hb : pruned s (.insert key value) = some b) :
    insert s key value = pruneIfNeeded b ∧ WellFormed b ∧ s.keys ⊆ b.keys := by
  have hr := batchUpdateDirtyNodes_reorders h
  simp only [pruned] at hb
  split at hb
  · next hnone =>
    obtain rfl := Option.some.inj hb
    refine ⟨by simp [insert, hnone], hr.wellFormed.emplace hnone value, fun k hk => ?_⟩
    exact List.mem_cons_of_mem _ (hr.keys_perm.mem_iff.mpr hk)
  · simp at hb

/-- Any other call of `insert` loses no key. -/
lemma insert_of_not_pruned (h : WellFormed s) {key : K} {value : V}
    (hb : pruned s (.insert key value) = none) : (insert s key value).keys.Perm s.keys := by
  have hr := batchUpdateDirtyNodes_reorders h
  simp only [pruned, ite_eq_right_iff, reduceCtorEq, imp_false] at hb
  obtain ⟨e, he⟩ := Option.ne_none_iff_exists'.mp hb
  have hsplice := (replace_spec hr.wellFormed he value).1.spliceToFront e.iter
  have hinsert : insert s key value =
      ((batchUpdateDirtyNodes s).store key ⟨e.iter, value, false⟩).spliceToFront e.iter := by
    simp [insert, he]
  rw [hinsert]
  exact hsplice.keys_perm.trans hr.keys_perm

/-- A call that prunes a cache ends with that. -/
lemma apply_of_pruned [Inhabited V] (h : WellFormed s) {e : Event K V} {b : State K V}
    (hb : pruned s e = some b) :
    apply s e = pruneIfNeeded b ∧ WellFormed b ∧ s.keys ⊆ b.keys := by
  cases e with
  | insert key value | insertMove key value => exact insert_of_pruned h hb
  | resize capacity | setOverflow overflow =>
    obtain rfl := Option.some.inj hb
    exact ⟨rfl, ⟨h.agrees, h.fresh⟩, fun _ hk => hk⟩
  | get | tryGet | contains | remove | clear => simp [pruned] at hb

/-- A call that neither prunes nor removes loses no key. -/
lemma keys_of_not_pruned [Inhabited V] (h : WellFormed s) {e : Event K V}
    (hb : pruned s e = none) {k : K} (hk : k ∈ s.keys) (hgone : k ∉ (apply s e).keys) :
    e = .remove k ∨ e = .clear := by
  cases e with
  | insert key value | insertMove key value =>
    exact absurd ((insert_of_not_pruned h hb).mem_iff.mpr hk) hgone
  | get key => exact absurd ((get_reorders h key).keys_perm.mem_iff.mpr hk) hgone
  | tryGet key value => exact absurd ((tryGet_reorders h key value).keys_perm.mem_iff.mpr hk) hgone
  | contains key => exact absurd hk hgone
  | remove key =>
    obtain ⟨hwf, _, hne, _⟩ := remove_spec h key
    by_cases hkey : k = key
    · exact Or.inl (by rw [hkey])
    · have hsome : ((remove s key).2.find k).isSome = true := by
        rw [hne k hkey]
        exact h.mem_keys_iff.mp hk
      exact absurd (hwf.mem_keys_iff.mpr hsome) hgone
  | clear => exact Or.inr rfl
  | resize | setOverflow => simp [pruned] at hb

/-- **A key is lost** when it is removed, when the cache is cleared, or when the cache has grown
beyond capacity and overflow, and then the cache is exactly as large as its capacity. -/
theorem evicts [Inhabited V] (h : WellFormed s) {e : Event K V} {k : K} (hk : k ∈ s.keys)
    (hgone : k ∉ (apply s e).keys) :
    e = .remove k ∨ e = .clear ∨ ∃ b, pruned s e = some b ∧ b.overfull ∧
      (apply s e).size = b.capacity.toNat ∧
      (b.capacity.toNat + b.overflow.toNat < 2 ^ 64 →
        b.capacity.toNat + b.overflow.toNat < b.size) := by
  cases hb : pruned s e with
  | none => exact (keys_of_not_pruned h hb hk hgone).imp id Or.inl
  | some b =>
    obtain ⟨happly, hwf, hsub⟩ := apply_of_pruned h hb
    rw [happly] at hgone ⊢
    obtain ⟨ho, hsize⟩ := pruneIfNeeded_size hwf (hsub hk) hgone
    refine Or.inr (Or.inr ⟨b, rfl, ho, hsize, fun hwrap => ?_⟩)
    have := ho.2
    rwa [State.maxAllowed, BitVec.toNat_add, Nat.mod_eq_of_lt hwrap] at this

/-! ## What the callers see -/

/-- `get` returns the value that the cache holds, or a new one. -/
lemma get_value [Inhabited V] (s : State K V) (key : K) :
    (get s key).1 = (s.find key).getD default := by
  unfold get State.find
  split
  · next e he => simp [he]
  · next he => simp [he]

/-- `tryGet` returns it through its argument, or leaves that as it is. -/
lemma tryGet_value (s : State K V) (key : K) (value : V) :
    ((tryGet s key value).1, (tryGet s key value).2.1) =
      ((s.find key).isSome, (s.find key).getD value) := by
  unfold tryGet State.find
  split
  · next e he => simp [he]
  · next he => simp [he]

/-- `contains` says whether there is one. -/
lemma contains_eq (s : State K V) (key : K) : contains s key = (s.find key).isSome := by
  simp [contains, State.find]

/-- So does `remove`. -/
lemma remove_eq (s : State K V) (key : K) : (remove s key).1 = (s.find key).isSome := by
  unfold remove State.find
  split
  · next e he => simp [he]
  · next he => simp [he]

/-- **The cache refines a bounded map.** After every run from any limits:

* the keys of the map are those of the list, without duplicates, and each iterator points at the
  node of its own key;
* a cache with capacity is at most as large as capacity and overflow together;
* a key that is inserted is there with its value;
* every function reads the value most recently inserted, as the history has it;
* a key is lost only to `remove`, `clear` or pruning, which happens only beyond capacity and
  overflow, cuts the list back from its end and leaves exactly as many keys as the capacity.

**Proof sketch.** `step_refines` and its run lemma keep the joint invariant `Refines`; the rest is
read off it with the specifications of `insert` and of pruning. -/
theorem cache_refines_map [Inhabited V] (capacity overflow : BitVec 64) {es : List (Event K V)}
    (hrun : (system capacity overflow).run es = some s) :
    (s.keys.Nodup ∧ s.keys.Perm s.cache.keys ∧
      ∀ k e, s.cache.lookup k = some e → s.lruList.find? (·.addr = e.iter) = some ⟨e.iter, k⟩) ∧
    (s.capacity ≠ 0 → s.capacity.toNat + s.overflow.toNat < 2 ^ 64 →
      s.size ≤ s.capacity.toNat + s.overflow.toNat) ∧
    (∀ k v, (insert s k v).find k = some v ∧ (insertMove s k v).find k = some v) ∧
    (∀ k v, let last := latest k (history (State.init capacity overflow) es)
      (get s k).1 = last.getD default ∧
      ((tryGet s k v).1, (tryGet s k v).2.1) = (last.isSome, last.getD v) ∧
      contains s k = last.isSome ∧ (remove s k).1 = last.isSome) ∧
    (∀ e k, k ∈ s.keys → k ∉ (apply s e).keys → e = .remove k ∨ e = .clear ∨
      ∃ b, pruned s e = some b ∧ b.overfull ∧ (apply s e).size = b.capacity.toNat ∧
        (b.capacity.toNat + b.overflow.toNat < 2 ^ 64 →
          b.capacity.toNat + b.overflow.toNat < b.size)) ∧
    ∀ e b, pruned s e = some b →
      (b.overfull → (apply s e).lruList = b.lruList.take b.capacity.toNat) ∧
      (¬ b.overfull → apply s e = b) := by
  have href := runFrom_refines (init_refines capacity overflow) hrun
  rw [List.append_nil] at href
  have h := href.wellFormed
  refine ⟨⟨h.agrees.keys_nodup, h.agrees.keys, fun k e he => h.agrees.find_iter he⟩, href.bounded,
    fun k v => ⟨(insert_spec h k v).find_key, (insert_spec h k v).find_key⟩, fun k v => ?_,
    fun e k hk hgone => evicts h hk hgone, fun e b hb => ?_⟩
  · rw [get_value, tryGet_value, contains_eq, remove_eq, href.represents k]
    exact ⟨rfl, rfl, rfl, rfl⟩
  · obtain ⟨happly, hwf, _⟩ := apply_of_pruned h hb
    rw [happly]
    exact ⟨fun ho => (pruneIfNeeded_prunes hwf ho).list_eq, fun ho => pruneIfNeeded_eq ho⟩

/-- A cache with capacity 3 and overflow 2 after six keys. -/
theorem cache_refines_map_overflow : ∃ s : State ℕ ℕ,
    (system 3 2).run
      [.insert 1 10, .insert 2 20, .insert 3 30, .insert 4 40, .insert 5 50, .insert 6 60] =
        some s ∧
    s.keys = [6, 5, 4] ∧ s.keys.Nodup ∧
      ∀ k, (get s k).1 = (latest k (history (State.init 3 2 : State ℕ ℕ)
        [.insert 1 10, .insert 2 20, .insert 3 30, .insert 4 40, .insert 5 50,
          .insert 6 60])).getD 0 := by
  have hrun : (system (K := ℕ) (V := ℕ) 3 2).run
      [.insert 1 10, .insert 2 20, .insert 3 30, .insert 4 40, .insert 5 50, .insert 6 60] =
        some _ := rfl
  have hrefines := cache_refines_map 3 2 hrun
  exact ⟨_, hrun, rfl, hrefines.1.1, fun k => (hrefines.2.2.2.1 k 0).1⟩

end HkuUtils.LruCache
