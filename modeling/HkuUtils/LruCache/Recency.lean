import HkuUtils.LruCache.Refinement

set_option relaxedAutoImplicit false
set_option autoImplicit false

/-!
# Which keys an LRU cache keeps

The list of keys is a record of the calls. As long as nobody reads, it has the keys in the order
of their last insertions, so that pruning keeps the most recent ones. A read leaves a mark, and
the next insertion of a new key moves one marked key to the front before it prunes.

## Main definitions

* `HkuUtils.LruCache.Event.written`, `Event.read` — the key that a call inserts or reads.
* `HkuUtils.LruCache.age` — how many calls ago a key was last inserted.
* `HkuUtils.LruCache.readsSince` — the keys read since the last insertion.
* `HkuUtils.LruCache.Chronological`, `Marked` — what the list and the marks say about the past.

## Main results

* `HkuUtils.LruCache.apply_chronological`, `apply_marked` — one call keeps these.
* `HkuUtils.LruCache.write_keeps_marked` — the only marked key survives the next insertion.
* `HkuUtils.LruCache.evictions_respect_recency` — what an insertion keeps after every run.

## Design

The past is a list of calls with the last call first, as in `History`.
-/

namespace HkuUtils.LruCache

open Transition Custody

variable {K V : Type} [DecidableEq K] {s t : State K V}

/-! ## The past of a cache -/

namespace Event

omit [DecidableEq K]

/-- The key that a call inserts or updates. -/
def written : Event K V → Option K
  | .insert key _ | .insertMove key _ => some key
  | .get _ | .tryGet _ _ | .contains _ | .remove _ | .clear | .resize _ | .setOverflow _ => none

/-- The key that a call reads. -/
def read : Event K V → Option K
  | .get key | .tryGet key _ => some key
  | .insert _ _ | .insertMove _ _ | .contains _ | .remove _ | .clear | .resize _
  | .setOverflow _ => none

end Event

/-- How many calls ago a key was last inserted or updated. -/
def age (past : List (Event K V)) (k : K) : ℕ := (past.map Event.written).idxOf (some k)

/-- The keys that were read since the last insertion or update. -/
def readsSince (past : List (Event K V)) : List K :=
  (past.takeWhile (·.written.isNone)).filterMap Event.read

/-- One call later every key but the one written is older. -/
lemma age_cons (past : List (Event K V)) (e : Event K V) (k : K) :
    age (e :: past) k = if e.written = some k then 0 else age past k + 1 := by
  rw [age, List.map_cons, List.idxOf_cons, age]
  split
  · next h => simp [h]
  · next h => rw [beq_false_of_ne h, cond_false]

omit [DecidableEq K] in
/-- The reads after a call. -/
lemma mem_readsSince_cons {past : List (Event K V)} {e : Event K V} {k : K} :
    k ∈ readsSince (e :: past) ↔ e.written = none ∧ (e.read = some k ∨ k ∈ readsSince past) := by
  unfold readsSince
  cases e <;> simp [Event.written, Event.read, eq_comm]

/-- A call that writes a key is a call of `insert`. -/
lemma apply_of_written [Inhabited V] {e : Event K V} {key : K} (he : e.written = some key)
    (s : State K V) : ∃ value, apply s e = insert s key value := by
  cases e with
  | insert key' value | insertMove key' value =>
    obtain rfl := Option.some.inj he
    exact ⟨value, rfl⟩
  | get | tryGet | contains | remove | clear | resize | setOverflow => simp [Event.written] at he

/-- Every call leaves a well-formed cache. -/
lemma apply_wellFormed [Inhabited V] (h : WellFormed s) (e : Event K V) :
    WellFormed (apply s e) := by
  cases e with
  | insert key value | insertMove key value => exact (insert_spec h key value).wellFormed
  | get key => exact (get_reorders h key).wellFormed
  | tryGet key value => exact (tryGet_reorders h key value).wellFormed
  | contains key => exact h
  | remove key => exact (remove_spec h key).1
  | clear => exact ⟨.empty, by simp [apply, clear]⟩
  | resize capacity | setOverflow overflow => exact pruneIfNeeded_wellFormed ⟨h.agrees, h.fresh⟩

/-- Pruning leaves a part of the list. -/
lemma pruneIfNeeded_keys_sublist (h : WellFormed s) : (pruneIfNeeded s).keys.Sublist s.keys := by
  by_cases ho : s.overfull
  · rw [State.keys, (pruneIfNeeded_prunes h ho).list_eq]
    exact (List.take_sublist _ _).map _
  · rw [pruneIfNeeded_eq ho]

/-- Pruning changes no entry that it leaves. -/
lemma lookup_of_pruneIfNeeded (h : WellFormed s) {k : K} {x : Entry V}
    (hx : (pruneIfNeeded s).cache.lookup k = some x) : s.cache.lookup k = some x := by
  unfold pruneIfNeeded at hx
  split at hx
  · exact hx
  · obtain ⟨-, -, hlookup⟩ :=
      pruneLoop_spec s.capacity.toNat (h.agrees.perm s.lruList.reverse_perm)
    simp only [hlookup k] at hx
    split at hx
    · exact hx
    · simp at hx

/-- Where an entry comes from that a call leaves: `insert` apart, a call adds no entry, and marks
the one that it reads.

**Proof sketch.** One case for each call. `get` and `tryGet` store the entry that they find with
its mark, and the other calls change no entry or remove some. -/
lemma lookup_of_apply [Inhabited V] (h : WellFormed s) {e : Event K V} (he : e.written = none)
    {k : K} {x : Entry V} (hx : (apply s e).cache.lookup k = some x) :
    ∃ y, s.cache.lookup k = some y ∧ x.dirty = (y.dirty || decide (e.read = some k)) := by
  cases e with
  | insert | insertMove => simp [Event.written] at he
  | get key | tryGet key value =>
    cases hkey : s.cache.lookup key with
    | none =>
      simp only [apply, get, tryGet, hkey] at hx
      have hk : key ≠ k := by
        rintro rfl
        simp [hkey] at hx
      exact ⟨x, hx, by simp [Event.read, hk]⟩
    | some y =>
      simp only [apply, get, tryGet, hkey, State.store] at hx
      by_cases hk : k = key
      · subst hk
        rw [AList.lookup_insert] at hx
        obtain rfl := Option.some.inj hx
        exact ⟨y, hkey, by simp [Event.read]⟩
      · rw [AList.lookup_insert_ne hk] at hx
        exact ⟨x, hx, by simp [Event.read, Ne.symm hk]⟩
  | contains key => exact ⟨x, hx, by simp [Event.read]⟩
  | remove key =>
    refine ⟨x, ?_, by simp [Event.read]⟩
    cases hkey : s.cache.lookup key with
    | none => simpa only [apply, remove, hkey] using hx
    | some y =>
      simp only [apply, remove, hkey] at hx
      have hk : k ≠ key := by
        rintro rfl
        simp at hx
      rwa [AList.lookup_erase_ne hk] at hx
  | clear => simp [apply, clear] at hx
  | resize capacity =>
    have hb : WellFormed { s with capacity := capacity } := ⟨h.agrees, h.fresh⟩
    exact ⟨x, lookup_of_pruneIfNeeded hb hx, by simp [Event.read]⟩
  | setOverflow overflow =>
    have hb : WellFormed { s with overflow := overflow } := ⟨h.agrees, h.fresh⟩
    exact ⟨x, lookup_of_pruneIfNeeded hb hx, by simp [Event.read]⟩

/-! ## The order of the list -/

/-- The list has the keys in the order of their last insertions, and nothing is marked. -/
structure Chronological (past : List (Event K V)) (s : State K V) : Prop where
  wellFormed : WellFormed s
  sorted : s.keys.Pairwise fun a b => age past a < age past b
  clean : ∀ k e, s.cache.lookup k = some e → e.dirty = false

/-- Without marks there is nothing to update. -/
lemma batchUpdateDirtyNodes_eq (hclean : ∀ k e, s.cache.lookup k = some e → e.dirty = false) :
    batchUpdateDirtyNodes s = s := by
  have hnone : (s.lruList.reverse.find? fun n => (s.cache.lookup n.key).any (·.dirty)) = none := by
    rw [List.find?_eq_none]
    intro n _ hn
    obtain ⟨e, he, hdirty⟩ := (Option.any_eq_true _ _).mp hn
    rw [hclean n.key e he] at hdirty
    exact Bool.false_ne_true hdirty
  unfold batchUpdateDirtyNodes
  rw [hnone]

/-- The list after an insertion into a cache without marks: the key is in front, and what follows
is a part of the list before.

**Proof sketch.** Without marks the batch does nothing. A key that is there is moved to the front,
and a new one is put there and the cache pruned. -/
lemma insert_of_clean (h : WellFormed s)
    (hclean : ∀ k e, s.cache.lookup k = some e → e.dirty = false) (key : K) (value : V) :
    (∃ l, (insert s key value).keys = key :: l ∧ l.Sublist s.keys ∧
        (insert s key value).keys.Perm s.keys) ∨
      key ∉ s.keys ∧ insert s key value = pruneIfNeeded (s.emplace key value) := by
  cases hkey : s.cache.lookup key with
  | some e =>
    have hinsert : insert s key value =
        (s.store key ⟨e.iter, value, false⟩).spliceToFront e.iter := by
      simp [insert, batchUpdateDirtyNodes_eq hclean, hkey]
    have hperm : (insert s key value).keys.Perm s.keys := by
      rw [hinsert]
      exact ((replace_spec h hkey value).1.spliceToFront e.iter).keys_perm
    have hlist : (insert s key value).lruList =
        ⟨e.iter, key⟩ :: s.lruList.eraseP (·.addr = e.iter) := by
      rw [hinsert, State.spliceToFront]
      simp [State.store, h.agrees.find_iter hkey]
    refine Or.inl ⟨_, by rw [State.keys, hlist, List.map_cons], ?_, hperm⟩
    exact List.eraseP_sublist.map _
  | none =>
    refine Or.inr ⟨?_, by simp [insert, batchUpdateDirtyNodes_eq hclean, hkey]⟩
    rw [State.keys, h.agrees.mem_iff, hkey]
    simp

/-- A written key in front of a part of the list. -/
lemma Chronological.sorted_cons {past : List (Event K V)} (h : Chronological past s)
    {e : Event K V} {key : K} (he : e.written = some key) {l : List K} (hl : l.Sublist s.keys)
    (hkey : key ∉ l) : (key :: l).Pairwise fun a b => age (e :: past) a < age (e :: past) b := by
  have hage : ∀ k ∈ l, age (e :: past) k = age past k + 1 := by
    intro k hk
    rw [age_cons, if_neg]
    rw [he, Option.some_inj]
    rintro rfl
    exact hkey hk
  have hfirst : age (e :: past) key = 0 := by rw [age_cons, if_pos he]
  rw [List.pairwise_cons]
  refine ⟨fun k hk => ?_, (h.sorted.sublist hl).imp_of_mem fun {a b} ha hb hab => ?_⟩
  · rw [hfirst, hage k hk]
    exact Nat.succ_pos _
  · rw [hage a ha, hage b hb]
    omega

/-- Any other call leaves a part of the list.

**Proof sketch.** One case for each call; none of them moves a node. -/
lemma keys_sublist_of_apply [Inhabited V] (h : WellFormed s) {e : Event K V}
    (he : e.written = none) : (apply s e).keys.Sublist s.keys := by
  cases e with
  | insert | insertMove => simp [Event.written] at he
  | get key | tryGet key value =>
    simp only [apply, get, tryGet]
    split <;> exact List.Sublist.refl _
  | contains key => exact List.Sublist.refl _
  | remove key =>
    simp only [apply, remove]
    split
    · exact List.eraseP_sublist.map _
    · exact List.Sublist.refl _
  | clear => exact List.nil_sublist _
  | resize capacity =>
    have hb : WellFormed { s with capacity := capacity } := ⟨h.agrees, h.fresh⟩
    exact pruneIfNeeded_keys_sublist hb
  | setOverflow overflow =>
    have hb : WellFormed { s with overflow := overflow } := ⟨h.agrees, h.fresh⟩
    exact pruneIfNeeded_keys_sublist hb

/-- No mark appears when there was none and the call does not read.

**Proof sketch.** A call that writes stores its entry without a mark, at a key that is there or in
front of the others; what pruning leaves was there before. -/
lemma clean_of_apply [Inhabited V] (h : WellFormed s)
    (hclean : ∀ k e, s.cache.lookup k = some e → e.dirty = false) {e : Event K V}
    (hread : e.read = none) {k : K} {x : Entry V} (hx : (apply s e).cache.lookup k = some x) :
    x.dirty = false := by
  cases he : e.written with
  | none =>
    obtain ⟨y, hy, hdirty⟩ := lookup_of_apply h he hx
    rw [hdirty, hclean k y hy, hread]
    rfl
  | some key =>
    obtain ⟨value, happly⟩ := apply_of_written he s
    rw [happly, insert, batchUpdateDirtyNodes_eq hclean] at hx
    split at hx
    · next e he =>
      unfold State.spliceToFront at hx
      have hstore : (s.store key ⟨e.iter, value, false⟩).cache.lookup k = some x := by
        split at hx <;> exact hx
      rw [State.store] at hstore
      by_cases hk : k = key
      · subst hk
        rw [AList.lookup_insert] at hstore
        rw [← Option.some.inj hstore]
      · rw [AList.lookup_insert_ne hk] at hstore
        exact hclean k x hstore
    · next hnone =>
      have hemplace := lookup_of_pruneIfNeeded (h.emplace hnone value) hx
      rw [State.emplace] at hemplace
      by_cases hk : k = key
      · subst hk
        rw [AList.lookup_insert] at hemplace
        rw [← Option.some.inj hemplace]
      · rw [AList.lookup_insert_ne hk] at hemplace
        exact hclean k x hemplace

/-- **One call keeps the order.**

**Proof sketch.** A call that does not write makes all keys older by one. One that writes brings
its key to the front, with age zero, and keeps the order of the others. -/
theorem apply_chronological [Inhabited V] {past : List (Event K V)} (h : Chronological past s)
    {e : Event K V} (hread : e.read = none) : Chronological (e :: past) (apply s e) := by
  refine ⟨apply_wellFormed h.wellFormed e, ?_,
    fun k x hx => clean_of_apply h.wellFormed h.clean hread hx⟩
  cases he : e.written with
  | none =>
    have hage : ∀ k, age (e :: past) k = age past k + 1 := by
      intro k
      rw [age_cons, he, if_neg (by simp)]
    refine (h.sorted.sublist (keys_sublist_of_apply h.wellFormed he)).imp fun {a b} hab => ?_
    rw [hage, hage]
    omega
  | some key =>
    obtain ⟨value, happly⟩ := apply_of_written he s
    have hwf := (insert_spec h.wellFormed key value).wellFormed
    rw [happly]
    rcases insert_of_clean h.wellFormed h.clean key value with ⟨l, hl, hsub, -⟩ | ⟨hkey, hinsert⟩
    · have hnodup := hwf.agrees.keys_nodup
      rw [← State.keys, hl] at hnodup
      rw [hl]
      exact h.sorted_cons he hsub (List.nodup_cons.mp hnodup).1
    · have hemplace : WellFormed (s.emplace key value) := by
        refine h.wellFormed.emplace ?_ value
        rw [State.keys, h.wellFormed.agrees.mem_iff] at hkey
        simpa using hkey
      rw [hinsert]
      exact (h.sorted_cons he (List.Sublist.refl _) hkey).sublist
        (pruneIfNeeded_keys_sublist hemplace)

/-- What an insertion keeps: as many keys as the capacity, of those that there were and its own,
and every one of them was written after every one that is gone. -/
structure KeepsRecent (past : List (Event K V)) (key : K) (s t : State K V) : Prop where
  nodup : t.keys.Nodup
  length_eq : t.keys.length = s.capacity.toNat
  subset : ∀ k ∈ t.keys, k = key ∨ k ∈ s.keys
  recent : ∀ k ∈ t.keys, ∀ k', k' = key ∨ k' ∈ s.keys → k' ∉ t.keys → age past k < age past k'

/-- **An insertion that evicts keeps the most recent keys.**

**Proof sketch.** The key that is gone was pruned, so the insertion put a new node in front and the
cache keeps the first `capacity` nodes of the list. The list is ordered by age, so those are the
most recent ones. -/
theorem write_keeps_recent [Inhabited V] {past : List (Event K V)} (h : Chronological past s)
    {e : Event K V} {key : K} (he : e.written = some key) {k : K} (hk : k ∈ s.keys)
    (hgone : k ∉ (apply s e).keys) : KeepsRecent (e :: past) key s (apply s e) := by
  obtain ⟨value, happly⟩ := apply_of_written he s
  rw [happly] at hgone ⊢
  have hwf := (insert_spec h.wellFormed key value).wellFormed
  rcases insert_of_clean h.wellFormed h.clean key value with ⟨l, -, -, hperm⟩ | ⟨hkey, hinsert⟩
  · exact absurd (hperm.mem_iff.mpr hk) hgone
  · have hemplace : WellFormed (s.emplace key value) := by
      refine h.wellFormed.emplace ?_ value
      rw [State.keys, h.wellFormed.agrees.mem_iff] at hkey
      simpa using hkey
    have hold : k ∈ (s.emplace key value).keys := List.mem_cons_of_mem _ hk
    rw [hinsert] at hgone
    obtain ⟨ho, hsize⟩ := pruneIfNeeded_size hemplace hold hgone
    have hkeys : (insert s key value).keys = (key :: s.keys).take s.capacity.toNat := by
      rw [hinsert, State.keys, (pruneIfNeeded_prunes hemplace ho).list_eq, List.map_take]
      rfl
    have hsorted := h.sorted_cons he (List.Sublist.refl _) hkey
    rw [← List.take_append_drop s.capacity.toNat (key :: s.keys), ← hkeys] at hsorted
    refine ⟨hwf.agrees.keys_nodup, ?_, fun k hk => ?_, fun k hk k' hk' hgone' => ?_⟩
    · rw [State.keys, List.length_map, ← hwf.size_eq, hinsert, hsize]
      rfl
    · rw [hkeys] at hk
      exact List.mem_cons.mp (List.take_subset _ _ hk)
    · have hall : k' ∈ (insert s key value).keys ++ (key :: s.keys).drop s.capacity.toNat := by
        rw [hkeys, List.take_append_drop]
        exact List.mem_cons.mpr hk'
      have hdrop := (List.mem_append.mp hall).resolve_left hgone'
      exact (List.pairwise_append.mp hsorted).2.2 k hk k' hdrop

/-! ## The marks -/

/-- The keys read since the last insertion are marked, if they are still there. -/
structure Marked (past : List (Event K V)) (s : State K V) : Prop where
  wellFormed : WellFormed s
  marked : ∀ k ∈ readsSince past, ∀ e, s.cache.lookup k = some e → e.dirty = true

/-- **One call keeps the marks.** -/
theorem apply_marked [Inhabited V] {past : List (Event K V)} (h : Marked past s)
    (e : Event K V) : Marked (e :: past) (apply s e) := by
  refine ⟨apply_wellFormed h.wellFormed e, fun k hk x hx => ?_⟩
  obtain ⟨he, hk⟩ := mem_readsSince_cons.mp hk
  obtain ⟨y, hy, hdirty⟩ := lookup_of_apply h.wellFormed he hx
  rw [hdirty]
  rcases hk with hread | hk
  · simp [hread]
  · simp [h.marked k hk y hy]

/-- The only marked key goes to the front. -/
lemma batchUpdateDirtyNodes_front (h : WellFormed s) {r : K} {x : Entry V}
    (hx : s.cache.lookup r = some x) (hdirty : x.dirty = true)
    (honly : ∀ k e, s.cache.lookup k = some e → e.dirty = true → k = r) :
    ∃ l, (batchUpdateDirtyNodes s).keys = r :: l := by
  have hmem : ⟨x.iter, r⟩ ∈ s.lruList.reverse := List.mem_reverse.mpr (h.agrees.points r x hx)
  obtain ⟨n, hn⟩ : ∃ n,
      s.lruList.reverse.find? (fun n => (s.cache.lookup n.key).any (·.dirty)) = some n := by
    rw [← Option.isSome_iff_exists, List.find?_isSome]
    exact ⟨_, hmem, by simp [hx, hdirty]⟩
  have hany : (s.cache.lookup n.key).any (·.dirty) = true := by simpa using List.find?_some hn
  obtain ⟨e, he, hedirty⟩ := (Option.any_eq_true _ _).mp hany
  have hkey : n.key = r := honly n.key e he hedirty
  have hfind := h.agrees.find_addr (List.mem_reverse.mp (List.mem_of_find?_eq_some hn))
  refine ⟨(s.lruList.eraseP (·.addr = n.addr)).map (·.key), ?_⟩
  unfold batchUpdateDirtyNodes
  simp only [hn, he, State.spliceToFront, State.store, hfind]
  rw [State.keys, List.map_cons, hkey]

/-- **The only marked key stays** when a new key is inserted into a cache with room for both.

**Proof sketch.** The batch moves the only marked key to the front, and the insertion puts the new
one before it. It is the second node then, and at least two are kept. -/
theorem insert_keeps_marked (h : WellFormed s) {r : K} {x : Entry V}
    (hx : s.cache.lookup r = some x) (hdirty : x.dirty = true)
    (honly : ∀ k e, s.cache.lookup k = some e → e.dirty = true → k = r) {key : K}
    (hkey : key ∉ s.keys) (hcapacity : 2 ≤ s.capacity.toNat) (value : V) :
    r ∈ (insert s key value).keys := by
  have hb := batchUpdateDirtyNodes_reorders h
  obtain ⟨l, hl⟩ := batchUpdateDirtyNodes_front h hx hdirty honly
  have hnone : (batchUpdateDirtyNodes s).cache.lookup key = none := by
    rw [← hb.keys_perm.mem_iff, State.keys, hb.wellFormed.agrees.mem_iff] at hkey
    simpa using hkey
  have hinsert : insert s key value =
      pruneIfNeeded ((batchUpdateDirtyNodes s).emplace key value) := by simp [insert, hnone]
  have hkeys : ((batchUpdateDirtyNodes s).emplace key value).keys = key :: r :: l := by
    rw [← hl]
    rfl
  rw [hinsert]
  by_cases ho : ((batchUpdateDirtyNodes s).emplace key value).overfull
  · have hcap : ((batchUpdateDirtyNodes s).emplace key value).capacity.toNat =
        s.capacity.toNat := by
      rw [← hb.capacity_eq]
      rfl
    obtain ⟨c, hc⟩ : ∃ c, s.capacity.toNat = c + 2 := ⟨s.capacity.toNat - 2, by omega⟩
    rw [State.keys, (pruneIfNeeded_prunes (hb.wellFormed.emplace hnone value) ho).list_eq,
      List.map_take, ← State.keys, hkeys, hcap, hc]
    simp
  · rw [pruneIfNeeded_eq ho, hkeys]
    simp

/-! ## The runs of a cache -/

/-- Exactly one key was read since the last insertion. -/
def OnlyRead (past : List (Event K V)) (r : K) : Prop :=
  r ∈ readsSince past ∧ ∀ k ∈ readsSince past, k = r

/-- **Insertions respect recency.** After every run that leaves a capacity of at least two:

* if nothing was read in the run, then an insertion that evicts a key keeps exactly as many keys
  as the capacity, and every one of them was inserted or updated after every one it evicts;
* if exactly one key was read since the last insertion, and no other key is marked, then the
  insertion of a new key does not evict that key.

**Proof sketch.** The past of a run without reads orders the list, which
`apply_chronological` keeps, and pruning takes a prefix of it. In every run a key that was read
since the last insertion is marked, which `apply_marked` keeps; the only marked key is moved to the
front, so that it is among the first two when the list is pruned. -/
theorem evictions_respect_recency [Inhabited V] (capacity overflow : BitVec 64)
    {es : List (Event K V)} (hrun : (system capacity overflow).run es = some s)
    (hcapacity : 2 ≤ s.capacity.toNat) {e : Event K V} {key : K} (he : e.written = some key) :
    ((∀ e' ∈ es, e'.read = none) → (∃ k ∈ s.keys, k ∉ (apply s e).keys) →
      KeepsRecent (e :: es.reverse) key s (apply s e)) ∧
    ∀ r, OnlyRead es.reverse r →
      (∀ k x, s.cache.lookup k = some x → x.dirty = true → k = r) →
      key ∉ s.keys → r ∈ s.keys → r ∈ (apply s e).keys := by
  constructor
  · intro hread ⟨k, hk, hgone⟩
    have hpast := (system capacity overflow).run_invariant_past
      (I := fun past s => (∀ e' ∈ past, e'.read = none) → Chronological past s)
      (fun _ => ⟨⟨.empty, by simp [system, State.init]⟩, by simp [system, State.init, State.keys],
        by simp [system, State.init]⟩)
      (fun past s e' t ih hst hall => by
        obtain rfl := Option.some.inj hst
        have hfirst := hall e' List.mem_cons_self
        exact apply_chronological (ih fun e'' h => hall e'' (List.mem_cons_of_mem _ h)) hfirst) hrun
    exact write_keeps_recent (hpast fun e' he' => hread e' (List.mem_reverse.mp he')) he hk hgone
  · intro r hr honly hkey hmem
    have hmarked : Marked es.reverse s := (system capacity overflow).run_invariant_past
      (I := Marked) ⟨⟨.empty, by simp [system, State.init]⟩, by simp [readsSince]⟩
      (fun past s e' t ih hst => by
        obtain rfl := Option.some.inj hst
        exact apply_marked ih e') hrun
    obtain ⟨value, happly⟩ := apply_of_written he s
    rw [State.keys, hmarked.wellFormed.agrees.mem_iff, Option.isSome_iff_exists] at hmem
    obtain ⟨x, hx⟩ := hmem
    rw [happly]
    exact insert_keeps_marked hmarked.wellFormed hx (hmarked.marked r hr.1 x hx) honly hkey
      hcapacity value

/-- In a cache with capacity 2 and overflow 1 the oldest of three keys survives an insertion when
it was updated last, and also when it was read.

**Proof sketch.** Both parts apply the theorem to their run, which is computed. -/
theorem evictions_respect_recency_oldest :
    (∃ s : State ℕ ℕ,
      (system 2 1).run [.insert 1 10, .insert 2 20, .insert 3 30, .insert 1 11] = some s ∧
      KeepsRecent [.insert 4 40, .insert 1 11, .insert 3 30, .insert 2 20, .insert 1 10] 4 s
        (apply s (.insert 4 40)) ∧
      (apply s (.insert 4 40)).keys = [4, 1]) ∧
    ∃ s : State ℕ ℕ,
      (system 2 1).run [.insert 1 10, .insert 2 20, .insert 3 30, .get 1] = some s ∧
      s.keys = [3, 2, 1] ∧ 1 ∈ (apply s (.insert 4 40)).keys ∧
      (apply s (.insert 4 40)).keys = [4, 1] := by
  have hupdate : (system (K := ℕ) (V := ℕ) 2 1).run
      [.insert 1 10, .insert 2 20, .insert 3 30, .insert 1 11] = some _ := rfl
  have hread : (system (K := ℕ) (V := ℕ) 2 1).run
      [.insert 1 10, .insert 2 20, .insert 3 30, .get 1] = some _ := rfl
  refine ⟨⟨_, hupdate, ?_, rfl⟩, ⟨_, hread, rfl, ?_, rfl⟩⟩
  · exact (evictions_respect_recency 2 1 hupdate (by decide) (e := .insert 4 40) rfl).1
      (by simp [Event.read]) ⟨3, by decide, by decide⟩
  · refine (evictions_respect_recency 2 1 hread (by decide) (e := .insert 4 40) rfl).2 1
      ⟨by decide, by decide⟩ (fun k x hx hdirty => ?_) (by decide) (by decide)
    have hmem := AList.lookup_isSome.mp (Option.isSome_of_mem hx)
    have hkeys : k = 1 ∨ k = 3 ∨ k = 2 := by
      simpa using (show k ∈ [1, 3, 2] from hmem)
    rcases hkeys with rfl | rfl | rfl
    · rfl
    · obtain rfl := Option.some.inj hx
      exact absurd hdirty (by decide)
    · obtain rfl := Option.some.inj hx
      exact absurd hdirty (by decide)

end HkuUtils.LruCache
