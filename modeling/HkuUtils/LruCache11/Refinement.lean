import Mathlib.Algebra.Group.Nat.Defs
import HkuUtils.LruCache11.Model

set_option relaxedAutoImplicit false
set_option autoImplicit false

/-!
# The cache is a table in the order of use

The list and the map are changed together by each function, so that a cache answers every sequence
of calls as one table does that is ordered by the last use of its keys. Its size stays below the two
limits together, and a key that has been used is only lost when as many other keys have been used
after it as the cache keeps.

## Main definitions

* `Lru11.Refines`, `Matches` — the list and the map of a cache hold a table.

## Main results

* `Lru11.reply_refines` — every call answers alike and keeps this.
* `Lru11.replies_eq` — every sequence of calls.
* `Lru11.size_bounded` — the size.
* `Lru11.used_keys_stay` — which keys a cache keeps.
-/

namespace Lru11

open Recency

variable {K V : Type} [DecidableEq K] {s : State K V} {r : Table K V} {k : K} {v : V}

/-! ## The list and the map hold a table -/

/-- The list has the entries of the table in their order, and the map has an iterator to each. -/
structure Refines (s : State K V) (r : Table K V) : Prop where
  entries : s.keys.map (fun n => (n.key, n.value)) = r.entries
  addrs : (s.keys.map (·.addr)).Nodup
  points : ∀ n ∈ s.keys, s.cache.lookup n.key = some n.addr
  keys : (s.keys.map (·.key)).Perm s.cache.keys
  fresh : ∀ n ∈ s.keys, n.addr < s.nextAddr

namespace Refines

/-- The keys of the list are those of the table. -/
lemma keys_eq (h : Refines s r) : s.keys.map (·.key) = r.keys := by
  rw [Table.keys, ← h.entries, List.map_map]
  rfl

/-- The map has as many keys as the table. -/
lemma size_eq (h : Refines s r) : s.size = r.entries.length := by
  have hlen := h.keys.length_eq
  rw [← h.entries, List.length_map]
  simpa [AList.keys, List.keys, State.size] using hlen.symm

/-- The map has no iterator for a key that the table does not have. -/
lemma lookup_eq_none (h : Refines s r) (hk : k ∉ r.keys) : s.cache.lookup k = none := by
  rw [AList.lookup_eq_none, AList.mem_keys, ← h.keys.mem_iff, h.keys_eq]
  exact hk

/-- A key of the table has a node in the list, with other nodes around it. -/
lemma exists_node (h : Refines s r) (hk : k ∈ r.keys) : ∃ a n b, s.keys = a ++ n :: b ∧
    n.key = k ∧ s.cache.lookup k = some n.addr ∧
    (∀ m ∈ a, m.addr ≠ n.addr) ∧ ∀ m ∈ b, m.addr ≠ n.addr := by
  rw [← h.keys_eq, List.mem_map] at hk
  obtain ⟨n, hn, rfl⟩ := hk
  have hpoints := h.points n hn
  have haddrs := h.addrs
  obtain ⟨a, b, hsplit⟩ := List.append_of_mem hn
  rw [hsplit, List.map_append, List.map_cons, List.nodup_middle, List.nodup_cons] at haddrs
  refine ⟨a, n, b, hsplit, rfl, hpoints, fun m hm heq => ?_, fun m hm heq => ?_⟩
  · exact haddrs.1 (List.mem_append_left _ (List.mem_map.mpr ⟨m, hm, heq⟩))
  · exact haddrs.1 (List.mem_append_right _ (List.mem_map.mpr ⟨m, hm, heq⟩))

end Refines

omit [DecidableEq K] in
/-- The node of an iterator. -/
lemma find?_of_split {a b : List (Node K V)} {n : Node K V} (hs : s.keys = a ++ n :: b)
    (ha : ∀ m ∈ a, m.addr ≠ n.addr) : s.keys.find? (·.addr = n.addr) = some n := by
  have hfirst : a.find? (·.addr = n.addr) = none := by
    rw [List.find?_eq_none]
    intro m hm
    simpa using ha m hm
  rw [hs, List.find?_append, hfirst]
  simp

omit [DecidableEq K] in
/-- The list without it. -/
lemma eraseP_of_split {a b : List (Node K V)} {n : Node K V} (hs : s.keys = a ++ n :: b)
    (ha : ∀ m ∈ a, m.addr ≠ n.addr) : s.keys.eraseP (·.addr = n.addr) = a ++ b := by
  rw [hs, List.eraseP_append_right _ (fun m hm => by simpa using ha m hm)]
  simp

omit [DecidableEq K] in
/-- The value of a node is assigned. -/
lemma assign_of_split {a b : List (Node K V)} {n : Node K V} (hs : s.keys = a ++ n :: b)
    (ha : ∀ m ∈ a, m.addr ≠ n.addr) (hb : ∀ m ∈ b, m.addr ≠ n.addr) (v : V) :
    (s.assign n.addr v).keys = a ++ { n with value := v } :: b := by
  have hid : ∀ l : List (Node K V), (∀ m ∈ l, m.addr ≠ n.addr) →
      l.map (fun m => if m.addr = n.addr then { m with value := v } else m) = l := by
    intro l hl
    conv_rhs => rw [← List.map_id l]
    apply List.map_congr_left
    intro m hm
    rw [if_neg (hl m hm), id]
  rw [State.assign, hs, List.map_append, List.map_cons, hid a ha, hid b hb, if_pos rfl]

namespace Refines

/-- A node comes to the front, with the value that it has then.

**Proof sketch.** The nodes are the same but for their order and the new value, so the addresses
and the keys are a permutation of those before. -/
lemma toFront (h : Refines s r) {a b : List (Node K V)} {n : Node K V} (hs : s.keys = a ++ n :: b)
    (w : V) : Refines { s with keys := { n with value := w } :: (a ++ b) } (r.promote n.key w) := by
  have hperm : (n :: (a ++ b)).Perm s.keys := by
    rw [hs]
    exact List.perm_middle.symm
  have hentries : r.entries = a.map (fun n => (n.key, n.value)) ++
      (n.key, n.value) :: b.map (fun n => (n.key, n.value)) := by
    rw [← h.entries, hs, List.map_append, List.map_cons]
  refine ⟨?_, ?_, ?_, ?_, ?_⟩
  · rw [Table.promote_split hentries, List.map_cons, List.map_append]
  · have hnodup := ((hperm.map (·.addr)).nodup_iff).mpr h.addrs
    exact hnodup
  · intro m hm
    rcases List.mem_cons.mp hm with rfl | hm
    · exact h.points n (hperm.subset List.mem_cons_self)
    · exact h.points m (hperm.subset (List.mem_cons_of_mem _ hm))
  · have hkeys := (hperm.map (·.key)).trans h.keys
    exact hkeys
  · intro m hm
    rcases List.mem_cons.mp hm with rfl | hm
    · exact h.fresh n (hperm.subset List.mem_cons_self)
    · exact h.fresh m (hperm.subset (List.mem_cons_of_mem _ hm))

/-- A key that is found comes to the front, and its value is read or assigned.

**Proof sketch.** The node of the key splits the list, and its address finds it there, since no
other node has it. Moving it to the front is moving the pair to the front of the table, and reading
and assigning through the address reads and assigns this node. -/
lemma found (h : Refines s r) (hk : k ∈ r.keys) : ∃ iter v, s.cache.lookup k = some iter ∧
    r.lookup k = some v ∧ (s.splice iter).value iter = some v ∧
    Refines (s.splice iter) (r.promote k v) ∧
    (∀ w, Refines ((s.assign iter w).splice iter) (r.promote k w)) ∧
    ∀ w, Refines ((s.splice iter).assign iter w) (r.promote k w) := by
  obtain ⟨a, n, b, hs, rfl, hlookup, ha, hb⟩ := h.exists_node hk
  have hsplice : s.splice n.addr = { s with keys := n :: (a ++ b) } := by
    rw [State.splice, find?_of_split hs ha]
    simp only [eraseP_of_split hs ha]
  have hentries : r.entries = a.map (fun n => (n.key, n.value)) ++
      (n.key, n.value) :: b.map (fun n => (n.key, n.value)) := by
    rw [← h.entries, hs, List.map_append, List.map_cons]
  have hother : ∀ m ∈ a ++ b, m.addr ≠ n.addr := by
    intro m hm
    rcases List.mem_append.mp hm with hm | hm
    · exact ha m hm
    · exact hb m hm
  refine ⟨n.addr, n.value, hlookup, Table.lookup_split hentries, ?_, ?_, fun w => ?_, fun w => ?_⟩
  · rw [hsplice, State.value]
    simp
  · rw [hsplice]
    exact h.toFront hs n.value
  · have hassign := assign_of_split hs ha hb w
    have heq : (s.assign n.addr w).splice n.addr =
        { s with keys := { n with value := w } :: (a ++ b) } := by
      rw [State.splice, find?_of_split (n := { n with value := w }) hassign ha]
      simp only [eraseP_of_split (n := { n with value := w }) hassign ha]
      rfl
    rw [heq]
    exact h.toFront hs w
  · have heq : (s.splice n.addr).assign n.addr w =
        { s with keys := { n with value := w } :: (a ++ b) } := by
      rw [hsplice]
      have hassign := assign_of_split (s := { s with keys := n :: (a ++ b) }) (a := []) (n := n)
        (b := a ++ b) rfl (by simp) hother w
      rw [List.nil_append] at hassign
      simp only [State.assign] at hassign ⊢
      rw [hassign]
    rw [heq]
    exact h.toFront hs w

/-- A new key comes to the front.

**Proof sketch.** The new node has an address that no node had, so the addresses stay distinct, and
the new entry of the map points to it. The keys of the map and of the list are the same before and
after. -/
lemma emplace (h : Refines s r) (hk : k ∉ r.keys) (v : V) :
    Refines (s.emplace k v) (r.promote k v) := by
  have hkeys : k ∉ s.cache.keys := by
    rw [← h.keys.mem_iff, h.keys_eq]
    exact hk
  refine ⟨?_, ?_, ?_, ?_, ?_⟩
  · rw [Table.promote_entries, Table.remove_of_notMem hk, ← h.entries]
    rfl
  · refine List.nodup_cons.mpr ⟨fun hmem => ?_, h.addrs⟩
    obtain ⟨n, hn, heq⟩ := List.mem_map.mp hmem
    have hlt := h.fresh n hn
    simp only at heq
    omega
  · intro n hn
    rcases List.mem_cons.mp hn with rfl | hold
    · exact AList.lookup_insert _
    · have hne : n.key ≠ k := by
        rintro rfl
        exact hk (h.keys_eq ▸ List.mem_map.mpr ⟨n, hold, rfl⟩)
      exact (AList.lookup_insert_ne hne).trans (h.points n hold)
  · have hcons := h.keys.cons k
    simp only [State.emplace, AList.keys_insert, List.erase_of_not_mem hkeys, List.map_cons]
    exact hcons
  · intro n hn
    rcases List.mem_cons.mp hn with rfl | hold
    · exact Nat.lt_succ_self _
    · exact Nat.lt_succ_of_lt (h.fresh n hold)

/-- A node and its key go.

**Proof sketch.** The list is cut at the node. No other node has the same key or the same address,
so the index of the others stays right. -/
lemma erase (h : Refines s r) {a b : List (Node K V)} {n : Node K V} (hs : s.keys = a ++ n :: b) :
    Refines { s with keys := a ++ b, cache := s.cache.erase n.key } (r.remove n.key) := by
  have hperm : (n :: (a ++ b)).Perm s.keys := by
    rw [hs]
    exact List.perm_middle.symm
  have hentries : r.entries = a.map (fun n => (n.key, n.value)) ++
      (n.key, n.value) :: b.map (fun n => (n.key, n.value)) := by
    rw [← h.entries, hs, List.map_append, List.map_cons]
  have hnodup := ((hperm.map (·.key)).nodup_iff).mpr (h.keys.nodup_iff.mpr s.cache.nodupKeys)
  rw [List.map_cons, List.nodup_cons] at hnodup
  refine ⟨?_, ?_, fun m hm => ?_, ?_, fun m hm => ?_⟩
  · rw [Table.remove_split hentries, List.map_append]
  · have haddrs := ((hperm.map (·.addr)).nodup_iff).mpr h.addrs
    exact (List.nodup_cons.mp haddrs).2
  · have hne : m.key ≠ n.key := fun heq => hnodup.1 (List.mem_map.mpr ⟨m, hm, heq⟩)
    exact (AList.lookup_erase_ne hne).trans (h.points m (hperm.subset (List.mem_cons_of_mem _ hm)))
  · have hkeys := ((hperm.map (·.key)).trans h.keys).erase n.key
    simpa using hkeys
  · exact h.fresh m (hperm.subset (List.mem_cons_of_mem _ hm))

end Refines

/-! ## Pruning -/

/-- The loop of `prune` takes the keys from the back.

**Proof sketch.** By induction on the nodes from the back. Each turn drops the last node and its
key from the map, or ends when there are no more than `maxSize` of them; the map is as large as the
list, so the count is that of the table. -/
lemma Refines.pruneLoop (h : Refines s r) (maxSize : ℕ) {l : List (Node K V)}
    (hl : s.keys.reverse = l) :
    Refines { s with
      keys := (Lru11.pruneLoop maxSize l s.cache).1.reverse
      cache := (Lru11.pruneLoop maxSize l s.cache).2 } (r.cut maxSize) := by
  induction l generalizing s r with
  | nil =>
    rw [List.reverse_eq_nil_iff] at hl
    have hentries : r.entries = [] := by
      rw [← h.entries, hl]
      rfl
    have hcut : r.cut maxSize = r := by
      ext1
      rw [Table.cut_entries, hentries, List.take_nil]
    rw [hcut]
    simp only [Lru11.pruneLoop, List.reverse_nil]
    rw [← hl]
    exact h
  | cons n rest ih =>
    have hkeys : s.keys = rest.reverse ++ [n] := by
      rw [← List.reverse_reverse s.keys, hl, List.reverse_cons]
    have hentries : r.entries = rest.reverse.map (fun n => (n.key, n.value)) ++
        [(n.key, n.value)] := by
      rw [← h.entries, hkeys, List.map_append]
      rfl
    have hsize : s.cache.entries.length = rest.length + 1 := by
      have hlen := h.size_eq
      rw [hentries, List.length_append, List.length_map, List.length_reverse] at hlen
      exact hlen
    rw [Lru11.pruneLoop]
    by_cases hmore : maxSize < s.cache.entries.length
    · have herase := h.erase hkeys
      rw [List.append_nil] at herase
      have hcut : (r.remove n.key).cut maxSize = r.cut maxSize := by
        ext1
        rw [Table.cut_entries, Table.cut_entries, Table.remove_split hentries, hentries,
          List.append_nil, List.take_append_of_le_length]
        simp
        omega
      have hrest := ih herase (List.reverse_reverse rest)
      rw [hcut] at hrest
      rw [if_pos hmore]
      exact hrest
    · have hcut : r.cut maxSize = r := by
        ext1
        rw [Table.cut_entries, List.take_of_length_le]
        rw [← h.size_eq, State.size]
        omega
      rw [if_neg hmore, hcut]
      simp only [List.reverse_cons, ← hkeys]
      exact h

/-- `prune` takes keys from the back when there are too many. -/
lemma Refines.prune (h : Refines s r) :
    Refines (prune s) (Spec.prune ⟨r, s.maxSize, s.elasticity⟩).table := by
  rw [Lru11.prune, Spec.prune, h.size_eq, State.maxAllowed]
  split
  · exact h
  · exact h.pruneLoop _ rfl

/-! ## Calls -/

/-- An empty cache. -/
lemma Refines.clear (s : State K V) : Refines (clear s) Table.empty :=
  ⟨rfl, List.nodup_nil, fun _ h => absurd h List.not_mem_nil, .refl _,
    fun _ h => absurd h List.not_mem_nil⟩

/-- The limits of a cache stay. -/
structure SameLimits (s t : State K V) : Prop where
  maxSize : t.maxSize = s.maxSize
  elasticity : t.elasticity = s.elasticity

omit [DecidableEq K] in
/-- Moving a node keeps the limits. -/
lemma sameLimits_splice (s : State K V) (iter : ℕ) : SameLimits s (s.splice iter) := by
  rw [State.splice]
  split
  · exact ⟨rfl, rfl⟩
  · exact ⟨rfl, rfl⟩

/-- Dropping the last nodes keeps the limits. -/
lemma sameLimits_prune (s : State K V) : SameLimits s (prune s) := by
  rw [prune]
  split
  · exact ⟨rfl, rfl⟩
  · exact ⟨rfl, rfl⟩

/-- A cache holds the table of the other state, with the same limits. -/
structure Matches (s : State K V) (t : Spec.State K V) : Prop where
  refines : Refines s t.table
  maxSize : t.maxSize = s.maxSize
  elasticity : t.elasticity = s.elasticity

variable {t : Spec.State K V}

omit [DecidableEq K] in
/-- A table is left as it is, or cut to its limit. -/
lemma spec_prune (u : Spec.State K V) :
    Spec.prune u = u ∧
        (u.maxSize = 0 ∨ u.table.entries.length < (u.maxSize + u.elasticity).toNat) ∨
      Spec.prune u = { u with table := u.table.cut u.maxSize.toNat } ∧ u.maxSize ≠ 0 := by
  rw [Spec.prune]
  split
  · next h => exact .inl ⟨rfl, h⟩
  · next h => exact .inr ⟨rfl, fun hzero => h (.inl hzero)⟩

omit [DecidableEq K] in
/-- Dropping the last pairs keeps the limits. -/
lemma spec_prune_limits (u : Spec.State K V) :
    (Spec.prune u).maxSize = u.maxSize ∧ (Spec.prune u).elasticity = u.elasticity := by
  rcases spec_prune u with ⟨h, -⟩ | ⟨h, -⟩
  · rw [h]
    exact ⟨rfl, rfl⟩
  · rw [h]
    exact ⟨rfl, rfl⟩

namespace Matches

/-- A cache as it is constructed holds the empty table. -/
lemma new (maxSize elasticity : BitVec 64) :
    Matches (State.new maxSize elasticity : State K V) ⟨Table.empty, maxSize, elasticity⟩ :=
  ⟨Refines.clear (State.new maxSize elasticity), rfl, rfl⟩

/-- The table of a cache with the same limits. -/
lemma of_refines {s' : State K V} {r' : Table K V} (h : Matches s t) (hs : Refines s' r')
    (hlimits : SameLimits s s') : Matches s' { t with table := r' } :=
  ⟨hs, h.maxSize.trans hlimits.maxSize.symm, h.elasticity.trans hlimits.elasticity.symm⟩

/-- A call of `insert` moves the pair to the front, and drops the last ones if the key is new. A
key that is there keeps its node, which is spliced and gets the value. -/
lemma insert (h : Matches s t) (k : K) (v : V) :
    Matches (insert s k v) (if k ∈ t.table.keys then Spec.touch t k v
      else Spec.prune (Spec.touch t k v)) := by
  by_cases hk : k ∈ t.table.keys
  · obtain ⟨iter, w, hlookup, -, -, -, hassign, -⟩ := h.refines.found hk
    rw [if_pos hk, Lru11.insert, hlookup]
    have hlimits := sameLimits_splice (s.assign iter v) iter
    exact h.of_refines (hassign v) ⟨hlimits.maxSize, hlimits.elasticity⟩
  · have hprune := (h.refines.emplace hk v).prune
    have hlimits := sameLimits_prune (s.emplace k v)
    rw [if_neg hk, Lru11.insert, h.refines.lookup_eq_none hk]
    have htouch : Spec.touch t k v =
        ⟨t.table.promote k v, (s.emplace k v).maxSize, (s.emplace k v).elasticity⟩ := by
      rw [Spec.touch, h.maxSize, h.elasticity]
      rfl
    rw [htouch]
    exact ⟨hprune, (spec_prune_limits _).1.trans hlimits.maxSize.symm,
      (spec_prune_limits _).2.trans hlimits.elasticity.symm⟩

/-- **Every call answers alike**, and the table stays the one of the cache.

**Proof sketch.** One case for each call. A key that is found is looked up through its address, and
one that is not found is in neither map nor table. -/
lemma reply (h : Matches s t) (c : Call K V) :
    (s.reply c).1 = (Spec.reply t c).1 ∧ Matches (s.reply c).2 (Spec.reply t c).2 := by
  cases c with
  | insert k v => exact ⟨rfl, h.insert k v⟩
  | tryGet k =>
    simp only [State.reply, Spec.reply, tryGet]
    by_cases hk : k ∈ t.table.keys
    · obtain ⟨iter, v, hlookup, hvalue, hread, hsplice, -⟩ := h.refines.found hk
      simp only [hlookup, hvalue, hread]
      exact ⟨trivial, h.of_refines hsplice (sameLimits_splice s iter)⟩
    · simp only [h.refines.lookup_eq_none hk, Table.lookup_eq_none hk]
      exact ⟨trivial, h⟩
  | get k =>
    simp only [State.reply, Spec.reply, get]
    by_cases hk : k ∈ t.table.keys
    · obtain ⟨iter, v, hlookup, hvalue, hread, hsplice, -⟩ := h.refines.found hk
      simp only [hlookup, hvalue, Option.bind_some, hread]
      exact ⟨trivial, h.of_refines hsplice (sameLimits_splice s iter)⟩
    · simp only [h.refines.lookup_eq_none hk, Table.lookup_eq_none hk]
      exact ⟨rfl, h⟩
  | assign k v =>
    simp only [State.reply, Spec.reply, get]
    by_cases hk : k ∈ t.table.keys
    · obtain ⟨iter, w, hlookup, -, -, -, -, hassign⟩ := h.refines.found hk
      simp only [hlookup, if_pos hk]
      have hlimits := sameLimits_splice s iter
      exact ⟨trivial, h.of_refines (hassign v) ⟨hlimits.maxSize, hlimits.elasticity⟩⟩
    · simp only [h.refines.lookup_eq_none hk, if_neg hk]
      exact ⟨trivial, h⟩
  | remove k =>
    simp only [State.reply, Spec.reply, Lru11.remove]
    by_cases hk : k ∈ t.table.keys
    · obtain ⟨a, n, b, hs, rfl, hlookup, ha, hb⟩ := h.refines.exists_node hk
      simp only [hlookup, hk, decide_true, eraseP_of_split hs ha]
      exact ⟨trivial, h.of_refines (h.refines.erase hs) ⟨rfl, rfl⟩⟩
    · simp only [h.refines.lookup_eq_none hk, hk, decide_false, Table.remove_of_notMem hk]
      exact ⟨trivial, h⟩
  | clear => exact ⟨rfl, h.of_refines (Refines.clear s) ⟨rfl, rfl⟩⟩
  | contains k =>
    refine ⟨?_, h⟩
    simp only [State.reply, Spec.reply, Lru11.contains]
    by_cases hk : k ∈ t.table.keys
    · obtain ⟨iter, v, hlookup, -⟩ := h.refines.found hk
      simp [hlookup, hk]
    · simp [h.refines.lookup_eq_none hk, hk]
  | size => exact ⟨congrArg Reply.number h.refines.size_eq, h⟩
  | empty => exact ⟨by simp only [State.reply, Spec.reply, h.refines.size_eq], h⟩
  | cwalk => exact ⟨congrArg Reply.nodes h.refines.entries, h⟩

/-- Every sequence of calls is answered alike. -/
lemma replies (h : Matches s t) (cs : List (Call K V)) :
    (s.replies cs).1 = (Spec.replies t cs).1 ∧ Matches (s.replies cs).2 (Spec.replies t cs).2 := by
  induction cs generalizing s t with
  | nil => exact ⟨rfl, h⟩
  | cons c cs ih =>
    obtain ⟨hfirst, hnext⟩ := h.reply c
    obtain ⟨hrest, hlast⟩ := ih hnext
    exact ⟨by rw [State.replies, Spec.replies, hfirst, hrest], hlast⟩

end Matches

/-! ## The size -/

/-- The limit of a table, and what it may be exceeded by. -/
def Spec.Bounded (t : Spec.State K V) : Prop :=
  t.table.entries.length ≤
    max t.maxSize.toNat (t.maxSize.toNat + t.elasticity.toNat - 1)

/-- A key that is used again does not make a table larger. -/
lemma length_promote {r : Table K V} {k : K} (hk : k ∈ r.keys) (v : V) :
    (r.promote k v).entries.length = r.entries.length := by
  obtain ⟨⟨k', w⟩, hmem, rfl⟩ := List.mem_map.mp hk
  obtain ⟨a, b, hsplit⟩ := List.append_of_mem hmem
  rw [Table.promote_split hsplit, hsplit]
  simp
  omega

/-- Every call keeps the size of a table below its limits.

**Proof sketch.** Only an insertion of a new key makes a table larger, by one; then either there
were fewer than `maxSize + elasticity` pairs, or it is cut to `maxSize`. -/
lemma bounded_reply (hlimit : t.maxSize ≠ 0)
    (hsum : t.maxSize.toNat + t.elasticity.toNat < 2 ^ 64) (h : Spec.Bounded t) (c : Call K V) :
    Spec.Bounded (Spec.reply t c).2 := by
  have hpos : 0 < t.maxSize.toNat := by
    rw [Nat.pos_iff_ne_zero]
    intro hzero
    exact hlimit (BitVec.eq_of_toNat_eq (by simpa using hzero))
  have htouch : ∀ k v, k ∈ t.table.keys → Spec.Bounded (Spec.touch t k v) := by
    intro k v hk
    rw [Spec.Bounded, Spec.touch, length_promote hk]
    exact h
  cases c with
  | insert k v =>
    by_cases hk : k ∈ t.table.keys
    · simp only [Spec.reply, if_pos hk]
      exact htouch k v hk
    · simp only [Spec.reply, if_neg hk]
      rcases spec_prune (Spec.touch t k v) with ⟨heq, hfew⟩ | ⟨heq, -⟩
      · have hlt := hfew.resolve_left hlimit
        simp only [Spec.touch] at hlt
        rw [BitVec.toNat_add, Nat.mod_eq_of_lt hsum] at hlt
        rw [heq]
        simp only [Spec.Bounded, Spec.touch]
        omega
      · rw [heq]
        simp only [Spec.Bounded, Spec.touch, Table.cut_entries, List.length_take]
        omega
  | tryGet k | get k =>
    simp only [Spec.reply]
    split
    · next v hv =>
      refine htouch k v ?_
      by_contra hk
      rw [Table.lookup_eq_none hk] at hv
      cases hv
    · exact h
  | assign k v =>
    simp only [Spec.reply]
    split
    · next hk => exact htouch k v hk
    · exact h
  | remove k =>
    refine Nat.le_trans ?_ h
    exact List.length_filter_le _ _
  | clear => exact Nat.zero_le _
  | contains k => exact h
  | size => exact h
  | empty => exact h
  | cwalk => exact h

/-- The limits of a table stay.

**Proof sketch.** One case for each call. -/
lemma spec_limits (t : Spec.State K V) (c : Call K V) :
    (Spec.reply t c).2.maxSize = t.maxSize ∧ (Spec.reply t c).2.elasticity = t.elasticity := by
  cases c with
  | insert k v =>
    simp only [Spec.reply]
    split
    · exact ⟨rfl, rfl⟩
    · exact spec_prune_limits (Spec.touch t k v)
  | tryGet k | get k =>
    simp only [Spec.reply]
    split
    · exact ⟨rfl, rfl⟩
    · exact ⟨rfl, rfl⟩
  | assign k v =>
    simp only [Spec.reply]
    split
    · exact ⟨rfl, rfl⟩
    · exact ⟨rfl, rfl⟩
  | remove k => exact ⟨rfl, rfl⟩
  | clear => exact ⟨rfl, rfl⟩
  | contains k => exact ⟨rfl, rfl⟩
  | size => exact ⟨rfl, rfl⟩
  | empty => exact ⟨rfl, rfl⟩
  | cwalk => exact ⟨rfl, rfl⟩

/-- Every sequence of calls keeps the size of a table below its limits. -/
lemma bounded_replies (hlimit : t.maxSize ≠ 0)
    (hsum : t.maxSize.toNat + t.elasticity.toNat < 2 ^ 64) (h : Spec.Bounded t)
    (cs : List (Call K V)) :
    Spec.Bounded (Spec.replies t cs).2 ∧ (Spec.replies t cs).2.maxSize = t.maxSize ∧
      (Spec.replies t cs).2.elasticity = t.elasticity := by
  induction cs generalizing t with
  | nil => exact ⟨h, rfl, rfl⟩
  | cons c cs ih =>
    obtain ⟨hmax, helastic⟩ := spec_limits t c
    have hrest := ih (by rwa [hmax]) (by rwa [hmax, helastic]) (bounded_reply hlimit hsum h c)
    rwa [hmax, helastic] at hrest

/-- **A cache is a table in the order of use.** Every sequence of calls is answered as the table
answers it, and the size of a cache with a limit stays below the limit and the elasticity together,
or at the limit where there is no elasticity.

**Proof sketch.** The cache and the table match from the beginning, and every call keeps that and
is answered alike. The bound is one of the table. -/
theorem replies_eq (maxSize elasticity : BitVec 64) (cs : List (Call K V)) :
    ((State.new maxSize elasticity).replies cs).1 =
      (Spec.replies ⟨Table.empty, maxSize, elasticity⟩ cs).1 ∧
    (maxSize ≠ 0 → maxSize.toNat + elasticity.toNat < 2 ^ 64 →
      ((State.new maxSize elasticity).replies cs).2.size ≤
        max maxSize.toNat (maxSize.toNat + elasticity.toNat - 1)) := by
  obtain ⟨hreplies, hmatches⟩ := (Matches.new (K := K) (V := V) maxSize elasticity).replies cs
  refine ⟨hreplies, fun hlimit hsum => ?_⟩
  obtain ⟨hbound, hmax, helastic⟩ := bounded_replies (t := ⟨Table.empty, maxSize, elasticity⟩)
    hlimit hsum (Nat.zero_le _) cs
  rw [Spec.Bounded, hmax, helastic] at hbound
  rw [hmatches.refines.size_eq]
  exact hbound

/-- Three insertions into a cache of two with room for one more. -/
theorem replies_eq_three :
    ((State.new 2 1 : State ℕ ℕ).replies [.insert 1 10, .insert 2 20, .insert 3 30]).2.size ≤
      max 2 (2 + 1 - 1) :=
  (replies_eq 2 1 [.insert 1 10, .insert 2 20, .insert 3 30]).2 (by decide) (by decide)

/-! ## The keys that stay -/

/-- The key that a call brings to the front. -/
def State.uses (s : State K V) : Call K V → List K
  | .insert k _ => [k]
  | .tryGet k | .get k | .assign k _ => if contains s k then [k] else []
  | .remove _ | .clear | .contains _ | .size | .empty | .cwalk => []

/-- The keys that a list of calls brings to the front. -/
def State.used (s : State K V) : List (Call K V) → List K
  | [] => []
  | c :: cs => s.uses c ++ (s.reply c).2.used cs

/-- A call that takes a key out of a cache. -/
def Call.drops (k : K) : Call K V → Prop
  | .remove k' => k' = k
  | .clear => True
  | .insert _ _ | .tryGet _ | .get _ | .assign _ _ | .contains _ | .size | .empty | .cwalk => False

/-- The keys of a cache are those of its table. -/
lemma Matches.contains_iff (h : Matches s t) {k : K} : contains s k = true ↔ k ∈ t.table.keys := by
  rw [contains]
  by_cases hk : k ∈ t.table.keys
  · obtain ⟨iter, v, hlookup, -⟩ := h.refines.found hk
    simp [hlookup, hk]
  · simp [h.refines.lookup_eq_none hk, hk]

/-- A key is used: in front of another one is at most one key more. -/
lemma before_touch {used : List K} (h : r.Before k used) (k' : K) (v : V) :
    (r.promote k' v).Before k (used ++ [k'].filter (· ≠ k)) := by
  by_cases hk : k' = k
  · subst hk
    exact Table.before_promote_self r k' v _
  · refine (Table.before_promote h hk v).mono fun x hx => ?_
    rw [List.filter_cons_of_pos (by simpa using hk), List.filter_nil]
    rcases List.mem_cons.mp hx with rfl | hx
    · exact List.mem_append_right _ List.mem_cons_self
    · exact List.mem_append_left _ hx

/-- A key that is in front of a cut stays. -/
lemma before_prune {used : List K} (h : t.table.Before k used)
    (hfew : t.maxSize = 0 ∨ used.dedup.length < t.maxSize.toNat) :
    (Spec.prune t).table.Before k used := by
  rcases spec_prune t with ⟨heq, -⟩ | ⟨heq, hlimit⟩
  · rwa [heq]
  · rw [heq]
    exact Table.before_cut h (hfew.resolve_left hlimit)

/-- **A call keeps a key** that it does not drop, when few others have been used since.

**Proof sketch.** One case for each call. Reading moves another key to the front, which counts as
used; a cut keeps the first `maxSize` pairs, and in front of the key there are fewer than that. -/
lemma Matches.before_reply (h : Matches s t) {used : List K} (hbefore : t.table.Before k used)
    {c : Call K V} (hkeep : ¬ c.drops k)
    (hfew : t.maxSize = 0 ∨
      (used ++ (s.uses c).filter (· ≠ k)).dedup.length < t.maxSize.toNat) :
    (Spec.reply t c).2.table.Before k (used ++ (s.uses c).filter (· ≠ k)) := by
  have hsame : t.table.Before k (used ++ (s.uses c).filter (· ≠ k)) :=
    hbefore.mono (List.subset_append_left _ _)
  have hfound : ∀ k', t.table.lookup k' = none → contains s k' = false := by
    intro k' hnone
    rw [← Bool.not_eq_true, h.contains_iff]
    intro hk
    obtain ⟨iter, v, -, hlookup, -⟩ := h.refines.found hk
    rw [hnone] at hlookup
    cases hlookup
  have hmem : ∀ k' v, t.table.lookup k' = some v → contains s k' = true := by
    intro k' v hv
    rw [h.contains_iff]
    by_contra hk
    rw [Table.lookup_eq_none hk] at hv
    cases hv
  cases c with
  | insert k' v =>
    have htouch := before_touch hbefore k' v
    simp only [Spec.reply]
    split
    · exact htouch
    · exact before_prune (t := Spec.touch t k' v) htouch hfew
  | tryGet k' | get k' =>
    simp only [Spec.reply]
    split
    · next v hv =>
      have htouch := before_touch hbefore k' v
      simpa only [State.uses, Spec.touch, hmem k' v hv, if_true] using htouch
    · exact hsame
  | assign k' v =>
    simp only [Spec.reply]
    split
    · next hk =>
      have htouch := before_touch hbefore k' v
      simpa only [State.uses, Spec.touch, h.contains_iff.mpr hk, if_true] using htouch
    · exact hsame
  | remove k' => exact Table.before_remove hsame fun heq => hkeep heq
  | clear => exact absurd trivial hkeep
  | contains k' => exact hsame
  | size => exact hsame
  | empty => exact hsame
  | cwalk => exact hsame

/-- A call that uses a key leaves it in front.

**Proof sketch.** Every call that uses a key moves it to the front, where a cut to one pair at
least keeps it. -/
lemma Matches.before_uses (h : Matches s t) {c : Call K V} (huse : k ∈ s.uses c) :
    (Spec.reply t c).2.table.Before k [] := by
  have hpos : t.maxSize = 0 ∨ ([] : List K).dedup.length < t.maxSize.toNat := by
    rw [or_iff_not_imp_left]
    intro hlimit
    rw [List.dedup_nil, List.length_nil, Nat.pos_iff_ne_zero]
    exact fun hzero => hlimit (BitVec.eq_of_toNat_eq (by simpa using hzero))
  have hread : ∀ k', k ∈ (if contains s k' then [k'] else []) →
      k = k' ∧ ∃ v, t.table.lookup k' = some v := by
    intro k' hmem
    by_cases hc : contains s k' = true
    · rw [if_pos hc, List.mem_singleton] at hmem
      obtain ⟨iter, v, -, hlookup, -⟩ := h.refines.found (h.contains_iff.mp hc)
      exact ⟨hmem, v, hlookup⟩
    · rw [if_neg hc] at hmem
      cases hmem
  cases c with
  | insert k' v =>
    obtain rfl : k = k' := List.mem_singleton.mp huse
    have hself := Table.before_promote_self t.table k v []
    simp only [Spec.reply]
    split
    · exact hself
    · exact before_prune (t := Spec.touch t k v) hself hpos
  | tryGet k' | get k' =>
    obtain ⟨rfl, v, hv⟩ := hread k' huse
    simp only [Spec.reply, hv]
    exact Table.before_promote_self t.table k v []
  | assign k' v =>
    obtain ⟨rfl, w, hw⟩ := hread k' huse
    have hk : k ∈ t.table.keys := by
      by_contra hk
      rw [Table.lookup_eq_none hk] at hw
      cases hw
    simp only [Spec.reply, if_pos hk]
    exact Table.before_promote_self t.table k v []
  | remove k' => cases huse
  | clear => cases huse
  | contains k' => cases huse
  | size => cases huse
  | empty => cases huse
  | cwalk => cases huse

/-- Calls keep a key that they do not drop, when few others are used.

**Proof sketch.** By induction on the calls. The keys in front of it are among those used, which
are fewer than the limit, so that pruning does not come to it. -/
lemma Matches.before_replies (h : Matches s t) {used : List K} (hbefore : t.table.Before k used)
    {cs : List (Call K V)} (hkeep : ∀ c ∈ cs, ¬ c.drops k)
    (hfew : t.maxSize = 0 ∨
      (used ++ (s.used cs).filter (· ≠ k)).dedup.length < t.maxSize.toNat) :
    contains (s.replies cs).2 k = true := by
  induction cs generalizing s t used with
  | nil =>
    obtain ⟨front, back, hkeys, -⟩ := hbefore
    rw [State.replies, h.contains_iff, hkeys]
    exact List.mem_append_right _ List.mem_cons_self
  | cons c cs ih =>
    rw [List.forall_mem_cons] at hkeep
    rw [State.used, List.filter_append, ← List.append_assoc] at hfew
    have hlimit := (spec_limits t c).1
    refine ih (h.reply c).2 (h.before_reply hbefore hkeep.1 ?_) hkeep.2 (by rwa [hlimit])
    refine hfew.imp_right fun hlt => Nat.lt_of_le_of_lt ?_ hlt
    refine (List.subperm_of_subset (List.nodup_dedup _) fun x hx => ?_).length_le
    exact List.mem_dedup.mpr (List.mem_append_left _ (List.mem_dedup.mp hx))

/-- **Which keys a cache keeps.** After any calls, a key that is inserted, read or assigned stays in
a cache through all further calls that do not remove it, as long as fewer other keys than the limit
are inserted, or found, by these.

**Proof sketch.** The keys in front of a key in the list have been used after it, and what is taken
from the back when there are too many keys leaves as many as the limit. -/
theorem used_keys_stay (maxSize elasticity : BitVec 64) (before : List (Call K V)) {c : Call K V}
    (huse : k ∈ ((State.new maxSize elasticity).replies before).2.uses c) {cs : List (Call K V)}
    (hkeep : ∀ c ∈ cs, ¬ c.drops k)
    (hfew : maxSize = 0 ∨
      ((((State.new maxSize elasticity).replies before).2.reply c).2.used cs |>.filter
        (· ≠ k)).dedup.length < maxSize.toNat) :
    contains ((((State.new maxSize elasticity).replies before).2.reply c).2.replies cs).2 k =
      true := by
  obtain ⟨-, hmatches⟩ := (Matches.new (K := K) (V := V) maxSize elasticity).replies before
  have hmax : (Spec.reply (Spec.replies ⟨Table.empty, maxSize, elasticity⟩ before).2 c).2.maxSize =
      maxSize := by
    rw [(spec_limits _ c).1]
    suffices h : ∀ (l : List (Call K V)) (t : Spec.State K V),
        (Spec.replies t l).2.maxSize = t.maxSize from h before _
    intro l
    induction l with
    | nil => exact fun _ => rfl
    | cons c l ih => exact fun t => (ih _).trans (spec_limits t c).1
  refine (hmatches.reply c).2.before_replies (hmatches.before_uses huse) hkeep ?_
  rw [hmax, List.nil_append]
  exact hfew

/-- The second key is used before one more is inserted and read, and stays. -/
theorem used_keys_stay_three :
    contains (((((State.new 2 1 : State ℕ ℕ).replies [.insert 1 10]).2.reply
      (.insert 2 20)).2.replies [.insert 3 30, .tryGet 3]).2) 2 = true :=
  used_keys_stay 2 1 [.insert 1 10] (by simp [State.uses]) (by simp [Call.drops]) (by decide)

end Lru11
