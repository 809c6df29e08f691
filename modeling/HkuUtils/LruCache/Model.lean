import Mathlib.Data.BitVec
import Mathlib.Data.List.AList
import HkuUtils.Transition

set_option relaxedAutoImplicit false
set_option autoImplicit false

/-!
# The LRU cache

`LruCache` of `LruCache.h`. The list of keys is ordered by use, but a lookup under a shared lock
cannot reorder it: it leaves a dirty mark, and the next `insert` moves one marked key to the
front. A cache may grow beyond its capacity by the overflow before it is cut back.

## Main definitions

* `HkuUtils.LruCache.State` — the members of a cache.
* `HkuUtils.LruCache.batchUpdateDirtyNodes`, `pruneIfNeeded` — the private functions.
* `HkuUtils.LruCache.insert`, `insertMove`, `get`, `tryGet`, `contains`, `remove`, `clear`,
  `resize`, `setOverflow` — the functions of the class.
* `HkuUtils.LruCache.Event`, `system` — a cache as a transition system.

## Design

A `std::list` iterator is the address of its node, and each node gets an address of its own. The
hash map is an association list without duplicate keys; nothing depends on its order. Each
function holds the lock from its first line to its last, so it is one step.
-/

namespace HkuUtils.LruCache

open Transition

variable {K V : Type} [DecidableEq K]

/-- A node of `m_lru_list`. -/
structure Node (K : Type) where
  /-- What an iterator to the node holds. -/
  addr : ℕ
  key : K
  deriving DecidableEq, Repr

/-- The value type of `m_cache`: an iterator, a value and its dirty mark. -/
structure Entry (V : Type) where
  iter : ℕ
  value : V
  dirty : Bool
  deriving DecidableEq, Repr

/-- The members of a cache. The list has its nodes at addresses, which the entries point to. -/
structure State (K V : Type) where
  /-- `m_capacity`. -/
  capacity : BitVec 64
  /-- `m_overflow`. -/
  overflow : BitVec 64
  /-- `m_lru_list`, the front first. -/
  lruList : List (Node K)
  /-- `m_cache`. -/
  cache : AList fun _ : K => Entry V
  /-- The address of the next node. -/
  nextAddr : ℕ

namespace State

/-- `m_cache.size()`. -/
def size (s : State K V) : ℕ := s.cache.entries.length

/-- `m_capacity + m_overflow`, a `size_t`. -/
def maxAllowed (s : State K V) : BitVec 64 := s.capacity + s.overflow

/-- `m_lru_list.splice(m_lru_list.begin(), m_lru_list, iter)`. -/
def spliceToFront (s : State K V) (iter : ℕ) : State K V :=
  match s.lruList.find? (·.addr = iter) with
  | some n => { s with lruList := n :: s.lruList.eraseP (·.addr = iter) }
  | none => s

/-- The entry of a key is written. -/
def store (s : State K V) (key : K) (e : Entry V) : State K V :=
  { s with cache := s.cache.insert key e }

/-- `m_lru_list.emplace_front(key)`, and `m_cache.emplace` with an iterator to the new node. -/
def emplace (s : State K V) (key : K) (value : V) : State K V :=
  { s with
    lruList := ⟨s.nextAddr, key⟩ :: s.lruList
    cache := s.cache.insert key ⟨s.nextAddr, value, false⟩
    nextAddr := s.nextAddr + 1 }

end State

/-! ## The private functions -/

/-- The loop of `_prune_if_needed` over the list from its back. The list has as many nodes as the
map has keys, so it does not run empty before the loop ends. -/
def pruneLoop (capacity : ℕ) :
    List (Node K) → (AList fun _ : K => Entry V) → List (Node K) × AList fun _ : K => Entry V
  | [], cache => ([], cache)
  | n :: rest, cache =>
    if capacity < cache.entries.length then pruneLoop capacity rest (cache.erase n.key)
    else (n :: rest, cache)

/-- `_prune_if_needed`; the number of removed entries that it returns is not used. -/
def pruneIfNeeded (s : State K V) : State K V :=
  if s.capacity = 0 ∨ s.size ≤ s.maxAllowed.toNat then s
  else
    let (rest, cache) := pruneLoop s.capacity.toNat s.lruList.reverse s.cache
    { s with lruList := rest.reverse, cache := cache }

/-- `_batch_update_dirty_nodes`: the marked node that is nearest to the back goes to the front
and loses its mark. -/
def batchUpdateDirtyNodes (s : State K V) : State K V :=
  match s.lruList.reverse.find? fun n => (s.cache.lookup n.key).any (·.dirty) with
  | none => s
  | some n =>
    match s.cache.lookup n.key with
    | none => s
    | some e => (s.store n.key { e with dirty := false }).spliceToFront n.addr

/-! ## The functions of the class -/

/-- `insert(const key_type&, const value_type&)`. -/
def insert (s : State K V) (key : K) (value : V) : State K V :=
  let s := batchUpdateDirtyNodes s
  match s.cache.lookup key with
  | some e => (s.store key ⟨e.iter, value, false⟩).spliceToFront e.iter
  | none => pruneIfNeeded (s.emplace key value)

/-- `insert(const key_type&, value_type&&)`, which has the same body; what it leaves of the
caller's value is not part of the cache. -/
def insertMove (s : State K V) (key : K) (value : V) : State K V := insert s key value

/-- `get`. -/
def get [Inhabited V] (s : State K V) (key : K) : V × State K V :=
  match s.cache.lookup key with
  | some e => (e.value, s.store key { e with dirty := true })
  | none => (default, s)

/-- `tryGet`: the result, the argument `value` afterwards, and the cache. -/
def tryGet (s : State K V) (key : K) (value : V) : Bool × V × State K V :=
  match s.cache.lookup key with
  | some e => (true, e.value, s.store key { e with dirty := true })
  | none => (false, value, s)

/-- `contains`. -/
def contains (s : State K V) (key : K) : Bool := (s.cache.lookup key).isSome

/-- `remove`. -/
def remove (s : State K V) (key : K) : Bool × State K V :=
  match s.cache.lookup key with
  | some e =>
    (true, { s with
      lruList := s.lruList.eraseP (·.addr = e.iter)
      cache := s.cache.erase key })
  | none => (false, s)

/-- `clear`. -/
def clear (s : State K V) : State K V := { s with lruList := [], cache := ∅ }

/-- `resize`. -/
def resize (s : State K V) (capacity : BitVec 64) : State K V :=
  pruneIfNeeded { s with capacity := capacity }

/-- `setOverflow`. -/
def setOverflow (s : State K V) (overflow : BitVec 64) : State K V :=
  pruneIfNeeded { s with overflow := overflow }

/-! ## The cache as a transition system -/

/-- A call of a function of the class. The class has one mutex, so the calls of several threads are
a sequence as well. -/
inductive Event (K V : Type) where
  | insert (key : K) (value : V)
  | insertMove (key : K) (value : V)
  | get (key : K)
  | tryGet (key : K) (value : V)
  | contains (key : K)
  | remove (key : K)
  | clear
  | resize (capacity : BitVec 64)
  | setOverflow (overflow : BitVec 64)

/-- The cache after a call. -/
def apply [Inhabited V] (s : State K V) : Event K V → State K V
  | .insert key value => insert s key value
  | .insertMove key value => insertMove s key value
  | .get key => (get s key).2
  | .tryGet key value => (tryGet s key value).2.2
  | .contains _ => s
  | .remove key => (remove s key).2
  | .clear => clear s
  | .resize capacity => resize s capacity
  | .setOverflow overflow => setOverflow s overflow

/-- A cache after its constructor. -/
def State.init (capacity overflow : BitVec 64) : State K V where
  capacity := capacity
  overflow := overflow
  lruList := []
  cache := ∅
  nextAddr := 0

/-- The runs of a cache. -/
def system [Inhabited V] (capacity overflow : BitVec 64) : System (State K V) (Event K V) where
  init := State.init capacity overflow
  step s e := some (apply s e)

end HkuUtils.LruCache
