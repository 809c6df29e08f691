import Mathlib.Data.List.AList
import HkuUtils.Recency

set_option relaxedAutoImplicit false
set_option autoImplicit false

/-!
# The cache of `LRUCache11.h`

`lru11::Cache`: a list of the keys with their values, the one used last in front, and a map from the
keys to iterators into the list. A key that is found moves to the front. A new key comes to the
front, and when the cache has reached its limit and elasticity together, keys are taken from the
back until only the limit is left.

## Main definitions

* `Lru11.State` — the members of a cache.
* `Lru11.insert`, `tryGet`, `get`, `remove`, `clear`, `contains`, `cwalk` — the functions.
* `Lru11.Call`, `Reply`, `State.reply` — calls and what they return.
* `Lru11.Spec.reply` — the same over a table in the order of use.

## Design

An iterator is the address of its node, and each node has an address of its own. The map is an
association list without duplicate keys; nothing depends on its order. A reference that `get`
returns is used at once, to read or to assign. The lock is held through each function.
-/

namespace Lru11

open Recency

variable {K V : Type} [DecidableEq K]

/-- A node of `keys_`. -/
structure Node (K V : Type) where
  /-- What an iterator to the node holds. -/
  addr : ℕ
  key : K
  value : V

/-- The members of a cache. -/
structure State (K V : Type) where
  /-- `cache_`. -/
  cache : AList fun _ : K => ℕ
  /-- `keys_`, the front first. -/
  keys : List (Node K V)
  maxSize : BitVec 64
  elasticity : BitVec 64
  /-- The address of the next node. -/
  nextAddr : ℕ

namespace State

/-- A cache as it is constructed. -/
def new (maxSize elasticity : BitVec 64) : State K V := ⟨∅, [], maxSize, elasticity, 0⟩

/-- `cache_.size()`. -/
def size (s : State K V) : ℕ := s.cache.entries.length

/-- `maxSize_ + elasticity_`, a `size_t`. -/
def maxAllowed (s : State K V) : BitVec 64 := s.maxSize + s.elasticity

/-- `keys_.splice(keys_.begin(), keys_, iter)`. -/
def splice (s : State K V) (iter : ℕ) : State K V :=
  match s.keys.find? (·.addr = iter) with
  | some n => { s with keys := n :: s.keys.eraseP (·.addr = iter) }
  | none => s

/-- `iter->second->value = v`. -/
def assign (s : State K V) (iter : ℕ) (v : V) : State K V :=
  { s with keys := s.keys.map fun n => if n.addr = iter then { n with value := v } else n }

/-- `iter->second->value`. -/
def value (s : State K V) (iter : ℕ) : Option V := (s.keys.find? (·.addr = iter)).map Node.value

/-- `keys_.emplace_front(k, v)` and `cache_[k] = keys_.begin()`. -/
def emplace (s : State K V) (k : K) (v : V) : State K V :=
  { s with
    keys := ⟨s.nextAddr, k, v⟩ :: s.keys
    cache := s.cache.insert k s.nextAddr
    nextAddr := s.nextAddr + 1 }

end State

/-! ## The functions -/

/-- The loop of `prune` over the list from its back. The list has as many nodes as the map has keys,
so that it is not empty before the loop ends. -/
def pruneLoop (maxSize : ℕ) :
    List (Node K V) → (AList fun _ : K => ℕ) → List (Node K V) × AList fun _ : K => ℕ
  | [], cache => ([], cache)
  | n :: rest, cache =>
    if maxSize < cache.entries.length then pruneLoop maxSize rest (cache.erase n.key)
    else (n :: rest, cache)

/-- `prune`; the number of keys that it returns is not used. -/
def prune (s : State K V) : State K V :=
  if s.maxSize = 0 ∨ s.size < s.maxAllowed.toNat then s
  else
    let (rest, cache) := pruneLoop s.maxSize.toNat s.keys.reverse s.cache
    { s with keys := rest.reverse, cache := cache }

/-- Both overloads of `insert`. -/
def insert (s : State K V) (k : K) (v : V) : State K V :=
  match s.cache.lookup k with
  | some iter => (s.assign iter v).splice iter
  | none => prune (s.emplace k v)

/-- `tryGet`, with the value of `vOut` where it is assigned. -/
def tryGet (s : State K V) (k : K) : Option V × State K V :=
  match s.cache.lookup k with
  | some iter => ((s.splice iter).value iter, s.splice iter)
  | none => (none, s)

/-- `get`, with the iterator for the reference that it returns, or `none` for `KeyNotFound`. -/
def get (s : State K V) (k : K) : Option ℕ × State K V :=
  match s.cache.lookup k with
  | some iter => (some iter, s.splice iter)
  | none => (none, s)

/-- `remove`. -/
def remove (s : State K V) (k : K) : Bool × State K V :=
  match s.cache.lookup k with
  | some iter => (true, { s with
      keys := s.keys.eraseP (·.addr = iter)
      cache := s.cache.erase k })
  | none => (false, s)

/-- `clear`. -/
def clear (s : State K V) : State K V := { s with cache := ∅, keys := [] }

/-- `contains`. -/
def contains (s : State K V) (k : K) : Bool := (s.cache.lookup k).isSome

/-- What `cwalk` calls its function with. -/
def cwalk (s : State K V) : List (K × V) := s.keys.map fun n => (n.key, n.value)

/-! ## Calls -/

/-- The calls of a cache. A reference that `get` returns is read or written at once. -/
inductive Call (K V : Type) where
  | insert (k : K) (v : V)
  | tryGet (k : K)
  /-- `getCopy(k)`, or `get(k)` whose reference is read. -/
  | get (k : K)
  /-- `get(k) = v`. -/
  | assign (k : K) (v : V)
  | remove (k : K)
  | clear
  | contains (k : K)
  | size
  | empty
  | cwalk

/-- What a call returns. -/
inductive Reply (K V : Type) where
  | done
  | bool (b : Bool)
  /-- The value that is assigned to `vOut` or read; `none` for false and for `KeyNotFound`. -/
  | value (v : Option V)
  | number (n : ℕ)
  | nodes (l : List (K × V))

/-- What a call returns, and the cache afterwards. -/
def State.reply (s : State K V) : Call K V → Reply K V × State K V
  | .insert k v => (.done, insert s k v)
  | .tryGet k => (.value (tryGet s k).1, (tryGet s k).2)
  | .get k => (.value ((get s k).1.bind (get s k).2.value), (get s k).2)
  | .assign k v =>
    match get s k with
    | (some iter, t) => (.bool true, t.assign iter v)
    | (none, t) => (.bool false, t)
  | .remove k => (.bool (remove s k).1, (remove s k).2)
  | .clear => (.done, clear s)
  | .contains k => (.bool (contains s k), s)
  | .size => (.number s.size, s)
  | .empty => (.bool (s.size = 0), s)
  | .cwalk => (.nodes (cwalk s), s)

/-- What a list of calls returns, and the cache afterwards. -/
def State.replies (s : State K V) : List (Call K V) → List (Reply K V) × State K V
  | [] => ([], s)
  | c :: cs => ((s.reply c).1 :: ((s.reply c).2.replies cs).1, ((s.reply c).2.replies cs).2)

/-! ## The table -/

namespace Spec

/-- A table with its two limits. -/
structure State (K V : Type) where
  table : Table K V
  maxSize : BitVec 64
  elasticity : BitVec 64

/-- The keys in front stay when there are too many. -/
def prune (s : State K V) : State K V :=
  if s.maxSize = 0 ∨ s.table.entries.length < (s.maxSize + s.elasticity).toNat then s
  else { s with table := s.table.cut s.maxSize.toNat }

/-- A key that is found comes to the front. -/
def touch (s : State K V) (k : K) (v : V) : State K V := { s with table := s.table.promote k v }

/-- What a call returns, and the table afterwards. -/
def reply (s : State K V) : Call K V → Reply K V × State K V
  | .insert k v =>
    (.done, if k ∈ s.table.keys then touch s k v else prune (touch s k v))
  | .tryGet k | .get k =>
    match s.table.lookup k with
    | some v => (.value (some v), touch s k v)
    | none => (.value none, s)
  | .assign k v =>
    if k ∈ s.table.keys then (.bool true, touch s k v) else (.bool false, s)
  | .remove k => (.bool (k ∈ s.table.keys), { s with table := s.table.remove k })
  | .clear => (.done, { s with table := Table.empty })
  | .contains k => (.bool (k ∈ s.table.keys), s)
  | .size => (.number s.table.entries.length, s)
  | .empty => (.bool (s.table.entries.length = 0), s)
  | .cwalk => (.nodes s.table.entries, s)

/-- What a list of calls returns, and the table afterwards. -/
def replies (s : State K V) : List (Call K V) → List (Reply K V) × State K V
  | [] => ([], s)
  | c :: cs => ((reply s c).1 :: (replies (reply s c).2 cs).1, (replies (reply s c).2 cs).2)

end Spec

end Lru11
