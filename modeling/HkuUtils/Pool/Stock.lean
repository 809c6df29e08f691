import Mathlib.Data.Finset.Insert
import HkuUtils.Custody
import HkuUtils.Pool.Basic

set_option relaxedAutoImplicit false
set_option autoImplicit false

/-!
# The stock of resources of a pool

Each of the four classes counts the resources that it has constructed and not deleted, keeps some
of them in a queue and lends the others to its callers. This file has the moves of a resource
between these places, and the account that they keep.

## Main definitions

* `HkuUtils.Stock` — the count, the queue, the handles of the callers and what was deleted.
* `HkuUtils.Stock.Balanced` — they agree.
* `HkuUtils.Stock.Tracks` — a set of closers is that of the handles.

## Main results

* `HkuUtils.Stock.Balanced.pop_lend`, `pop_discard`, `construct_lend`, `drop_push`,
  `drop_discard`, `flush` — the moves that the classes make keep the balance.
* `HkuUtils.Stock.flush_of_nil`, `flush_of_cons` — the queue deleted one by one.
* `HkuUtils.Stock.Tracks.lend`, `drop` — and those that keep track of the closers.
-/

namespace HkuUtils

open Custody

variable {P : Type}

/-- **The resources of a pool and its callers.** This part is common to all pools: what is counted,
what is idle, what is lent, and what was deleted. -/
structure Stock (P : Type) where
  /-- `m_count`. -/
  count : ℤ
  /-- `m_resourceList`, the front first. -/
  resourceList : List (Resource P)
  /-- The handles that callers hold. -/
  handles : List (Handle P)
  /-- How many resources were constructed. -/
  made : ℕ
  /-- The addresses that were deleted, each as often as that happened. -/
  deleted : List ℕ
  deriving DecidableEq

namespace Stock

/-- An empty stock. -/
def empty : Stock P := ⟨0, [], [], 0, []⟩

/-- The front is off the queue, `rest` stays on it. -/
def pop (s : Stock P) (rest : List (Resource P)) : Stock P := { s with resourceList := rest }

/-- `p` is deleted and the count decremented. -/
def discard (s : Stock P) (p : Resource P) : Stock P :=
  { s with count := s.count - 1, deleted := p.ptr :: s.deleted }

/-- `ResourcePtr(p, ResourceCloser(this))` goes to the caller of the call `c`. -/
def lend (s : Stock P) (c : ℕ) (p : Resource P) : Stock P :=
  { s with handles := ⟨c, p, true⟩ :: s.handles }

/-- A resource is constructed and the count incremented. -/
def construct (s : Stock P) : Stock P := { s with made := s.made + 1, count := s.count + 1 }

/-- The handle with the closer `c` is gone. -/
def drop (s : Stock P) (c : ℕ) : Stock P :=
  { s with handles := s.handles.eraseP (·.closer = c) }

/-- `p` goes to the back of the queue. -/
def push (s : Stock P) (p : Resource P) : Stock P :=
  { s with resourceList := s.resourceList ++ [p] }

/-- The whole queue is deleted, the front first. -/
def flush (s : Stock P) : Stock P :=
  { s with
    resourceList := []
    count := s.count - s.resourceList.length
    deleted := (s.resourceList.map (·.ptr)).reverse ++ s.deleted }

/-- Nothing is in an empty queue. -/
lemma flush_of_nil {s : Stock P} (hs : s.resourceList = []) : s.flush = s := by
  obtain ⟨_, list, _, _, _⟩ := s
  obtain rfl : list = [] := hs
  simp [flush]

/-- The front is deleted, and then the rest of the queue. -/
lemma flush_of_cons {s : Stock P} {p : Resource P} {rest : List (Resource P)}
    (hs : s.resourceList = p :: rest) : ((s.pop rest).discard p).flush = s.flush := by
  simp only [flush, discard, pop, hs, List.map_cons, List.reverse_cons, List.append_assoc,
    List.singleton_append, List.length_cons, Nat.cast_add, Nat.cast_one, Stock.mk.injEq, and_true]
  omega

/-- The count is the number of resources in the queue and in handles, and each resource
constructed so far is at one place of the queue, in one handle, or deleted once. -/
structure Balanced (s : Stock P) : Prop where
  count_eq : s.count = s.resourceList.length + s.handles.length
  accounted : Accounted (List.range s.made) (s.resourceList.map (·.ptr))
    (s.handles.map (·.res.ptr)) s.deleted
  /-- The closer of each handle is bound to the pool. -/
  bound : ∀ hd ∈ s.handles, hd.bound = true

/-- The closers of the handles that are left when one is dropped. -/
lemma closers_drop (s : Stock P) (c : ℕ) :
    (s.drop c).handles.map (·.closer) = (s.handles.map (·.closer)).erase c := by
  rw [List.erase_eq_eraseP', List.eraseP_map]
  simp only [drop]
  congr 2

/-- Unbinding closers does not move them. -/
lemma closers_unbind (set : Finset ℕ) (handles : List (Handle P)) :
    (handles.map fun h => if h.closer ∈ set then { h with bound := false } else h).map (·.closer) =
      handles.map (·.closer) := by
  rw [List.map_map]
  refine List.map_congr_left fun h _ => ?_
  rw [Function.comp_apply]
  split <;> rfl

namespace Balanced

variable {s : Stock P} {p : Resource P} {rest : List (Resource P)} {c : ℕ}

/-- An empty stock is balanced. -/
lemma empty : Balanced (Stock.empty : Stock P) := ⟨rfl, Accounted.empty, by simp [Stock.empty]⟩

/-- The idle resource at the front is lent. -/
lemma pop_lend (h : s.Balanced) (hs : s.resourceList = p :: rest) :
    ((s.pop rest).lend c p).Balanced := by
  obtain ⟨hcount, hacc, hbound⟩ := h
  rw [hs] at hcount hacc
  simp only [List.length_cons, Nat.cast_add, Nat.cast_one] at hcount
  refine ⟨?_, hacc.lend, ?_⟩
  · simp only [lend, pop, List.length_cons, Nat.cast_add, Nat.cast_one]
    omega
  · simpa [lend, pop] using hbound

/-- The idle resource at the front is deleted. -/
lemma pop_discard (h : s.Balanced) (hs : s.resourceList = p :: rest) :
    ((s.pop rest).discard p).Balanced := by
  obtain ⟨hcount, hacc, hbound⟩ := h
  rw [hs] at hcount hacc
  simp only [List.length_cons, Nat.cast_add, Nat.cast_one] at hcount
  refine ⟨?_, hacc.scrapIdle, hbound⟩
  simp only [discard, pop]
  omega

/-- A new resource is made and lent. -/
lemma construct_lend (h : s.Balanced) (hp : p.ptr = s.made) : (s.construct.lend c p).Balanced := by
  obtain ⟨hcount, hacc, hbound⟩ := h
  refine ⟨?_, ?_, ?_⟩
  · simp only [lend, construct, List.length_cons, Nat.cast_add, Nat.cast_one]
    omega
  · simp only [lend, construct, List.range_succ, List.map_cons, hp]
    exact hacc.make (by simp)
  · simpa [lend, construct] using hbound

/-- The account of what stays lent when a handle is dropped. -/
lemma find_handle (h : s.Balanced) {hd : Handle P}
    (hf : s.handles.find? (·.closer = c) = some hd) :
    s.handles.length = (s.drop c).handles.length + 1 ∧
      Accounted (List.range s.made) (s.resourceList.map (·.ptr))
        (hd.res.ptr :: (s.drop c).handles.map (·.res.ptr)) s.deleted ∧
      ∀ hd' ∈ (s.drop c).handles, hd'.bound = true := by
  have hperm := perm_cons_eraseP hf
  refine ⟨hperm.length_eq, h.accounted.congr_held (hperm.map (·.res.ptr)), fun hd' hmem => ?_⟩
  exact h.bound hd' (List.mem_of_mem_eraseP hmem)

/-- A handle is dropped and its resource goes to the back of the queue. -/
lemma drop_push (h : s.Balanced) {hd : Handle P}
    (hf : s.handles.find? (·.closer = c) = some hd) : ((s.drop c).push hd.res).Balanced := by
  obtain ⟨hlen, hacc, hbound⟩ := h.find_handle hf
  have hcount := h.count_eq
  refine ⟨?_, ?_, hbound⟩
  · simp only [push, drop, List.length_append, List.length_singleton, Nat.cast_add,
      Nat.cast_one] at hlen ⊢
    omega
  · simp only [push, List.map_append, List.map_singleton]
    exact hacc.giveBack

/-- A handle is dropped and its resource deleted. -/
lemma drop_discard (h : s.Balanced) {hd : Handle P}
    (hf : s.handles.find? (·.closer = c) = some hd) : ((s.drop c).discard hd.res).Balanced := by
  obtain ⟨hlen, hacc, hbound⟩ := h.find_handle hf
  have hcount := h.count_eq
  refine ⟨?_, hacc.scrapHeld, hbound⟩
  simp only [discard, drop] at hlen ⊢
  omega

/-- The whole queue is deleted. -/
lemma flush (h : s.Balanced) : s.flush.Balanced := by
  obtain ⟨hcount, hacc, hbound⟩ := h
  refine ⟨?_, ?_, hbound⟩
  · simp only [Stock.flush, List.length_nil, Nat.cast_zero]
    omega
  · have hflush := hacc.flush
    exact ⟨hflush.made_nodup, (((List.reverse_perm _).append_right _).append_left _).trans
      hflush.perm⟩

end Balanced

/-- `set` is the set of the closers of the handles. -/
def Tracks (s : Stock P) (set : Finset ℕ) : Prop := ∀ c, c ∈ set ↔ c ∈ s.handles.map (·.closer)

namespace Tracks

variable {s : Stock P} {set : Finset ℕ} {c : ℕ}

/-- A handle whose closer goes into the set. -/
lemma lend (h : s.Tracks set) (c : ℕ) (p : Resource P) : (s.lend c p).Tracks (insert c set) := by
  intro d
  simp only [Stock.lend, Finset.mem_insert, List.map_cons, List.mem_cons]
  rw [h d]

/-- A handle whose closer does not. -/
lemma not_lend (h : s.Tracks set) (hc : c ∉ s.handles.map (·.closer)) (p : Resource P) :
    ¬ (s.lend c p).Tracks set := by
  intro h'
  have hmem : c ∈ set := (h' c).mpr (by simp [Stock.lend])
  exact hc ((h c).mp hmem)

/-- A handle that is dropped and whose closer is taken out of the set. -/
lemma drop (h : s.Tracks set) (hnodup : (s.handles.map (·.closer)).Nodup) (c : ℕ) :
    (s.drop c).Tracks (set.erase c) := by
  intro d
  rw [s.closers_drop c, hnodup.mem_erase_iff, Finset.mem_erase, h d]

end Tracks

end Stock

end HkuUtils
