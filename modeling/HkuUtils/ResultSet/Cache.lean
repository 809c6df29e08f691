import HkuUtils.Paging
import HkuUtils.ResultSet.Model
import HkuUtils.Transition

set_option relaxedAutoImplicit false
set_option autoImplicit false

/-!
# The page in the buffer

`get` empties the buffer, fills it from the database and only then notes which page it holds. This
file says what the buffer holds over any sequence of calls of a result set and its iterators, if
each call of `batchLoad` may end with an exception.

## Main definitions

* `HkuUtils.ResultSet.Result` — the rows of a query, which do not change.
* `HkuUtils.ResultSet.Call`, `call` — the calls of a set and its iterators.
* `HkuUtils.ResultSet.accesses` — the sequences of calls in which any load may fail.
* `HkuUtils.ResultSet.Coherent`, `RightRows` — the buffer holds the page that is noted, and every
  row can be read.
* `HkuUtils.ResultSet.Harmless` — the failing loads that do no damage.

## Main results

* `HkuUtils.ResultSet.get_right` — `get` on a coherent buffer.
* `HkuUtils.ResultSet.coherent_loaded_iff` — what one load does to the buffer.
* `HkuUtils.ResultSet.always_coherent_iff` — the runs in which the buffer stays coherent.

## Design

An event is a call together with the outcome of the load that it may need: it succeeds, or it throws
after some of the rows. A call of an iterator that does not exist cannot happen.
-/

namespace HkuUtils.ResultSet

open Transition Paging Search

variable {R : Type} [Table R]

/-! ## Rows and calls -/

/-- The rows of a query in their order; without a connection there are none. They are distinct by
their ids, and their number is a `size_t`. -/
structure Result (R : Type) [Table R] where
  /-- The number of rows of a page. -/
  pageSize : ℕ
  /-- Whether the set has a connection. -/
  connect : Bool
  /-- The text of the query. -/
  sql : List UInt8
  /-- The rows. -/
  rows : List R
  pageSize_pos : 0 < pageSize
  nodup : (rows.map Table.id).Nodup
  length_lt : rows.length < 2 ^ 64
  rows_eq_nil : connect = false → rows = []

namespace Result

variable (res : Result R)

/-- The rows of a page. -/
def page (p : ℕ) : List R := Paging.page res.pageSize p res.rows

/-- What a load pushes back: all rows of the page, or some of them before an exception. -/
def load (fails : Option ℕ) (p : ℕ) : Answer R :=
  fails.elim ⟨res.page p, false⟩ fun k => ⟨(res.page p).take k, true⟩

/-- A page that is loaded without an error. -/
@[simp]
lemma load_none (p : ℕ) : res.load none p = ⟨res.page p, false⟩ := rfl

/-- A page that is cut off by an error. -/
@[simp]
lemma load_some (k p : ℕ) : res.load (some k) p = ⟨(res.page p).take k, true⟩ := rfl

/-- Without a connection there are no rows. -/
lemma page_eq_nil (h : res.connect = false) (p : ℕ) : res.page p = [] := by
  simp [page, Paging.page, res.rows_eq_nil h]

/-- Different pages have no row in common. -/
lemma disjoint_page {p q : ℕ} (hpq : p ≠ q) : (res.page p).Disjoint (res.page q) :=
  Paging.disjoint_page (List.Nodup.of_map _ res.nodup) hpq

end Result

/-- A result set with its iterators. -/
structure State (R : Type) where
  /-- The set. -/
  set : SQLResultSet R
  /-- The iterators. -/
  iterators : List (Iterator R)
  deriving DecidableEq, Repr

/-- The calls of a result set and its iterators, which are numbered. -/
inductive Call where
  | subscript (index : UInt64)
  | at_ (index : UInt64)
  | begin
  | end_
  | copy (other : ℕ)
  | assign (self other : ℕ)
  | increment (self : ℕ)
  deriving DecidableEq, Repr

/-- The state after an iterator has been made, or the constructor has thrown. -/
def State.push (s : State R) : Except Exception (Iterator R) × SQLResultSet R → State R
  | (.ok it, t) => ⟨t, s.iterators ++ [it]⟩
  | (.error _, t) => ⟨t, s.iterators⟩

/-- The state after a call. Calls that read a row load its page if that is not the one in memory. -/
def call (res : Result R) (load : ℕ → Answer R) (s : State R) : Call → Option (State R)
  | .subscript i => some { s with set := (get res.pageSize load i.toNat s.set).2 }
  | .at_ i => some { s with set := (at_ res.pageSize load i.toNat s.set).2 }
  | .begin => some (s.push (iterator res.pageSize load 0 s.set))
  | .end_ => some (s.push (iterator res.pageSize load nullSize s.set))
  | .copy j => s.iterators[j]?.map fun it => { s with iterators := s.iterators ++ [copy it] }
  | .assign j k =>
    s.iterators[j]?.bind fun it => s.iterators[k]?.map fun other =>
      if j = k then s else { s with iterators := s.iterators.set j (assign it other) }
  | .increment j =>
    s.iterators[j]?.map fun it =>
      let t := (increment res.pageSize load (s.set, it)).2
      ⟨t.1, s.iterators.set j t.2⟩

/-- The state before any call. -/
def Result.start (res : Result R) : State R := ⟨construct res.connect res.sql, []⟩

/-- The sequences of calls in which a load may fail after some rows. -/
def accesses (res : Result R) : System (State R) (Call × Option ℕ) where
  init := res.start
  step s e := call res (res.load e.2) s e.1

/-! ## The index that a call needs -/

/-- The index that a call reads, or `nullSize`. -/
def Call.index (s : State R) : Call → ℕ
  | .subscript i => i.toNat
  | .at_ i => i.toNat
  | .begin => 0
  | .increment j =>
    s.iterators[j]?.elim nullSize fun it => if it.index = nullSize then nullSize else it.index + 1
  | _ => nullSize

/-- **The set after a call**: the page of the index has been loaded, unless it is in the buffer.

**Proof sketch.** One case for each call. Each of them looks at one index, once or twice; the
second look finds the page in the buffer. -/
lemma set_of_call {res : Result R} {load : ℕ → Answer R} {s t : State R} {c : Call}
    (h : call res load s c = some t) :
    t.set = if c.index s = nullSize then s.set
      else s.set.loaded load (c.index s / res.pageSize) := by
  cases c with
  | subscript i =>
    obtain rfl := Option.some.inj h
    exact get_snd i.toNat s.set
  | at_ i =>
    obtain rfl := Option.some.inj h
    exact (at_snd s.set).trans (get_snd i.toNat s.set)
  | begin =>
    obtain rfl := Option.some.inj h
    have hindex : Call.index s .begin = 0 := rfl
    rw [iterator_apply (by decide : 0 ≠ nullSize), hindex, ← get_snd]
    rcases get res.pageSize load 0 s.set with ⟨_ | _, _⟩ <;> rfl
  | end_ =>
    obtain rfl := Option.some.inj h
    rfl
  | copy j =>
    obtain ⟨it, -, rfl⟩ := Option.map_eq_some_iff.mp h
    rfl
  | assign j k =>
    obtain ⟨it, -, h⟩ := Option.bind_eq_some_iff.mp h
    obtain ⟨other, -, rfl⟩ := Option.map_eq_some_iff.mp h
    split <;> rfl
  | increment j =>
    obtain ⟨it, hj, rfl⟩ := Option.map_eq_some_iff.mp h
    have hindex : Call.index s (.increment j) =
        if it.index = nullSize then nullSize else it.index + 1 := by
      show s.iterators[j]?.elim nullSize _ = _
      rw [hj, Option.elim_some]
    rw [hindex]
    by_cases hit : it.index = nullSize
    · rw [increment_end hit, if_pos hit]
      rfl
    · rw [increment_apply hit, if_neg hit]
      exact get_snd (it.index + 1) s.set

/-! ## Coherence -/

/-- The buffer holds exactly the rows of the page that is noted. -/
def Coherent (res : Result R) (s : SQLResultSet R) : Prop :=
  s.currentPage ≠ nullSize → s.buffer = res.page s.currentPage

/-- If no load fails, `get` returns every row. -/
def RightRows (res : Result R) (s : SQLResultSet R) : Prop :=
  ∀ i : UInt64, ∀ r, res.rows[i.toNat]? = some r →
    (get res.pageSize (res.load none) i.toNat s).1 = .ok r

/-- What no call changes: without a connection the buffer stays empty. -/
structure Belongs (res : Result R) (s : SQLResultSet R) : Prop where
  connect : s.connect = res.connect
  buffer : res.connect = false → s.buffer = []

/-- A new set. -/
lemma belongs_start (res : Result R) : Belongs res res.start.set := by
  obtain ⟨w, i, o, h⟩ := construct_eq (R := R) res.connect res.sql
  rw [Result.start, h]
  exact ⟨rfl, fun _ => rfl⟩

/-- A new set has noted no page. -/
lemma currentPage_start (res : Result R) : res.start.set.currentPage = nullSize := by
  obtain ⟨w, i, o, h⟩ := construct_eq (R := R) res.connect res.sql
  rw [Result.start, h]

/-- A load keeps what belongs to the set. -/
lemma Belongs.loaded {res : Result R} {s : SQLResultSet R} (h : Belongs res s)
    (load : ℕ → Answer R) (p : ℕ) : Belongs res (s.loaded load p) := by
  refine ⟨by rw [SQLResultSet.connect_loaded, h.connect], fun hcon => ?_⟩
  have hs : s.connect = false := h.connect.trans hcon
  rw [SQLResultSet.loaded, if_neg (by simp [hs])]
  exact h.buffer hcon

/-- A page that a call needs is not `nullSize`. -/
lemma page_ne_nullSize {index : ℕ} (hindex : index < nullSize) (pageSize : ℕ) :
    index / pageSize ≠ nullSize :=
  Nat.ne_of_lt (Nat.lt_of_le_of_lt (Nat.div_le_self index pageSize) hindex)

section Load

variable {res : Result R} {s : SQLResultSet R} {load : ℕ → Answer R} {p : ℕ}

/-- A set that needs no load for a page holds this page. -/
lemma buffer_of_held (hs : Belongs res s) (hco : Coherent res s) (hp : p ≠ nullSize)
    (h : ¬ (s.connect = true ∧ p ≠ s.currentPage)) : s.buffer = res.page p := by
  cases hcon : res.connect with
  | true =>
    have hcur : p = s.currentPage := by
      by_contra hne
      exact h ⟨hs.connect.trans hcon, hne⟩
    rw [hco (hcur ▸ hp), ← hcur]
  | false => rw [hs.buffer hcon, res.page_eq_nil hcon]

/-- A load that succeeds puts the page into the buffer. -/
lemma buffer_loaded (hs : Belongs res s) (hco : Coherent res s) (hp : p ≠ nullSize)
    (hload : load p = ⟨res.page p, false⟩) : (s.loaded load p).buffer = res.page p := by
  rw [SQLResultSet.loaded]
  split
  next => rw [hload]
  next hheld => exact buffer_of_held hs hco hp hheld

/-- A load that succeeds keeps the buffer coherent. -/
lemma Coherent.loaded (hco : Coherent res s) (hload : load p = ⟨res.page p, false⟩) :
    Coherent res (s.loaded load p) := by
  rw [SQLResultSet.loaded, hload]
  split
  next => exact fun _ => rfl
  next => exact hco

/-- **One load.** The buffer stays coherent unless a load throws while a page is noted: this page
is still noted afterwards, but its rows are gone.

**Proof sketch.** A load without a failure is coherent. One that fails leaves the page that was
noted with the rows of another one, and pages have no rows in common, so both have to be empty. -/
theorem coherent_loaded_iff (hco : Coherent res s) (fails : Option ℕ) :
    Coherent res (s.loaded (res.load fails) p) ↔
      ∀ k, fails = some k → s.connect = true → p ≠ s.currentPage →
        s.currentPage = nullSize ∨ res.page s.currentPage = [] ∧ (res.page p).take k = [] := by
  cases fails with
  | none => simpa using hco.loaded (res.load_none p)
  | some k =>
    rw [SQLResultSet.loaded]
    split
    next hneeds =>
      have hiff : (res.page p).take k = res.page s.currentPage ↔
          res.page s.currentPage = [] ∧ (res.page p).take k = [] := by
        refine ⟨fun h => ?_, fun h => h.2.trans h.1.symm⟩
        have hnil : res.page s.currentPage = [] := by
          refine List.eq_nil_iff_forall_not_mem.mpr fun r hr => ?_
          exact res.disjoint_page hneeds.2 (List.mem_of_mem_take (h ▸ hr)) hr
        exact ⟨hnil, h.trans hnil⟩
      simp only [Result.load_some, if_true, Coherent, Option.some.injEq, forall_eq', hneeds.1,
        hneeds.2, ne_eq, not_false_eq_true, forall_const, ← hiff]
      exact Decidable.imp_iff_not_or.trans (by rw [Decidable.not_not])
    next hheld =>
      refine ⟨fun _ _ _ hcon hp => absurd ⟨hcon, hp⟩ hheld, fun _ => hco⟩

/-- **Reading from a coherent buffer.** If the page of the index can be loaded, `get` returns the
row with this index, or an invalid one if there is none. -/
theorem get_right {index : ℕ} (hs : Belongs res s) (hco : Coherent res s)
    (hindex : index < nullSize)
    (hload : load (index / res.pageSize) = ⟨res.page (index / res.pageSize), false⟩) :
    get res.pageSize load index s =
      (.ok (res.rows[index]?.getD Table.null), s.loaded load (index / res.pageSize)) := by
  have hfails : ¬ s.fails load (index / res.pageSize) := by
    rintro ⟨-, -, h⟩
    rw [hload] at h
    exact Bool.false_ne_true h
  rw [get_apply hindex.ne, if_neg hfails,
    buffer_loaded hs hco (page_ne_nullSize hindex _) hload, List.getD_eq_getElem?_getD,
    Result.page, getElem?_page res.pageSize_pos]

end Load

/-- A coherent buffer gives every row. -/
lemma Coherent.rightRows {res : Result R} {s : SQLResultSet R} (hs : Belongs res s)
    (h : Coherent res s) : RightRows res s := by
  intro i r hr
  obtain ⟨hi, -⟩ := List.getElem?_eq_some_iff.mp hr
  have hlt : i.toNat < nullSize := by
    have := res.length_lt
    unfold nullSize
    omega
  rw [get_right hs h hlt rfl, hr]
  rfl

/-! ## Runs -/

/-- A load that throws does no damage if no page is noted, or if the noted page is empty and nothing
has been pushed back. -/
def Harmless (res : Result R) (s : State R) (e : Call × Option ℕ) : Prop :=
  e.1.index s ≠ nullSize → ∀ k, e.2 = some k → s.set.connect = true →
    e.1.index s / res.pageSize ≠ s.set.currentPage →
      s.set.currentPage = nullSize ∨
        res.page s.set.currentPage = [] ∧ (res.page (e.1.index s / res.pageSize)).take k = []

/-- Every call keeps what belongs to the set. -/
lemma Belongs.call {res : Result R} {load : ℕ → Answer R} {s t : State R} {c : Call}
    (hs : Belongs res s.set) (h : call res load s c = some t) : Belongs res t.set := by
  rw [set_of_call h]
  split
  · exact hs
  · exact hs.loaded load _

/-- What a call does to the buffer. -/
lemma coherent_call_iff {res : Result R} {s t : State R} {e : Call × Option ℕ}
    (hco : Coherent res s.set) (h : (accesses res).step s e = some t) :
    Coherent res t.set ↔ Harmless res s e := by
  have hset := set_of_call h
  by_cases hindex : e.1.index s = nullSize
  · rw [if_pos hindex] at hset
    rw [hset]
    exact ⟨fun _ hne => absurd hindex hne, fun _ => hco⟩
  · rw [if_neg hindex] at hset
    rw [hset, coherent_loaded_iff hco]
    exact ⟨fun h _ => h, fun h => h hindex⟩

/-- **The page cache.** In a sequence of calls in which any load may throw, the buffer always holds
the page that is noted, and every row can always be read, exactly if each load that throws finds no
page noted, or an empty one and has pushed nothing back.

**Proof sketch.** With a coherent buffer every row can be read, and a call keeps it coherent
exactly if it is harmless, by `coherent_call_iff`; this is the rule for exact conditions. -/
theorem always_coherent_iff (res : Result R) {es : List (Call × Option ℕ)} {s : State R}
    (hrun : (accesses res).run es = some s) :
    (accesses res).Always (fun s => Coherent res s.set ∧ RightRows res s.set) es ↔
      (accesses res).Along (Harmless res) es := by
  have hstart : Coherent res res.start.set := fun h => absurd (currentPage_start res) h
  refine System.always_iff_along (J := fun s => Belongs res s.set) (belongs_start res)
    ⟨hstart, hstart.rightRows (belongs_start res)⟩ (fun s e t hs hst => hs.call hst)
    (fun s e t hs hI hst => ?_) hrun
  rw [← coherent_call_iff hI.1 hst]
  exact ⟨fun h => h.1, fun h => ⟨h, h.rightRows (hs.call hst)⟩⟩

/-- Four rows in pages of two. -/
def fourRows : Result Plain where
  pageSize := 2
  connect := true
  sql := []
  rows := [⟨1⟩, ⟨2⟩, ⟨3⟩, ⟨4⟩]
  pageSize_pos := by decide
  nodup := by decide
  length_lt := by decide
  rows_eq_nil := by decide

/-- The set of `fourRows` with the first page noted. -/
def firstPage (buffer : List Plain) : State Plain :=
  ⟨⟨true, buffer, text "1=1", text "ORDER BY id", [], 0⟩, []⟩

/-- A load that throws before any page is noted. -/
theorem always_coherent_first :
    (accesses fourRows).Always (fun s => Coherent fourRows s.set ∧ RightRows fourRows s.set)
      [(.subscript 0, some 1), (.subscript 0, none)] := by
  refine (always_coherent_iff fourRows (s := firstPage [⟨1⟩, ⟨2⟩]) (by decide)).mpr ?_
  refine ⟨fun _ _ _ _ _ => .inl (by decide), fun t _ => ⟨fun _ k hk => ?_, ?_⟩⟩
  · cases hk
  · exact fun _ _ => trivial

/-- A load throws after one row of the second page, while the first page is noted: the row of the
second page is then returned for the first index. -/
theorem not_coherent_after_failure :
    (accesses fourRows).run [(.subscript 0, none), (.subscript 2, some 1)] =
        some (firstPage [⟨3⟩]) ∧
      ¬ Coherent fourRows (firstPage [⟨3⟩]).set ∧
      (get 2 (fourRows.load none) 0 (firstPage [⟨3⟩]).set).1 = .ok ⟨3⟩ ∧
      ¬ RightRows fourRows (firstPage [⟨3⟩]).set := by
  have hget : (get 2 (fourRows.load none) 0 (firstPage [⟨3⟩]).set).1 = .ok ⟨3⟩ := by
    decide
  refine ⟨by decide, fun h => ?_, hget, fun h => ?_⟩
  · have hbuffer : [⟨3⟩] = fourRows.page 0 := h (by decide)
    exact absurd hbuffer (by decide)
  · have hrow : (get 2 (fourRows.load none) 0 (firstPage [⟨3⟩]).set).1 = .ok ⟨1⟩ :=
      h 0 ⟨1⟩ (by decide)
    rw [hget] at hrow
    exact absurd hrow (by decide)

end HkuUtils.ResultSet
