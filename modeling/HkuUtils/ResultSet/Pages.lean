import Mathlib.Data.Fintype.Card
import HkuUtils.ResultSet.Cache
import HkuUtils.ResultSet.Split

set_option relaxedAutoImplicit false
set_option autoImplicit false

/-!
# Paging through a query

`size` counts the rows, `getPageCount` rounds the number of pages up, `getPage` reads one of them
and `get` finds a row in its page. This file compares the four with the whole ordered result of the
query, for a database that reads the statements as it should.

## Main definitions

* `HkuUtils.ResultSet.Contents`, `Sorting` — the rows of a table, and an order whose last key is the
  id.
* `HkuUtils.ResultSet.loadTokens` — the tokens of the statement that reads a page.
* `HkuUtils.ResultSet.Understands` — what the database answers to statements with these tokens.
* `HkuUtils.ResultSet.PagesExactly` — the pages are the result of the query.

## Main results

* `HkuUtils.ResultSet.getPageCount_eq_iff` — when the number of pages is right.
* `HkuUtils.ResultSet.size_eq`, `answers_eq` — what a set reads whose text is taken apart.
* `HkuUtils.ResultSet.pagesExactly_iff` — when the pages are the result of the query.

## Design

The database is known by what it answers to well formed statements, which are compared by their
tokens: those that consist of the condition and the ordering of the query. It is not known what it
makes of other texts, except that it refuses a `where` that nothing follows. A page statement
selects the rows of the page by their ids. Without an outer `ORDER BY` clause, SQL leaves their
order to the database; this order is a parameter.
-/

namespace HkuUtils.ResultSet

open Search Sql

variable {R : Type} [Table R]

/-! ## Tables and orders -/

/-- The rows of a table: their ids are different and not zero. -/
structure Contents (R : Type) [Table R] where
  /-- The rows. -/
  rows : List R
  nodup : (rows.map Table.id).Nodup
  valid : ∀ r ∈ rows, valid r = true

/-- What an `ORDER BY` clause means whose last key is the id. -/
structure Sorting (R : Type) [Table R] where
  /-- The first row may come before the second. -/
  le : R → R → Bool
  le_trans : ∀ a b c, le a b = true → le b c = true → le a c = true
  le_total : ∀ a b, (le a b || le b a) = true
  id_eq : ∀ a b, le a b = true → le b a = true → Table.id a = Table.id b

/-- The whole result of a query, in its order. -/
def Contents.ordered (t : Contents R) (p : R → Bool) (o : Sorting R) : List R :=
  (t.rows.filter p).mergeSort o.le

/-- The tokens of the statement that reads a page. -/
def loadTokens (R : Type) [Table R] (pageSize offset : ℕ) (w inner outer : List Token) :
    List Token :=
  tokens (Table.selectSQL R) ++ tokens (text " where ") ++
    pageTokens R pageSize offset w inner outer

/-- **The database** holds a table. It counts the rows of the condition, which are those of `p`, and
brings the rows of a page in the order `o` of the outer clause, or arranged as it likes if there is
none. It refuses to count the rows of no condition at all. -/
structure Understands (pageSize : ℕ) (db : Database R) (t : Contents R)
    (arrange : List R → List R) (cond clause : List UInt8) (p : R → Bool) (o : Sorting R) :
    Prop where
  count : ∀ q, tokens q = countTokens R (intendedWhere cond) →
    db.numbers q = some [[(t.rows.filter p).length]]
  refuses : ∀ q, tokens q = countTokens R [] → db.numbers q = none
  sorted : ∀ q k, k * pageSize < 2 ^ 64 →
    tokens q = loadTokens R pageSize (k * pageSize) (intendedWhere cond) (intendedOrder clause)
      (intendedOrder clause) →
    db.select q = ⟨Paging.page pageSize k (t.ordered p o), false⟩
  arranged : ∀ q k, k * pageSize < 2 ^ 64 →
    tokens q = loadTokens R pageSize (k * pageSize) (intendedWhere cond) (intendedOrder clause) [] →
    db.select q = ⟨arrange (Paging.page pageSize k (t.ordered p o)), false⟩
  perm : ∀ rows, (arrange rows).Perm rows

/-- The set after some calls of `get`. -/
def afterGets (pageSize : ℕ) (load : ℕ → Answer R) (set : SQLResultSet R) (js : List UInt64) :
    SQLResultSet R :=
  js.foldl (fun set j => (get pageSize load j.toNat set).2) set

/-- **The methods of a set give the rows** `rows`, each of them once and in this order, whatever
rows have been read before. -/
structure PagesExactly (pageSize : ℕ) (db : Database R) (set : SQLResultSet R) (rows : List R) :
    Prop where
  size : size db set = .ok rows.length
  count : getPageCount pageSize db set = .ok (rows.length ⌈/⌉ pageSize)
  pages : ∃ f : ℕ → List R,
    (∀ k < rows.length ⌈/⌉ pageSize, getPage pageSize db set k = .ok (f k) ∧ f k ≠ []) ∧
      ((List.range (rows.length ⌈/⌉ pageSize)).map f).flatten = rows
  once : rows.Nodup
  get : ∀ (js : List UInt64) (i : UInt64), ∃ r,
    (get pageSize (set.answers db pageSize) i.toNat
        (afterGets pageSize (set.answers db pageSize) set js)).1 = .ok r ∧
      (∀ h : i.toNat < rows.length, r = rows[i.toNat]) ∧
      (rows.length ≤ i.toNat → HkuUtils.ResultSet.valid r = false)

/-! ## The result of a query -/

section Ordered

variable (t : Contents R) (p : R → Bool) (o : Sorting R)

/-- The result contains the rows that meet the condition. -/
lemma ordered_perm : (t.ordered p o).Perm (t.rows.filter p) := List.mergeSort_perm _ _

/-- The result is in order. -/
lemma ordered_pairwise : (t.ordered p o).Pairwise fun a b => o.le a b = true :=
  List.pairwise_mergeSort o.le_trans o.le_total _

/-- The ids of the result are different. -/
lemma nodup_ordered : ((t.ordered p o).map Table.id).Nodup := by
  refine ((ordered_perm t p o).map Table.id).nodup_iff.mpr ?_
  exact t.nodup.sublist (List.filter_sublist.map Table.id)

/-- Ids of 64 bits that are different and not zero are less than `2 ^ 64` ones. -/
lemma length_ordered_lt : (t.ordered p o).length < 2 ^ 64 := by
  have hnodup : (0 :: (t.ordered p o).map Table.id).Nodup := by
    refine List.nodup_cons.mpr ⟨fun hmem => ?_, nodup_ordered t p o⟩
    obtain ⟨r, hr, hid⟩ := List.mem_map.mp hmem
    have hvalid := t.valid r (List.mem_filter.mp ((ordered_perm t p o).mem_iff.mp hr)).1
    simp [valid, hid] at hvalid
  have hfin : ((0 :: (t.ordered p o).map Table.id).map UInt64.toFin).Nodup :=
    List.Nodup.map (fun a b h => UInt64.toFin_inj.mp h) hnodup
  have hcard := hfin.length_le_card
  simp only [List.length_map, List.length_cons, Fintype.card_fin] at hcard
  unfold UInt64.size at hcard
  omega

/-- Rows of the result that come before each other are equal. -/
lemma ordered_antisymm {a b : R} (ha : a ∈ t.ordered p o) (hb : b ∈ t.ordered p o)
    (hab : o.le a b = true) (hba : o.le b a = true) : a = b :=
  List.inj_on_of_nodup_map (nodup_ordered t p o) ha hb (o.id_eq a b hab hba)

end Ordered

/-! ## The number of pages -/

/-- **The number of pages** is always one more than the quotient, which is right exactly if the
size is not a multiple of the page size.

**Proof sketch.** The product of quotient and page size is never greater than the size, so one is
always added; this is the rounded quotient exactly if there is a remainder. -/
theorem getPageCount_eq_iff {pageSize n : ℕ} (hpage : 0 < pageSize) (hn : n < 2 ^ 64)
    {db : Database R} {set : SQLResultSet R} (hsize : size db set = .ok n) :
    getPageCount pageSize db set = .ok (n ⌈/⌉ pageSize) ↔ ¬ pageSize ∣ n := by
  have hcount : getPageCount pageSize db set = .ok ((n / pageSize + 1) % 2 ^ 64) := by
    rw [getPageCount, hsize]
    show Except.ok (if n / pageSize * pageSize > n then _ else _) = _
    rw [if_neg (Nat.not_lt.mpr (Nat.div_mul_le_self n pageSize))]
  rw [hcount, ← Paging.div_add_one_eq_ceilDiv_iff hpage, Except.ok.injEq]
  have hle : n / pageSize ≤ n := Nat.div_le_self n pageSize
  by_cases hlt : n / pageSize + 1 < 2 ^ 64
  · rw [Nat.mod_eq_of_lt hlt]
  · -- The number of pages overflows only for pages of one row.
    have hquot : n / pageSize = n := by omega
    have hone : pageSize = 1 := by
      have hn0 : 0 < n := by omega
      by_contra hne
      exact absurd (Nat.div_lt_self hn0 (by omega : 1 < pageSize)) (by omega)
    subst hone
    rw [ceilDiv_one]
    omega

/-! ## The pages -/

section Pages

variable {pageSize : ℕ} {set : SQLResultSet R} {t : Contents R} {p : R → Bool} {o : Sorting R}

/-- A page below the number of pages has a proper offset. -/
lemma offset_lt (hpage : 0 < pageSize) {k : ℕ} (hk : k < (t.ordered p o).length ⌈/⌉ pageSize) :
    k * pageSize < 2 ^ 64 := by
  have hlt : ¬ (t.ordered p o).length ≤ pageSize * k := by
    rw [← ceilDiv_le_iff_le_mul hpage]
    exact Nat.not_le.mpr hk
  have := length_ordered_lt t p o
  rw [Nat.mul_comm]
  omega

/-- The text of a page statement is not empty. -/
lemma pageText_ne_nil (set : SQLResultSet R) (k : ℕ) : set.pageText pageSize k ≠ [] := by
  intro h
  have := congrArg List.length h
  simp [SQLResultSet.pageText, text] at this

end Pages

section Query

variable {pageSize : ℕ} {t : Contents R} {db : Database R} {p : R → Bool} {o : Sorting R}
  {arrange : List R → List R} {sql cond clause : List UInt8}

omit [Table R] in
/-- A set that is made with a connection has it. -/
lemma connect_construct (sql : List UInt8) :
    (construct true sql : SQLResultSet R).connect = true := by
  obtain ⟨w, inner, outer, hconstruct⟩ := construct_eq (R := R) true sql
  rw [hconstruct]

/-- **The size of a set** whose text is taken apart is the number of rows of the query. -/
lemma size_eq (htable : Complete (after (Table.tableName R))) (hq : Query (trim sql) cond clause)
    (hdb : Understands pageSize db t arrange cond clause p o)
    (happart : TakenApart (trim sql) cond clause) :
    size db (construct true sql) = .ok (t.ordered p o).length := by
  have hwhere := (spells_of_takenApart (R := R) true hq happart).1
  rw [size, if_pos (connect_construct sql), queryNumber,
    hdb.count _ (spells_countStatement htable hwhere).tokens_eq, (ordered_perm t p o).length_eq]

/-- **What comes for a page** of a set whose text is taken apart: its rows, as the database
arranges them if there is no clause.

**Proof sketch.** The statement for the page has the tokens that were meant, with the clause at its
end if there is one. The database answers such a statement with the page, and arranges it only if
no order is asked for. -/
lemma answers_eq (htable : Complete (after (Table.tableName R)))
    (hselect : Complete (after (Table.selectSQL R))) (hq : Query (trim sql) cond clause)
    (hdb : Understands pageSize db t arrange cond clause p o)
    (happart : TakenApart (trim sql) cond clause) {k : ℕ} (hk : k * pageSize < 2 ^ 64) :
    (construct true sql).answers db pageSize k =
      ⟨if clause = [] then arrange (Paging.page pageSize k (t.ordered p o))
        else Paging.page pageSize k (t.ordered p o), false⟩ := by
  obtain ⟨hwhere, hinner, houter⟩ := spells_of_takenApart (R := R) true hq happart
  have htext := spells_pageText pageSize htable hwhere hinner houter k
  have hload : tokens (loadStatement R
      ((construct true sql : SQLResultSet R).pageText pageSize k)) =
      loadTokens R pageSize (k * pageSize) (intendedWhere cond) (intendedOrder clause)
        (if clause = [] then [] else intendedOrder clause) := by
    rw [Nat.mod_eq_of_lt hk] at htext
    rw [loadStatement, if_neg (pageText_ne_nil _ k)]
    exact (Spells.append_separator ⟨rfl, hselect⟩
      (separator_text (s := " where ") rfl (by decide) (by decide)) htext).tokens_eq
  rw [SQLResultSet.answers, batchLoad]
  split
  next hnil =>
    rw [if_pos hnil] at hload
    exact hdb.arranged _ k hk hload
  next hne =>
    rw [if_neg hne] at hload
    exact hdb.sorted _ k hk hload

/-- A clause without a condition: there is no number of rows. -/
lemma size_error (htable : Complete (after (Table.tableName R)))
    (hq : Query (trim sql) cond clause) (hne : clause ≠ [])
    (hlast : ¬ text "ORDER" <:+: (toUpper clause).tail) (hcond : tokens cond = [])
    (hdb : Understands pageSize db t arrange cond clause p o) :
    size db (construct true sql) = .error .sql := by
  have hprefix := (hq.isOrderBy.resolve_left hne).prefix_toUpper
  obtain ⟨c, _, hcons, hc, -⟩ := exists_cons_of_prefix hprefix
  have hbreaks : Breaks (after cond) c := hq.breaks c (by simp [hcons])
  have hwhere : Spells (construct true sql : SQLResultSet R).whereText [] := by
    rw [construct_of_last true hq.eq_append hprefix hlast]
    exact ⟨hcond, complete_of_breaks hc hbreaks⟩
  rw [size, if_pos (connect_construct sql), queryNumber,
    hdb.refuses _ (spells_countStatement htable hwhere).tokens_eq]

/-- The rows of the query, as a result in pages. What a result has to be is proved of the contents
once. -/
def Contents.result (t : Contents R) (p : R → Bool) (o : Sorting R) (hpage : 0 < pageSize)
    (sql : List UInt8) : Result R where
  pageSize := pageSize
  connect := true
  sql := sql
  rows := t.ordered p o
  pageSize_pos := hpage
  nodup := nodup_ordered t p o
  length_lt := length_ordered_lt t p o
  rows_eq_nil := by simp

/-- The offset of the page of an index is a `size_t`. -/
lemma offset_of_index (i : UInt64) (pageSize : ℕ) : i.toNat / pageSize * pageSize < 2 ^ 64 :=
  Nat.lt_of_le_of_lt (Nat.div_mul_le_self _ _) i.toNat_lt

section Get

variable {hpage : 0 < pageSize} {load : ℕ → Answer R} {set : SQLResultSet R}
  (hload : ∀ k, k * pageSize < 2 ^ 64 →
    load k = ⟨Paging.page pageSize k (t.ordered p o), false⟩)
  (hs : Belongs (t.result p o hpage sql) set) (hco : Coherent (t.result p o hpage sql) set)

include hload hs hco

/-- Some calls of `get` leave the buffer coherent. -/
lemma afterGets_coherent (js : List UInt64) :
    Belongs (t.result p o hpage sql) (afterGets pageSize load set js) ∧
      Coherent (t.result p o hpage sql) (afterGets pageSize load set js) := by
  induction js generalizing set with
  | nil => exact ⟨hs, hco⟩
  | cons j js ih =>
    have hstep : Belongs (t.result p o hpage sql) (get pageSize load j.toNat set).2 ∧
        Coherent (t.result p o hpage sql) (get pageSize load j.toNat set).2 := by
      rw [get_snd]
      split
      · exact ⟨hs, hco⟩
      · exact ⟨hs.loaded load _, hco.loaded (hload _ (offset_of_index j pageSize))⟩
    exact ih hstep.1 hstep.2

/-- `get` returns the row with an index, or an invalid one if there is none. -/
lemma get_row (i : UInt64) :
    (get pageSize load i.toNat set).1 = .ok ((t.ordered p o)[i.toNat]?.getD Table.null) := by
  by_cases hnull : i.toNat = nullSize
  · have hnone : (t.ordered p o)[i.toNat]? = none := by
      have := length_ordered_lt t p o
      rw [List.getElem?_eq_none_iff, hnull, nullSize]
      omega
    rw [hnone, hnull, get_nullSize]
    rfl
  · have hlt : i.toNat < nullSize := by
      have := i.toNat_lt
      unfold nullSize at hnull ⊢
      omega
    exact congrArg Prod.fst (get_right hs hco hlt (hload _ (offset_of_index i pageSize)))

end Get

/-- **Pages of a query** whose condition and ordering get into the statements. They are the whole
ordered result exactly if its size is not a multiple of the page size and, without a clause, the
database arranges the rows of each page by their ids on its own. The clause alone, without a
condition, gives no pages at all.

**Proof sketch.** The number of pages is always one more than the quotient. The answer for a page is
a permutation of its rows, so that the pages put together are the result only if each is in order;
then `get` finds each row in the page of its index, whatever was called before, since the buffer is
coherent. Without a condition the count statement ends with its `where` and is refused. -/
theorem pagesExactly_iff (hpage : 0 < pageSize) (htable : Complete (after (Table.tableName R)))
    (hselect : Complete (after (Table.selectSQL R))) (hq : Query (trim sql) cond clause)
    (hdb : Understands pageSize db t arrange cond clause p o) :
    (TakenApart (trim sql) cond clause →
      (PagesExactly pageSize db (construct true sql) (t.ordered p o) ↔
        ¬ pageSize ∣ (t.ordered p o).length ∧
          (clause = [] → ∀ k < (t.ordered p o).length ⌈/⌉ pageSize,
            arrange (Paging.page pageSize k (t.ordered p o)) =
              Paging.page pageSize k (t.ordered p o)))) ∧
    (clause ≠ [] → ¬ text "ORDER" <:+: (toUpper clause).tail → tokens cond = [] →
      ¬ PagesExactly pageSize db (construct true sql) (t.ordered p o)) := by
  refine ⟨fun happart => ?_, fun hne hlast hcond hexact => ?_⟩
  swap
  · have hsize := hexact.size
    rw [size_error htable hq hne hlast hcond hdb] at hsize
    cases hsize
  set set : SQLResultSet R := construct true sql with hset
  set rows := t.ordered p o with hrows
  have hsize : size db set = .ok rows.length := size_eq htable hq hdb happart
  have hlength : rows.length < 2 ^ 64 := length_ordered_lt t p o
  have hanswers := fun k hk => answers_eq (k := k) htable hselect hq hdb happart hk
  constructor
  · intro hexact
    refine ⟨(getPageCount_eq_iff hpage hlength hsize).mp hexact.count, fun hnil k hk => ?_⟩
    obtain ⟨f, hf, hflat⟩ := hexact.pages
    have hpages : ∀ k < rows.length ⌈/⌉ pageSize, f k = arrange (Paging.page pageSize k rows) := by
      intro k hk
      have hget := (hf k hk).1
      rw [getPage, hanswers k (offset_lt hpage hk), if_pos hnil] at hget
      exact (Except.ok.inj hget).symm
    rw [← hpages k hk]
    refine (Paging.flatten_eq_iff hpage rows fun k hk => ?_).mp hflat k hk
    rw [hpages k hk]
    exact hdb.perm _
  · rintro ⟨hdvd, horder⟩
    have hpages : ∀ k, k * pageSize < 2 ^ 64 →
        set.answers db pageSize k = ⟨Paging.page pageSize k rows, false⟩ := by
      intro k hk
      rw [hanswers k hk]
      split
      next hnil =>
        by_cases hlt : k < rows.length ⌈/⌉ pageSize
        · rw [horder hnil k hlt]
        · have hempty := (Paging.page_eq_nil_iff hpage k rows).mpr (Nat.le_of_not_lt hlt)
          have hperm := hdb.perm (Paging.page pageSize k rows)
          rw [hempty] at hperm ⊢
          rw [hperm.eq_nil]
      next => rfl
    refine ⟨hsize, (getPageCount_eq_iff hpage hlength hsize).mpr hdvd,
      ⟨fun k => Paging.page pageSize k rows, fun k hk => ⟨?_, fun hnil => ?_⟩,
        Paging.flatten_pages hpage rows⟩,
      List.Nodup.of_map _ (nodup_ordered t p o), fun js i => ?_⟩
    · rw [getPage, hpages k (offset_lt hpage hk)]
      rfl
    · exact absurd ((Paging.page_eq_nil_iff hpage k rows).mp hnil) (Nat.not_le.mpr hk)
    · have hstart : (t.result p o hpage sql).start.set = set := by
        rw [hset, Result.start, Contents.result]
      have hfresh : Belongs (t.result p o hpage sql) set ∧
          Coherent (t.result p o hpage sql) set := by
        rw [← hstart]
        exact ⟨belongs_start _, fun hne => absurd (currentPage_start _) hne⟩
      obtain ⟨hs, hco⟩ := afterGets_coherent hpages hfresh.1 hfresh.2 js
      refine ⟨_, get_row hpages hs hco i, fun hi => ?_, fun hi => ?_⟩
      · rw [List.getElem?_eq_getElem hi, Option.getD_some]
      · rw [List.getElem?_eq_none hi, Option.getD_none, valid_null]

end Query

/-! ## A database in memory -/

section Memory

variable {pageSize : ℕ} {rows : List R} {cond clause : List UInt8}

/-- A database that answers the statements for a condition and an ordering from a list of rows, and
no other ones. -/
def memory (pageSize : ℕ) (cond clause : List UInt8) (rows : List R) : Database R where
  numbers q := if tokens q = countTokens R (intendedWhere cond) then some [[rows.length]] else none
  select q :=
    ⟨((List.range rows.length).find? fun k =>
      tokens q = loadTokens R pageSize (k * pageSize) (intendedWhere cond) (intendedOrder clause)
          (intendedOrder clause) ∨
        tokens q = loadTokens R pageSize (k * pageSize) (intendedWhere cond)
          (intendedOrder clause) []).elim [] fun k => Paging.page pageSize k rows, false⟩

/-- The statements of different pages are different. -/
lemma loadTokens_inj (hpage : 0 < pageSize) {j k : ℕ} {w inner outer outer' : List Token}
    (h : loadTokens R pageSize (j * pageSize) w inner outer =
      loadTokens R pageSize (k * pageSize) w inner outer') : j = k := by
  simp only [loadTokens, pageTokens, List.append_assoc, List.append_cancel_left_eq,
    List.cons_append, List.nil_append, List.cons.injEq, Token.word.injEq, true_and] at h
  have hnumber := congrArg Http.number h.1
  rw [Http.number_decimal, Http.number_decimal, Option.some.injEq] at hnumber
  exact Nat.eq_of_mul_eq_mul_right hpage hnumber

/-- The pages in memory come in order.

**Proof sketch.** The statement determines its page, since the offset is among its tokens. So the
page found first is the one that is asked for, or there are no rows on it. -/
lemma select_memory (hpage : 0 < pageSize) {k : ℕ} {q : List UInt8} {outer : List Token}
    (houter : outer = intendedOrder clause ∨ outer = [])
    (hq : tokens q = loadTokens R pageSize (k * pageSize) (intendedWhere cond)
      (intendedOrder clause) outer) :
    (memory pageSize cond clause rows).select q = ⟨Paging.page pageSize k rows, false⟩ := by
  set found : ℕ → Prop := fun j =>
    tokens q = loadTokens R pageSize (j * pageSize) (intendedWhere cond) (intendedOrder clause)
        (intendedOrder clause) ∨
      tokens q = loadTokens R pageSize (j * pageSize) (intendedWhere cond)
        (intendedOrder clause) [] with hfound
  have hother {j : ℕ} (hj : j < k) : ¬ found j := by
    rintro (h | h)
    · exact hj.ne (loadTokens_inj hpage (h.symm.trans hq))
    · exact hj.ne (loadTokens_inj hpage (h.symm.trans hq))
  have hthis : found k := by
    rcases houter with rfl | rfl
    · exact .inl hq
    · exact .inr hq
  have hselect : (memory pageSize cond clause rows).select q =
      ⟨((List.range rows.length).find? fun j => decide (found j)).elim [] fun k =>
        Paging.page pageSize k rows, false⟩ := rfl
  rw [hselect]
  by_cases hlt : k < rows.length
  · have hfind : (List.range rows.length).find? (fun j => decide (found j)) = some k :=
      List.find?_range_eq_some.mpr
        ⟨decide_eq_true hthis, List.mem_range.mpr hlt, fun j hj => by simpa using hother hj⟩
    rw [hfind]
    rfl
  · have hfind : (List.range rows.length).find? (fun j => decide (found j)) = none := by
      refine List.find?_eq_none.mpr fun j hj => ?_
      have hjk : j < k := by
        have := List.mem_range.mp hj
        omega
      simpa using hother hjk
    have hempty : Paging.page pageSize k rows = [] := by
      rw [Paging.page, List.drop_eq_nil_of_le, List.take_nil]
      exact (Nat.le_of_not_lt hlt).trans (Nat.le_mul_of_pos_right k hpage)
    rw [hfind, hempty]
    rfl

/-- A database in memory understands the statements for its condition and ordering. -/
lemma understands_memory (hpage : 0 < pageSize) (t : Contents R) (p : R → Bool) (o : Sorting R) :
    Understands pageSize (memory pageSize cond clause (t.ordered p o)) t id cond clause p o where
  count q hq := by
    simp only [memory, if_pos hq, (ordered_perm t p o).length_eq]
  refuses q hq := by
    have hne : tokens q ≠ countTokens R (intendedWhere cond) := by
      rw [hq, countTokens, countTokens]
      exact fun h => intendedWhere_ne_nil cond (List.append_cancel_left h).symm
    simp only [memory, if_neg hne]
  sorted q k _ hq := select_memory hpage (.inl rfl) hq
  arranged q k _ hq := select_memory hpage (.inr rfl) hq
  perm rows := List.Perm.refl rows

end Memory

/-- The order of the ids. No two rows have the same one, so the order is strict. -/
def byId : Sorting Plain where
  le a b := a.id ≤ b.id
  le_trans a b c hab hbc := by
    simp only [decide_eq_true_eq] at hab hbc ⊢
    exact UInt64.le_trans hab hbc
  le_total a b := by
    simpa using UInt64.le_total a.id b.id
  id_eq a b hab hba := by
    simp only [decide_eq_true_eq] at hab hba
    exact UInt64.le_antisymm hab hba

/-- Three rows. -/
def threeRows : Contents Plain where
  rows := [⟨1⟩, ⟨2⟩, ⟨3⟩]
  nodup := by decide
  valid := by decide

/-- Two rows. -/
def twoRows : Contents Plain where
  rows := [⟨1⟩, ⟨2⟩]
  nodup := by decide
  valid := by decide

/-- The empty text is a condition without a clause. -/
lemma query_nil : Query (trim []) [] [] :=
  ⟨rfl, by decide, .inl rfl, nofun, fun _ a b hab hword => by
    obtain ⟨rfl, rfl⟩ := List.append_eq_nil_iff.mp hab.symm
    exact absurd hword (by decide)⟩

/-- Three rows in pages of two. -/
theorem pagesExactly_three :
    PagesExactly 2 (memory 2 [] [] (threeRows.ordered (fun _ => true) byId))
      (construct true []) (threeRows.ordered (fun _ => true) byId) := by
  refine ((pagesExactly_iff (by decide) (by decide) (by decide) query_nil
    (understands_memory (by decide) threeRows _ _)).1 (by decide)).mpr ⟨?_, fun _ _ _ => rfl⟩
  rw [(ordered_perm _ _ _).length_eq]
  decide

/-- Two rows are one page of two, but the number of pages is two and the second page is empty. -/
theorem not_pagesExactly_two :
    Understands 2 (memory 2 [] [] [⟨1⟩, ⟨2⟩]) twoRows id [] [] (fun _ => true) byId ∧
      twoRows.ordered (fun _ => true) byId = [⟨1⟩, ⟨2⟩] ∧
      getPageCount 2 (memory 2 [] [] ([⟨1⟩, ⟨2⟩] : List Plain)) (construct true []) = .ok 2 ∧
      getPage 2 (memory 2 [] [] ([⟨1⟩, ⟨2⟩] : List Plain)) (construct true []) 1 = .ok [] ∧
      ¬ PagesExactly 2 (memory 2 [] [] ([⟨1⟩, ⟨2⟩] : List Plain))
        (construct true []) [⟨1⟩, ⟨2⟩] := by
  have hordered : twoRows.ordered (fun _ => true) byId = [⟨1⟩, ⟨2⟩] :=
    List.mergeSort_of_pairwise (by decide)
  have hcount : getPageCount 2 (memory 2 [] [] ([⟨1⟩, ⟨2⟩] : List Plain)) (construct true []) =
      .ok 2 := by
    decide
  refine ⟨hordered ▸ understands_memory (by decide) twoRows _ _, hordered, hcount, by decide,
    fun h => ?_⟩
  have hceil := h.count.symm.trans hcount
  exact absurd hceil (by decide)

end HkuUtils.ResultSet
