import Mathlib.Data.List.GetD
import HkuUtils.Fallible
import HkuUtils.Http
import HkuUtils.Search

set_option relaxedAutoImplicit false
set_option autoImplicit false

/-!
# The paged result of a query

`SQLResultSet` takes a condition with an optional `ORDER BY` clause apart, counts the rows that meet
it, and reads them page by page; the page that was read last stays in a buffer. An iterator keeps a
copy of its row beside its index.

## Main definitions

* `HkuUtils.ResultSet.Table`, `Plain` — classes with a `TABLE_BIND` macro, and the least one.
* `HkuUtils.ResultSet.SQLResultSet`, `construct` — a result set and its constructor.
* `HkuUtils.ResultSet.size`, `getPageCount`, `getPage`, `get`, `at_` — its methods.
* `HkuUtils.ResultSet.Iterator`, `iterator`, `increment`, `copy`, `assign` — its iterators.

## Main results

* `HkuUtils.ResultSet.get_apply` — what `get` returns and what it does to the buffer.
* `HkuUtils.ResultSet.increment_apply` — what `++` does, in terms of `get`.

## Design

Texts are lists of bytes, and the database is a function from statements to their results. Numbers
are natural numbers, with `nullSize` for `Null<size_t>()`; the two places where `size_t` can
overflow, the number of pages and the offset of a page, are taken modulo `2 ^ 64`. A method that
goes through `batchLoad` is given what this call pushes back for each page.
-/

namespace HkuUtils.ResultSet

open Fallible Search

/-- `Null<size_t>()`. -/
def nullSize : ℕ := 2 ^ 64 - 1

/-- A class with one of the `TABLE_BIND` macros. -/
class Table (R : Type) where
  /-- `id()`. -/
  id : R → UInt64
  /-- `getTableName()`. -/
  tableName : List UInt8
  /-- `getSelectSQL()`. -/
  selectSQL : List UInt8
  /-- `Null<TableT>()`, which is `TableT()`. -/
  null : R
  /-- `uint64_t m_id = 0`. -/
  id_null : id null = 0

section

variable {R : Type} [Table R]

/-- `valid()`. -/
def valid (r : R) : Bool := Table.id r != 0

/-- The row that stands for none is not valid. -/
@[simp]
lemma valid_null : valid (Table.null : R) = false := by
  simp [valid, Table.id_null]

end

/-- A class with `TABLE_BIND0(Plain, plain)`: an id and nothing else. -/
structure Plain where
  /-- `m_id`. -/
  id : UInt64
  deriving DecidableEq, Repr

instance : Table Plain where
  id := Plain.id
  tableName := text "plain"
  selectSQL := text "select `id` from `plain`"
  null := ⟨0⟩
  id_null := rfl

/-! ## The database -/

/-- The exceptions. -/
inductive Exception where
  /-- Any exception of the database. -/
  | sql
  /-- `std::out_of_range`. -/
  | outOfRange (what : String)
  /-- `std::logic_error`. -/
  | logicError (what : String)
  deriving DecidableEq, Repr

/-- What a `select` pushes back: the rows up to the end, or up to the exception. -/
structure Answer (R : Type) where
  /-- The rows. -/
  rows : List R
  /-- Whether an exception follows. -/
  throws : Bool
  deriving DecidableEq, Repr

/-- What the database answers. -/
structure Database (R : Type) where
  /-- The rows of numbers that a statement returns; `none` is an exception. -/
  numbers : List UInt8 → Option (List (List ℕ))
  /-- The rows that a statement returns. -/
  select : List UInt8 → Answer R

variable {R : Type} [Table R]

/-- `DBConnectBase::queryNumber` with a default value that is not `Null`. -/
def queryNumber (db : Database R) (query : List UInt8) (defaultVal : ℕ) : Except Exception ℕ :=
  match db.numbers query with
  | none => .error .sql
  | some [[n]] => .ok n
  | some _ => .ok defaultVal

/-- The statement of `DBConnectBase::batchLoad`. -/
def loadStatement (R : Type) [Table R] (whereText : List UInt8) : List UInt8 :=
  if whereText = [] then Table.selectSQL R
  else Table.selectSQL R ++ text " where " ++ whereText

/-- `DBConnectBase::batchLoad`: what it pushes back. -/
def batchLoad (db : Database R) (whereText : List UInt8) : Answer R :=
  db.select (loadStatement R whereText)

/-! ## The result set -/

/-- `trim`: blanks at both ends, then carriage returns and then line feeds at the end. -/
def trim (s : List UInt8) : List UInt8 :=
  (((s.dropWhile (· == 32)).rdropWhile (· == 32)).rdropWhile (· == 13)).rdropWhile (· == 10)

/-- A result set. It has the parts of its query, and the rows of one page. -/
structure SQLResultSet (R : Type) where
  /-- `m_connect` is not null. -/
  connect : Bool
  /-- `m_buffer`. -/
  buffer : List R
  /-- `m_where`. -/
  whereText : List UInt8
  /-- `m_orderby_inner`. -/
  orderbyInner : List UInt8
  /-- `m_orderby_outer`. -/
  orderbyOuter : List UInt8
  /-- `m_current_page`. -/
  currentPage : ℕ
  deriving DecidableEq, Repr

omit [Table R] in
/-- `SQLResultSet(connect, sql)`. -/
def construct (connect : Bool) (sql : List UInt8) : SQLResultSet R :=
  let s := trim sql
  if s = [] then ⟨connect, [], text "1=1", text "ORDER BY id", [], nullSize⟩
  else
    match rfind (text "ORDER") (toUpper s) with
    | some pos =>
      let orderby := s.drop pos ++ text ", id ASC"
      ⟨connect, [], s.take pos, orderby, orderby, nullSize⟩
    | none => ⟨connect, [], s, text "ORDER BY id", [], nullSize⟩

omit [Table R] in
/-- A new set has an empty buffer and has noted no page. -/
lemma construct_eq (connect : Bool) (sql : List UInt8) :
    ∃ whereText orderbyInner orderbyOuter, (construct connect sql : SQLResultSet R) =
      ⟨connect, [], whereText, orderbyInner, orderbyOuter, nullSize⟩ := by
  simp only [construct]
  split
  · exact ⟨_, _, _, rfl⟩
  · split
    · exact ⟨_, _, _, rfl⟩
    · exact ⟨_, _, _, rfl⟩

omit [Table R] in
/-- A set has an outer ordering exactly if the text contains the word. -/
lemma orderbyOuter_eq_nil_iff (connect : Bool) (sql : List UInt8) :
    (construct connect sql : SQLResultSet R).orderbyOuter = [] ↔
      ¬ text "ORDER" <:+: toUpper (trim sql) := by
  simp only [construct]
  by_cases hnil : trim sql = []
  · rw [if_pos hnil, hnil]
    exact iff_of_true rfl (by decide)
  · rw [if_neg hnil, ← rfind_eq_none_iff]
    cases h : rfind (text "ORDER") (toUpper (trim sql)) with
    | none => exact iff_of_true rfl rfl
    | some pos =>
      refine iff_of_false (fun happend => ?_) (by simp)
      exact absurd (List.append_eq_nil_iff.mp happend).2 (by decide : text ", id ASC" ≠ [])

namespace SQLResultSet

variable (s : SQLResultSet R)

/-- The statement of `size`. -/
def countStatement : List UInt8 :=
  text "select count(1) from " ++ Table.tableName R ++ text " where " ++ s.whereText

/-- `m_sql_template` with its arguments. -/
def pageText (pageSize page : ℕ) : List UInt8 :=
  text "id IN (SELECT id FROM " ++ Table.tableName R ++ text " WHERE " ++ s.whereText ++ text " " ++
    s.orderbyInner ++ text " LIMIT " ++ Http.decimal pageSize ++ text " OFFSET " ++
    Http.decimal (page * pageSize % 2 ^ 64) ++ text ") " ++ s.orderbyOuter

/-- What `batchLoad` pushes back for each page. -/
def answers (db : Database R) (pageSize page : ℕ) : Answer R :=
  batchLoad db (s.pageText pageSize page)

end SQLResultSet

/-- `size`. -/
def size (db : Database R) (s : SQLResultSet R) : Except Exception ℕ :=
  if s.connect then queryNumber db s.countStatement 0 else .ok 0

/-- `getPageCount`. -/
def getPageCount (pageSize : ℕ) (db : Database R) (s : SQLResultSet R) : Except Exception ℕ := do
  let total ← size db s
  let n := total / pageSize
  return if n * pageSize > total then n else (n + 1) % 2 ^ 64

/-- `getPage` of a set with a connection. -/
def getPage (pageSize : ℕ) (db : Database R) (s : SQLResultSet R) (page : ℕ) :
    Except Exception (List R) :=
  let answer := s.answers db pageSize page
  if answer.throws then .error .sql else .ok answer.rows

/-- The part of `get` that reads a page into the buffer. -/
def loadPage (load : ℕ → Answer R) (page : ℕ) : Fallible (SQLResultSet R) Exception Unit := do
  modify fun s => { s with buffer := [] }
  modify fun s => { s with buffer := s.buffer ++ (load page).rows }
  if (load page).throws then throw .sql
  modify fun s => { s with currentPage := page }

/-- `get`: the page of the index is loaded if another one is in memory, and the row is taken from
it. What is not there is the null row. -/
def get (pageSize : ℕ) (load : ℕ → Answer R) (index : ℕ) :
    Fallible (SQLResultSet R) Exception R := do
  if index = nullSize then return Table.null
  let page := index / pageSize
  let s ← Fallible.get
  when (s.connect && page != s.currentPage) (loadPage load page)
  let s ← Fallible.get
  if s.buffer = [] then return Table.null
  let pos := index - page * pageSize
  if pos ≥ s.buffer.length then return Table.null
  return s.buffer.getD pos Table.null

/-- `at`. -/
def at_ (pageSize : ℕ) (load : ℕ → Answer R) (index : ℕ) :
    Fallible (SQLResultSet R) Exception R := do
  let result ← get pageSize load index
  if valid result then return result
  throw (.outOfRange "Index is over")

/-! ## Iterators -/

/-- An iterator of a result set. -/
structure Iterator (R : Type) where
  /-- `m_index`. -/
  index : ℕ
  /-- `m_value`. -/
  value : R
  deriving DecidableEq, Repr

/-- `SQLResultSetIterator(result_set, index)`. -/
def iterator (pageSize : ℕ) (load : ℕ → Answer R) (index : ℕ) :
    Fallible (SQLResultSet R) Exception (Iterator R) := do
  if index = nullSize then return ⟨index, Table.null⟩
  let value ← get pageSize load index
  return if valid value then ⟨index, value⟩ else ⟨nullSize, value⟩

/-- `operator++`. -/
def increment (pageSize : ℕ) (load : ℕ → Answer R) :
    Fallible (SQLResultSet R × Iterator R) Exception Unit := do
  let s ← Fallible.get
  if s.2.index = nullSize then throw (.logicError "Cannot increment an end iterator.")
  modify fun s => (s.1, { s.2 with index := s.2.index + 1 })
  let value ← lift (get pageSize load (s.2.index + 1))
  modify fun s => (s.1, { s.2 with value := value })
  when (!valid value) (modify fun s => (s.1, { s.2 with index := nullSize }))

/-- The copy constructor: the row is not copied. -/
def copy (other : Iterator R) : Iterator R := ⟨other.index, Table.null⟩

omit [Table R] in
/-- `operator=`: the row is not copied. -/
def assign (self other : Iterator R) : Iterator R := { self with index := other.index }

/-! ## What the methods do -/

namespace SQLResultSet

/-- The set after a call that needed the page `page`. -/
def loaded (s : SQLResultSet R) (load : ℕ → Answer R) (page : ℕ) : SQLResultSet R :=
  if s.connect ∧ page ≠ s.currentPage then
    { s with
      buffer := (load page).rows
      currentPage := if (load page).throws then s.currentPage else page }
  else s

/-- The call needs a page that is not in the buffer, and it cannot be read. -/
def fails (s : SQLResultSet R) (load : ℕ → Answer R) (page : ℕ) : Prop :=
  s.connect = true ∧ page ≠ s.currentPage ∧ (load page).throws = true

instance (s : SQLResultSet R) (load : ℕ → Answer R) (page : ℕ) : Decidable (s.fails load page) :=
  inferInstanceAs (Decidable (_ ∧ _))

omit [Table R] in
/-- Loading a page leaves the connection. -/
@[simp]
lemma connect_loaded (s : SQLResultSet R) (load : ℕ → Answer R) (page : ℕ) :
    (s.loaded load page).connect = s.connect := by
  unfold loaded
  split <;> rfl

end SQLResultSet

open SQLResultSet

variable {pageSize : ℕ} {load : ℕ → Answer R} {index : ℕ} {s : SQLResultSet R}

omit [Table R] in
/-- A page is read, or the exception leaves what was pushed back. -/
lemma loadPage_apply (load : ℕ → Answer R) (page : ℕ) (s : SQLResultSet R) :
    loadPage load page s =
      if (load page).throws then (.error .sql, { s with buffer := (load page).rows })
      else (.ok (), { s with buffer := (load page).rows, currentPage := page }) := by
  rw [loadPage, bind_ok (modify_apply _ _), bind_ok (modify_apply _ _)]
  cases h : (load page).throws with
  | true => rfl
  | false => rfl

/-- An invalid row for `Null`. -/
lemma get_nullSize (s : SQLResultSet R) :
    get pageSize load nullSize s = (.ok Table.null, s) := rfl

/-- **What `get` does.** The page of the index is read unless it is in the buffer; then the row is
taken from the buffer.

**Proof sketch.** The two guards of the source for a row that is not in the buffer give what `getD`
gives; the page is loaded if its number is another one or the buffer is empty. -/
theorem get_apply (hindex : index ≠ nullSize) (s : SQLResultSet R) :
    get pageSize load index s =
      if s.fails load (index / pageSize) then (.error .sql, s.loaded load (index / pageSize))
      else (.ok ((s.loaded load (index / pageSize)).buffer.getD
          (index - index / pageSize * pageSize) Table.null),
        s.loaded load (index / pageSize)) := by
  have hend : ∀ t : SQLResultSet R, (do
      let s ← Fallible.get
      if s.buffer = [] then return Table.null
      let pos := index - index / pageSize * pageSize
      if pos ≥ s.buffer.length then return Table.null
      return s.buffer.getD pos Table.null : Fallible (SQLResultSet R) Exception R) t =
        (.ok (t.buffer.getD (index - index / pageSize * pageSize) Table.null), t) := by
    intro t
    rw [bind_ok (Fallible.get_apply _)]
    by_cases hnil : t.buffer = []
    · simp [hnil]
    · rw [if_neg hnil]
      by_cases hge : index - index / pageSize * pageSize ≥ t.buffer.length
      · rw [if_pos hge, List.getD_eq_default _ _ hge, pure_apply]
      · rw [if_neg hge, pure_apply]
  rw [get, if_neg hindex, bind_ok (Fallible.get_apply _)]
  by_cases hload : s.connect = true ∧ index / pageSize ≠ s.currentPage
  · have hcond : (s.connect && index / pageSize != s.currentPage) = true := by simpa using hload
    rw [hcond, when_true, loaded, if_pos hload]
    by_cases hthrows : (load (index / pageSize)).throws = true
    · rw [if_pos ⟨hload.1, hload.2, hthrows⟩, bind_error (by rw [loadPage_apply, if_pos hthrows]),
        if_pos hthrows]
    · rw [if_neg fun h => hthrows h.2.2, bind_ok (by rw [loadPage_apply, if_neg hthrows]), hend,
        if_neg hthrows]
  · have hcond : (s.connect && index / pageSize != s.currentPage) = false := by
      simpa using hload
    rw [hcond, when_false, loaded, if_neg hload, if_neg fun h => hload ⟨h.1, h.2.1⟩,
      bind_ok (pure_apply _ _), hend]

/-- The set after `get`. -/
lemma get_snd (index : ℕ) (s : SQLResultSet R) :
    (get pageSize load index s).2 =
      if index = nullSize then s else s.loaded load (index / pageSize) := by
  by_cases hindex : index = nullSize
  · rw [if_pos hindex, hindex, get_nullSize]
  · rw [if_neg hindex, get_apply hindex]
    split <;> rfl

/-- `at` leaves the set as `get` does. -/
lemma at_snd (s : SQLResultSet R) :
    (at_ pageSize load index s).2 = (get pageSize load index s).2 := by
  rw [at_]
  rcases h : get pageSize load index s with ⟨r, t⟩
  cases r with
  | ok result =>
    rw [bind_ok h]
    split <;> rfl
  | error e => rw [bind_error h]

/-- An iterator at `index`, from what `get` does. -/
theorem iterator_apply (hindex : index ≠ nullSize) (s : SQLResultSet R) :
    iterator pageSize load index s =
      ((get pageSize load index s).1.map fun value =>
        if valid value then ⟨index, value⟩ else ⟨nullSize, value⟩,
        (get pageSize load index s).2) := by
  rw [iterator, if_neg hindex]
  rcases h : get pageSize load index s with ⟨r, t⟩
  cases r with
  | ok value =>
    rw [bind_ok h]
    rfl
  | error e =>
    rw [bind_error h]
    rfl

/-- The iterator after `++` has got the row of the next index, or an exception. -/
def Iterator.advanced (it : Iterator R) : Except Exception R → Iterator R
  | .ok value => if valid value then ⟨it.index + 1, value⟩ else ⟨nullSize, value⟩
  | .error _ => ⟨it.index + 1, it.value⟩

/-- **What `++` does**, from what `get` does. -/
theorem increment_apply {it : Iterator R} (hit : it.index ≠ nullSize) (s : SQLResultSet R) :
    increment pageSize load (s, it) =
      ((get pageSize load (it.index + 1) s).1.map fun _ => (),
        ((get pageSize load (it.index + 1) s).2,
          it.advanced (get pageSize load (it.index + 1) s).1)) := by
  rw [increment, bind_ok (Fallible.get_apply _), if_neg hit]
  beta_reduce
  rw [bind_ok (modify_apply _ _)]
  rcases h : get pageSize load (it.index + 1) s with ⟨r, t⟩
  cases r with
  | ok value =>
    rw [bind_ok (by rw [lift_apply, h]), bind_ok (modify_apply _ _), Iterator.advanced]
    cases hvalue : valid value with
    | true => rfl
    | false => rfl
  | error e =>
    rw [bind_error (by rw [lift_apply, h])]
    rfl

/-- `++` of an end iterator. -/
lemma increment_end {it : Iterator R} (hit : it.index = nullSize) (s : SQLResultSet R) :
    increment pageSize load (s, it) =
      (.error (.logicError "Cannot increment an end iterator."), (s, it)) := by
  rw [increment, bind_ok (Fallible.get_apply _), if_pos hit]
  rfl

end HkuUtils.ResultSet
