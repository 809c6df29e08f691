import Mathlib.Data.Int.Notation
import HkuUtils.Transaction

set_option relaxedAutoImplicit false
set_option autoImplicit false

/-!
# Writing items to a database

The template functions of `DBConnectBase.h` that write: `save`, `batchSave`, `batchUpdate`,
`batchSaveOrUpdate`, `remove`, `batchRemove` and `remove(tablename, where)`. They run on a session
with a database engine, and the functions on items change these in place.

## Main definitions

* `HkuUtils.Database.Row`, `Item`, `TableBind` — the rows of a table, the items bound to it by
  `TABLE_BIND`, and the texts of the binding.
* `HkuUtils.Database.Backend` — the engine: its faults, its row ids, the effect of a SQL text.
* `HkuUtils.Database.save`, `batchSave`, `batchUpdate`, `batchSaveOrUpdate`, `remove`,
  `batchRemove`, `removeWhere` — the functions.

## Design

Every call into the engine is one attempt of the session: the preparation of a statement, a bind,
an execution, `getLastRowid`, `BEGIN` and `COMMIT`. `rollback()` is `noexcept` and restores the
data. A `BEGIN` inside of a transaction is an error, as in SQLite. The row ids are natural numbers.
The texts of exceptions are those that the functions format, without the source position, the
prefix and the error code that the macros `SQL_THROW` and `HKU_THROW` add. The functions on
containers forward to those on iterators; a container is a list.
-/

namespace HkuUtils.Database

open Fallible Transaction

/-- A row of a table. -/
structure Row (R : Type) where
  id : ℕ
  fields : R
  deriving DecidableEq, Repr

/-- An item of a type that `TABLE_BIND` binds to a table. -/
structure Item (R : Type) where
  /-- `m_id`, read and written by `rowid()`. -/
  id : ℕ
  fields : R
  deriving DecidableEq, Repr

/-- `valid`. -/
def Item.valid {R : Type} (item : Item R) : Bool := item.id != 0

/-- What the catch arms tell apart: `hku::SQLException`, `std::exception` and the rest. -/
inductive Error where
  | sql (errcode : ℤ) (what : String)
  | std (what : String)
  | unknown
  deriving DecidableEq, Repr

/-- The texts of a binding. -/
structure TableBind where
  /-- `getTableName()`. -/
  tableName : String
  /-- `getInsertSQL()`. -/
  insertSQL : String
  /-- `getUpdateSQL()`. -/
  updateSQL : String

/-- The statements that the functions prepare. -/
inductive Sql where
  | insert
  | update
  | delete (id : ℕ)

/-- The text of a statement. -/
def Sql.text (T : TableBind) : Sql → String
  | .insert => T.insertSQL
  | .update => T.updateSQL
  | .delete id => "delete from " ++ T.tableName ++ " where id=" ++ toString id

/-- A statement with its parameters. -/
inductive Statement (R : Type) where
  | insert (fields : R)
  | update (id : ℕ) (fields : R)
  | delete (id : ℕ)

/-- A database engine. -/
structure Backend (R : Type) extends Engine Error where
  /-- The id of the next row. -/
  newId : List (Row R) → ℕ
  newId_ne_zero : ∀ rows, newId rows ≠ 0
  newId_fresh : ∀ rows, newId rows ∉ rows.map (·.id)
  /-- The effect of a SQL text. -/
  execSql : String → List (Row R) → List (Row R)

/-- Programs on a session. -/
abbrev OnSession (R α : Type) := Fallible (Session (List (Row R))) Error α

/-- Programs with a reference to one item. -/
abbrev OnItem (R α : Type) := Fallible (Session (List (Row R)) × Item R) Error α

/-- Programs with a range of items. -/
abbrev OnItems (R α : Type) := Fallible (Session (List (Row R)) × List (Item R)) Error α

variable {R : Type} (B : Backend R) (T : TableBind)

/-! ## Statements -/

/-- What a statement makes of the rows. -/
def Statement.effect (rows : List (Row R)) : Statement R → List (Row R)
  | .insert fields => rows ++ [⟨B.newId rows, fields⟩]
  | .update id fields => rows.map fun r => if r.id = id then { r with fields := fields } else r
  | .delete id => rows.filter (·.id ≠ id)

/-- `getStatement`. -/
def getStatement : OnSession R Unit := attempt B.toEngine

/-- `save(st)` of an item binds its fields. -/
def Item.save (item : Item R) : OnSession R (Statement R) := do
  attempt B.toEngine
  return .insert item.fields

/-- `update(st)` of an item binds its fields and its id. -/
def Item.update (item : Item R) : OnSession R (Statement R) := do
  attempt B.toEngine
  return .update item.id item.fields

/-- `st->exec()`, with the id of the row that an insertion makes. -/
def exec (st : Statement R) : OnSession R ℕ := do
  let s ← get
  perform B.toEngine fun rows => st.effect B rows
  return B.newId s.data

/-- `st->getLastRowid()` after the insertion of the row `id`. -/
def getLastRowid (id : ℕ) : OnSession R ℕ := do
  attempt B.toEngine
  return id

/-- `rowid(id)`. -/
def rowid (id : ℕ) : OnItem R Unit := modify fun s => (s.1, { s.2 with id := id })

/-- What a catch arm throws: `text` and the text of the exception, under its error code. -/
def failed (text : String) : Error → Error
  | .sql errcode what => .sql errcode (text ++ "! " ++ what)
  | .std what => .std (text ++ "! " ++ what)
  | .unknown => .std (text ++ "! Unknown error!")

/-- The catch arms of `batchUpdate`, whose texts are not all the same. -/
def failedUpdate (sql : String) : Error → Error
  | .sql errcode what => .sql errcode ("failed batch save! sql: " ++ sql ++ "! " ++ what)
  | .std what => .std ("failed batch update! sql: " ++ sql ++ "! " ++ what)
  | .unknown => .std ("failed batch save! sql: " ++ sql ++ "! Unknown error!")

/-- The catch arms of `batchRemove`, which have no statement to name. -/
def failedRemove : Error → Error
  | .sql errcode what => .sql errcode ("failed batch delete! " ++ what)
  | .std what => .std ("failed batch delete! " ++ what)
  | .unknown => .std "failed batch delete! Unknown error!"

/-! ## The functions -/

/-- An item is inserted, and gets the id of its row. -/
def insertItem : OnItem R Unit := do
  let s ← get
  let st ← lift (s.2.save B)
  let id ← lift (exec B st)
  let id ← lift (getLastRowid B id)
  rowid id

/-- The row of an item is updated. -/
def updateItem : OnItem R Unit := do
  let s ← get
  let st ← lift (s.2.update B)
  let _ ← lift (exec B st)
  return ()

/-- `save(item, autotrans)`. -/
def save (autotrans : Bool) : OnItem R Unit := do
  let s ← get
  let sql := if s.2.valid then Sql.update else Sql.insert
  lift (getStatement B)
  inTransaction B.toEngine autotrans (failed ("failed save! sql: " ++ sql.text T))
    (if s.2.valid then updateItem B else insertItem B) (pure ())

/-- `batchSave(first, last, autotrans)`. -/
def batchSave (autotrans : Bool) : OnItems R Unit := do
  let s ← get
  if s.2.length = 0 then return ()
  else
    lift (getStatement B)
    inTransaction B.toEngine autotrans
      (failed ("failed batch save! sql: " ++ Sql.insert.text T))
      (forEach (insertItem B)) (pure ())

/-- `batchUpdate(first, last, autotrans)`. -/
def batchUpdate (autotrans : Bool) : OnItems R Unit := do
  let s ← get
  if s.2.length = 0 then return ()
  else
    lift (getStatement B)
    inTransaction B.toEngine autotrans (failedUpdate (Sql.update.text T))
      (forEach (updateItem B)) (pure ())

/-- `batchSaveOrUpdate(first, last, autotrans)`: the items are copied to `save_list` and
`update_list`. -/
def batchSaveOrUpdate (autotrans : Bool) : OnItems R Unit := do
  let s ← get
  onCopy (s.2.filter (!·.valid)) (batchSave B T autotrans)
  onCopy (s.2.filter (·.valid)) (batchUpdate B T autotrans)

/-- `remove(item, autotrans)`. -/
def remove (autotrans : Bool) : OnItem R Unit := do
  let s ← get
  if s.2.valid then
    let sql := Sql.delete s.2.id
    lift (getStatement B)
    inTransaction B.toEngine autotrans (failed ("failed delete! sql: " ++ sql.text T))
      (do let _ ← lift (exec B (.delete s.2.id))) (rowid 0)
  else throw (.std "Invalid item, id is 0!")

/-- `batchRemove(first, last, autotrans)`: the call `remove(*iter)` leaves the second argument to
its default, `true`. -/
def batchRemove (autotrans : Bool) : OnItems R Unit := do
  let s ← get
  if s.2.length = 0 then return ()
  else
    inTransaction B.toEngine autotrans failedRemove (forEach (remove B T true)) (pure ())

/-- The text of `remove(tablename, where, autotrans)`. -/
def removeSQL (tablename where_ : String) : String :=
  if where_ = "" ∨ where_ = "1=1" then "delete from " ++ tablename
  else "delete from " ++ tablename ++ " where " ++ where_

/-- `remove(tablename, where, autotrans)`; there is no item. -/
def removeWhere (tablename where_ : String) (autotrans : Bool) :
    Fallible (Session (List (Row R)) × Unit) Error Unit :=
  let sql := removeSQL tablename where_
  inTransaction B.toEngine autotrans (failed ("Failed exec sql: " ++ sql))
    (lift (perform B.toEngine (B.execSql sql))) (pure ())

end HkuUtils.Database
