import HkuUtils.Database.Connect
import HkuUtils.Search

set_option relaxedAutoImplicit false
set_option autoImplicit false

/-!
# Classes bound to tables

The macros of `TableMacro.h` write, for a class with up to 20 columns, the texts of three statements
and the functions that bind its fields to them and read them back. There are three families, each
with one macro for every number of columns: with an id that the database gives, without an id, and
with an id that the class gives.

## Main definitions

* `HkuUtils.TableMacro.Binding` — what a macro writes.
* `HkuUtils.TableMacro.tableBind`, `tableNoAutoidBind`, `tableNoAutoidBind4`,
  `colTableBind` — the macros.

## Design

The fields are a list, so that a family is one definition on the list of its columns. The macros of
a family differ in nothing else, but for two slips. `TABLE_NO_AUTOID_BIND4` leaves its last column
out of `update` and `load`. `COL_TABLE_BIND6` and all macros after it have six placeholders in the
statement that inserts. Names and texts are lists of bytes.
-/

namespace HkuUtils.TableMacro

open Search (text)
open Database (Item)

variable {V : Type}

/-- The fields of a class; `none` is a value that is stored as `NULL`. -/
abbrev Fields (V : Type) := List (Option V)

/-- **What a macro writes into a class**: the texts of its statements, and what it binds and
reads. -/
structure Binding (V : Type) where
  /-- `getTableName()`. -/
  tableName : List UInt8
  /-- `getInsertSQL()`. -/
  insertSQL : List UInt8
  /-- `getUpdateSQL()`. -/
  updateSQL : List UInt8
  /-- `getSelectSQL()`. -/
  selectSQL : List UInt8
  /-- The values that `save` binds, from the first placeholder on. -/
  save : Item (Fields V) → List (Option V)
  /-- The values that `update` binds. -/
  update : Item (Fields V) → List (Option V)
  /-- `load` of the columns of a row into an item. -/
  load : List (Option V) → Item (Fields V) → Item (Fields V)

section Macros

variable (num : ℕ → V) (asNum : Option V → ℕ)

/-- The text of `n` placeholders. -/
def placeholders (n : ℕ) : List UInt8 := (text ",").intercalate (List.replicate n (text "?"))

/-- The columns from the position `k` on, into `n` fields. -/
def columnsFrom (k n : ℕ) (row : List (Option V)) : Fields V :=
  (List.range n).map fun i => row.getD (k + i) none

/-- `TABLE_BIND1` to `TABLE_BIND20`. The key is the column `id`, which the database makes. -/
def tableBind (table : List UInt8) (fs : List (List UInt8)) : Binding V where
  tableName := table
  insertSQL := text "insert into `" ++ table ++ text "` (`" ++ (text "`,`").intercalate fs ++
    text "`) values (" ++ placeholders fs.length ++ text ")"
  updateSQL := text "update `" ++ table ++ text "` set `" ++ (text "`=?,`").intercalate fs ++
    text "`=? where `id`=?"
  selectSQL := text "select `" ++ (text "`,`").intercalate (text "id" :: fs) ++ text "` from `" ++
    table ++ text "`"
  save item := item.fields
  update item := item.fields ++ [some (num item.id)]
  load row _ := ⟨asNum (row.getD 0 none), columnsFrom 1 fs.length row⟩

/-- `TABLE_NO_AUTOID_BIND1` to `TABLE_NO_AUTOID_BIND20`, without the fourth one. The key is a
column of the class. -/
def tableNoAutoidBind (rowid table : List UInt8) (fs : List (List UInt8)) : Binding V where
  tableName := table
  insertSQL := text "insert into `" ++ table ++ text "` (`" ++ (text "`,`").intercalate fs ++
    text "`) values (" ++ placeholders fs.length ++ text ")"
  updateSQL := text "update `" ++ table ++ text "` set `" ++ (text "`=?,`").intercalate fs ++
    text "`=? where `" ++ rowid ++ text "`=?"
  selectSQL := text "select `" ++ (text "`,`").intercalate fs ++ text "` from `" ++ table ++
    text "`"
  save item := item.fields
  update item := item.fields ++ [some (num item.id)]
  load row item := { item with fields := columnsFrom 0 fs.length row }

/-- `TABLE_NO_AUTOID_BIND4`, which binds and reads three of its columns. -/
def tableNoAutoidBind4 (rowid table f1 f2 f3 f4 : List UInt8) : Binding V :=
  { tableNoAutoidBind num rowid table [f1, f2, f3, f4] with
    update := fun item => item.fields.take 3 ++ [some (num item.id)]
    load := fun row item => { item with fields := columnsFrom 0 3 row ++ item.fields.drop 3 } }

/-- The placeholders of `COL_TABLE_BIND` with `n` columns. -/
def colPlaceholders (n : ℕ) : List UInt8 :=
  if n = 1 then text "?, ?" else if n ≤ 5 then placeholders (n + 1) else text "?,?,?,?,?,?"

/-- `COL_TABLE_BIND1` to `COL_TABLE_BIND20`. The names of the table and of the columns are in
double quotes, and the key is saved with the other columns. -/
def colTableBind (table : List UInt8) (fs : List (List UInt8)) : Binding V where
  tableName := table
  insertSQL := text "insert into \"" ++ table ++ text "\" (id, \"" ++
    (text "\",\"").intercalate fs ++ text "\") values (" ++ colPlaceholders fs.length ++ text ")"
  updateSQL := text "update \"" ++ table ++ text "\" set \"" ++ (text "\"=?,\"").intercalate fs ++
    text "\"=? where \"id\"=?"
  selectSQL := text "select \"" ++ (text "\",\"").intercalate (text "id" :: fs) ++
    text "\" from \"" ++ table ++ text "\""
  save item := some (num item.id) :: item.fields
  update item := item.fields ++ [some (num item.id)]
  load row _ := ⟨asNum (row.getD 0 none), columnsFrom 1 fs.length row⟩

end Macros

end HkuUtils.TableMacro
