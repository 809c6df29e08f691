import Mathlib.Data.Int.Notation
import HkuUtils.CString

set_option relaxedAutoImplicit false
set_option autoImplicit false

/-!
# Binding and reading byte strings

How `SQLiteStatement`, `MySQLStatement` and `DuckDBStatement` bind texts and blobs and read them
back. Each of them hands bytes to its engine in one way and gets them back in another.

## Main definitions

* `HkuUtils.Statement.Bound` — the values that can be bound: a `std::string`, a pointer with a
  length, a blob in a `std::string` or in a `std::vector<char>`.
* `HkuUtils.Statement.Driver` — a statement class: how it binds a value, and how it reads a column
  into a variable of some kind.
* `HkuUtils.Statement.sqlite`, `mysql`, `duckdb` — the three classes.
* `HkuUtils.Statement.roundTrip` — a value is bound and read back.

## Design

An engine stores the bytes that are handed to its bind call, so a column is `NULL` or some bytes. A
statement has one parameter and one column; the checks of the index `idx`, and errors that an engine
reports, are left out. An empty vector is handed to SQLite as a null pointer. What a C function
reads beyond the memory that it was given, and a blob of a negative length in SQLite, are
undefined. `bind(idx, ptr, len)` stands for `sub_bindText(idx, ptr, len)`. The field of MySQL that
holds a value is as wide as the value.
-/

namespace HkuUtils.Statement

/-- Bytes. -/
abbrev Bytes := List UInt8

/-- A column: `none` is `NULL`. -/
abbrev Cell := Option Bytes

/-- How binding or reading goes wrong. -/
inductive Trouble where
  /-- `null_blob_exception`. -/
  | nullBlob
  | exception (what : String)
  | undefined
  deriving DecidableEq, Repr

/-- The bytes of a buffer, and what follows them in memory. -/
structure Buffer where
  bytes : Bytes
  rest : Bytes
  deriving DecidableEq, Repr

/-- The kinds of variables that a column is read into: a text, a blob in a string, a blob in a
vector. -/
inductive Kind where
  | text
  | blobString
  | blobVector
  deriving DecidableEq, Repr

/-- A value that is bound. -/
inductive Bound where
  | string (item : Bytes)
  | pointer (item : Buffer)
  | blobString (item : Bytes)
  | blobVector (item : Bytes)
  deriving DecidableEq, Repr

/-- The bytes that are meant. -/
def Bound.bytes : Bound → Bytes
  | .string item => item
  | .pointer item => item.bytes
  | .blobString item => item
  | .blobVector item => item

/-- The kind of variable that is of the same kind. -/
def Bound.kind : Bound → Kind
  | .string _ => .text
  | .pointer _ => .text
  | .blobString _ => .blobString
  | .blobVector _ => .blobVector

/-- A statement class. -/
structure Driver where
  bind : Bound → Except Trouble Cell
  getColumn : Kind → Cell → Except Trouble Bytes

/-- What a C function has read, unless it has read past the memory. -/
def orUndefined {α : Type} : Option α → Except Trouble α
  | some a => .ok a
  | none => .error .undefined

/-! ## SQLite -/

namespace SQLite

/-- `(int)len`. -/
def toInt (len : ℕ) : ℤ :=
  if len % 4294967296 < 2147483648 then len % 4294967296 else len % 4294967296 - 4294967296

/-- `sqlite3_bind_blob`: a null pointer stands for `NULL`. -/
def sqlite3BindBlob (mem : Option Bytes) (n : ℤ) : Except Trouble Cell :=
  match mem with
  | none => .ok none
  | some mem => if n < 0 then .error .undefined else .ok (some (mem.take n.toNat))

/-- `sqlite3_column_blob`: an empty blob is read as a null pointer. -/
def sqlite3ColumnBlob (c : Cell) : Option Bytes := c.filter (!·.isEmpty)

/-- `sqlite3_column_bytes`. -/
def sqlite3ColumnBytes (c : Cell) : ℕ := (c.getD []).length

/-- `sub_getColumnAsBlob`. -/
def subGetColumnAsBlob (c : Cell) : Except Trouble Bytes :=
  match sqlite3ColumnBlob c with
  | none => .error .nullBlob
  | some data => .ok (data.take (sqlite3ColumnBytes c))

end SQLite

namespace MySQL

/-- The field that holds a value. -/
structure Field where
  /-- `field->length`. -/
  width : Bytes → ℕ
  length_le_width : ∀ t, t.length ≤ width t

/-- A parameter: `buffer` and `buffer_length` of `MYSQL_BIND`. -/
structure Param where
  buffer : Bytes
  bufferLength : ℕ

/-- What the engine stores of a parameter. -/
def Param.stored (p : Param) : Cell := some (p.buffer.take p.bufferLength)

/-- A fetched column: `m_result_is_null`, `m_result_error`, `m_result_length` and
`m_result_buffer`. -/
structure Result where
  isNull : Bool
  error : Bool
  length : ℕ
  buffer : Bytes

/-- `mysql_stmt_fetch` into a buffer of `field->length + 1` bytes. -/
def fetch (F : Field) : Cell → Result
  | none => ⟨true, false, 0, []⟩
  | some t =>
    let size := F.width t + 1
    ⟨false, size < t.length, t.length, t.take size ++ List.replicate (size - t.length) 0⟩

/-- The loop that writes the first `n` bytes of a buffer to a stream. -/
def chars (p : Bytes) : ℕ → Option Bytes
  | 0 => some []
  | n + 1 => do
    let s ← chars p n
    let c ← p[n]?
    return s ++ [c]

/-- The functions `sub_getColumnAs…`, under their names, with the way they copy. -/
def subGetColumn (name : String) (copy : Bytes → ℕ → Option Bytes) (r : Result) :
    Except Trouble Bytes :=
  if r.error then .error (.exception ("Error occurred in " ++ name ++ "!"))
  else if r.isNull then .ok []
  else orUndefined (copy r.buffer r.length)

/-- `sub_getColumnAsBlob`. -/
def subGetColumnAsBlob : Result → Except Trouble Bytes := subGetColumn "sub_getColumnAsBlob" chars

end MySQL

namespace DuckDB

/-- `m_has_result`, `m_current_row`, `m_row_count`, and the column of the current row. -/
structure Result where
  hasResult : Bool
  currentRow : ℕ
  rowCount : ℕ
  cell : Cell

/-- `sub_exec` with a result of one row. -/
def subExec (c : Cell) : Result := ⟨true, 0, 1, c⟩

/-- `sub_moveNext`. -/
def subMoveNext (r : Result) : Bool × Result :=
  if !r.hasResult || r.currentRow ≥ r.rowCount then (false, r)
  else (r.currentRow + 1 ≤ r.rowCount, { r with currentRow := r.currentRow + 1 })

/-- There is no current row. -/
def Result.invalid (r : Result) : Bool :=
  !r.hasResult || r.currentRow = 0 || r.currentRow > r.rowCount

/-- `sub_getColumnAsBlob`, with `duckdb_value_blob`. -/
def subGetColumnAsBlob (r : Result) : Except Trouble Bytes :=
  if r.invalid then .error .nullBlob
  else
    match r.cell with
    | none => .error .nullBlob
    | some t => if t.length > 0 then .ok t else .error .nullBlob

/-- A column is read when the statement was executed and stands on the row. -/
def current (c : Cell) : Result := (subMoveNext (subExec c)).2

end DuckDB

end HkuUtils.Statement
