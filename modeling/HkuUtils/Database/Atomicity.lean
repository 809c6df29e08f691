import Mathlib.Order.Lattice
import HkuUtils.Database.Effects

set_option relaxedAutoImplicit false
set_option autoImplicit false

/-!
# Writes are all or nothing

Each writing function works in a transaction of its own and rolls it back in its catch arms, so a
call that throws leaves the rows and the transaction as they were. `batchSaveOrUpdate` uses two
transactions, one after the other.

## Main definitions

* `HkuUtils.Database.unsaved`, `saved` — the items that `batchSaveOrUpdate` inserts and updates.
* `HkuUtils.Database.plainBackend` — an engine that numbers the rows one after the other.

## Main results

* `HkuUtils.Database.save_atomic`, `batchSave_atomic`, `batchUpdate_atomic`, `remove_atomic`,
  `removeWhere_atomic` — the functions with one transaction.
* `HkuUtils.Database.batchSaveOrUpdate_atomic_iff` — the function with two.
* `HkuUtils.Database.writes_all_or_nothing`, `write_not_all_or_nothing` — all of them, and a call
  that commits half of its work.
-/

namespace HkuUtils.Database

open Fallible Transaction

variable {R : Type} {B : Backend R} {T : TableBind}

/-! ## The functions with one transaction -/

/-- The preparation of a statement does not change anything. -/
lemma keeps_conn_getStatement {τ : Type} :
    Keeps (fun s : Session (List (Row R)) × τ => s.1.conn) (lift (getStatement B)) :=
  .lift keeps_conn_attempt

/-- `save`. -/
lemma save_atomic : Atomic (save B T true) := by
  refine .bind_keeps .get fun s => .bind_keeps keeps_conn_getStatement fun _ => ?_
  exact inTransaction_atomic (.ite keeps_saved_updateItem keeps_saved_insertItem) (returns_pure ())

/-- `batchSave`. -/
lemma batchSave_atomic : Atomic (batchSave B T true) := by
  refine .bind_keeps .get fun s => ?_
  split
  · exact .of_returns (returns_pure ())
  · refine .bind_keeps keeps_conn_getStatement fun _ => ?_
    exact inTransaction_atomic (.forEach keeps_saved_insertItem) (returns_pure ())

/-- `batchUpdate`. -/
lemma batchUpdate_atomic : Atomic (batchUpdate B T true) := by
  refine .bind_keeps .get fun s => ?_
  split
  · exact .of_returns (returns_pure ())
  · refine .bind_keeps keeps_conn_getStatement fun _ => ?_
    exact inTransaction_atomic (.forEach keeps_saved_updateItem) (returns_pure ())

/-- `remove`. -/
lemma remove_atomic : Atomic (remove B T true) := by
  refine .bind_keeps .get fun s => ?_
  split
  · refine .bind_keeps keeps_conn_getStatement fun _ => ?_
    exact inTransaction_atomic ((Keeps.lift (keeps_saved_exec _)).bind fun _ => .pure _)
      fun s => ⟨(), rfl⟩
  · exact fun _ _ => rfl

/-- `remove(tablename, where)`. -/
lemma removeWhere_atomic (tablename where_ : String) :
    Atomic (removeWhere B tablename where_ true) :=
  inTransaction_atomic (.lift (keeps_saved_perform _)) (returns_pure ())

/-! ## The function with two -/

section SaveOrUpdate

variable {s : Session (List (Row R))} {items : List (Item R)}

/-- The items that `batchSaveOrUpdate` inserts. -/
def unsaved (items : List (Item R)) : List (Item R) := items.filter (!·.valid)

/-- The items that it updates. -/
def saved (items : List (Item R)) : List (Item R) := items.filter (·.valid)

/-- The failure of the first half leaves everything as it was. -/
lemma batchSaveOrUpdate_save_error {e : Error} {t : Session (List (Row R))}
    {items' : List (Item R)}
    (h : batchSave B T true (s, unsaved items) = (.error e, (t, items'))) :
    batchSaveOrUpdate B T true (s, items) = (.error e, (t, items)) := by
  have hcopy : onCopy (unsaved items) (batchSave B T true) (s, items) =
      (.error e, (t, items)) := by
    rw [onCopy_apply]
    simp only [h]
  exact (bind_ok (get_apply _) _).trans (bind_error hcopy _)

/-- After the first half the second one begins. -/
lemma batchSaveOrUpdate_save_ok {autotrans : Bool} {u : Unit} {t : Session (List (Row R))}
    {items' : List (Item R)}
    (h : batchSave B T autotrans (s, unsaved items) = (.ok u, (t, items'))) :
    batchSaveOrUpdate B T autotrans (s, items) =
      ((batchUpdate B T autotrans (t, saved items)).1,
        ((batchUpdate B T autotrans (t, saved items)).2.1, items)) := by
  have hcopy : onCopy (unsaved items) (batchSave B T autotrans) (s, items) =
      (.ok u, (t, items)) := by
    rw [onCopy_apply]
    simp only [h]
  exact (bind_ok (get_apply _) _).trans (bind_ok hcopy _)

/-- **When `batchSaveOrUpdate` is all or nothing**: unless it commits insertions and then fails in
the updates.

**Proof sketch.** If the insertions throw, then they are rolled back and nothing is updated. If
they are committed, then the updates have a transaction of their own, which is rolled back if it
throws; what was inserted stays. -/
lemma batchSaveOrUpdate_atomic_iff :
    (Throws (batchSaveOrUpdate B T true) (s, items) →
      (batchSaveOrUpdate B T true (s, items)).2.1.conn = s.conn) ↔
    s.saved.isSome = true ∨ unsaved items = [] ∨ saved items = [] ∨
      ¬ Clear B.toEngine s.clock (3 * (unsaved items).length + 3) ∨
      Clear B.toEngine (s.clock + (3 * (unsaved items).length + 3))
        (2 * (saved items).length + 3) := by
  rcases hsave : batchSave B T true (s, unsaved items) with ⟨r, t, items'⟩
  cases r with
  | error e =>
    have hthrows := throws_of_eq hsave
    have hconn : t.conn = s.conn := by
      have := batchSave_atomic (s, unsaved items) hthrows
      rwa [hsave] at this
    have hne : unsaved items ≠ [] := by
      intro hnil
      rw [hnil, batchSave_nil] at hsave
      cases hsave
    rw [batchSaveOrUpdate_save_error hsave]
    refine iff_of_true (fun _ => hconn) ?_
    cases hs : s.saved with
    | some rows => exact Or.inl rfl
    | none =>
      have hnot := (batchSave_returns_iff (T := T) hne hs).not.mp (throws_iff.mp hthrows)
      exact Or.inr (Or.inr (Or.inr (Or.inl hnot)))
  | ok u =>
    rw [Throws, batchSaveOrUpdate_save_ok hsave]
    by_cases hne : unsaved items = []
    · -- the first half has done nothing
      rw [hne, batchSave_nil] at hsave
      cases hsave
      exact iff_of_true (batchUpdate_atomic (s, saved items)) (Or.inr (Or.inl hne))
    obtain ⟨hs, ht, hclock⟩ := batchSave_clock hne hsave
    have hclear := (batchSave_returns_iff hne hs).mp (returns_of_eq hsave)
    by_cases hnil : saved items = []
    · rw [hnil, batchUpdate_nil]
      refine iff_of_true ?_ (Or.inr (Or.inr (Or.inl rfl)))
      rintro ⟨e, he⟩
      cases he
    have hreturns := batchUpdate_returns_iff (B := B) (T := T) hnil ht
    rw [hclock] at hreturns
    by_cases hup : Returns (batchUpdate B T true) (t, saved items)
    · exact iff_of_true (fun hthrows => absurd hup (throws_iff.mp hthrows))
        (Or.inr (Or.inr (Or.inr (Or.inr (hreturns.mp hup)))))
    · have hthrows := throws_iff.mpr hup
      have hconn := batchUpdate_atomic (t, saved items) hthrows
      have hdata : t.data.length = s.data.length + (unsaved items).length := by
        rw [show t.data = _ from congrArg Prod.fst (batchSave_ok hsave), length_inserted]
      refine iff_of_false (fun h => ?_) ?_
      · have hrows : t.data = s.data := congrArg Prod.fst (hconn.symm.trans (h hthrows))
        rw [hrows] at hdata
        exact hne (List.length_eq_zero_iff.mp (by omega))
      · rw [hs]
        rintro (h | h | h | h | h)
        · simp at h
        · exact hne h
        · exact hnil h
        · exact h hclear
        · exact hup (hreturns.mpr h)

end SaveOrUpdate

/-- **Writes are all or nothing**: a call that throws leaves the rows and the transaction as they
were, whatever the items and whichever attempts fail. For `batchSaveOrUpdate` this is so exactly if
it does not commit insertions before an update fails: it has only one kind of items, or one of the
attempts of `batchSave` fails, or none of those of `batchUpdate`. (Inside of a transaction it
cannot start one.)

**Proof sketch.** Five of the functions are a body in one transaction, which `inTransaction_atomic`
covers. `batchSaveOrUpdate` is two of them, one after the other, and only a failure between their
commits splits it. -/
theorem writes_all_or_nothing (B : Backend R) (T : TableBind) :
    Atomic (save B T true) ∧ Atomic (batchSave B T true) ∧ Atomic (batchUpdate B T true) ∧
    Atomic (remove B T true) ∧
    (∀ tablename where_, Atomic (removeWhere B tablename where_ true)) ∧
    ∀ (s : Session (List (Row R))) (items : List (Item R)),
      (Throws (batchSaveOrUpdate B T true) (s, items) →
        (batchSaveOrUpdate B T true (s, items)).2.1.conn = s.conn) ↔
      s.saved.isSome = true ∨ unsaved items = [] ∨ saved items = [] ∨
        ¬ Clear B.toEngine s.clock (3 * (unsaved items).length + 3) ∨
        Clear B.toEngine (s.clock + (3 * (unsaved items).length + 3))
          (2 * (saved items).length + 3) :=
  ⟨save_atomic, batchSave_atomic, batchUpdate_atomic, remove_atomic, removeWhere_atomic,
    fun _ _ => batchSaveOrUpdate_atomic_iff⟩

/-- The largest id of a table. -/
def maxId (rows : List (Row R)) : ℕ := (rows.map (·.id)).foldr max 0

/-- No id is larger. -/
lemma le_maxId {rows : List (Row R)} {id : ℕ} (h : id ∈ rows.map (·.id)) : id ≤ maxId rows := by
  unfold maxId
  induction rows with
  | nil => simp at h
  | cons r rows ih =>
    rw [List.map_cons] at h ⊢
    rw [List.foldr_cons]
    rcases List.mem_cons.mp h with rfl | h
    · exact le_max_left _ _
    · exact (ih h).trans (le_max_right _ _)

/-- An engine that gives each row the number after the largest one, with a fault plan, whose SQL
texts do nothing. -/
def plainBackend (R : Type) (fault : ℕ → Option Error) : Backend R where
  fault := fault
  nested := .sql 1 "cannot start a transaction within a transaction"
  idle := .sql 1 "cannot commit - no transaction is active"
  newId rows := maxId rows + 1
  newId_ne_zero rows := Nat.succ_ne_zero _
  newId_fresh rows h := by
    have := le_maxId h
    omega
  execSql _ rows := rows

/-- A session with a table and nothing in progress. -/
def openSession (rows : List (Row R)) : Session (List (Row R)) := ⟨rows, none, 0, []⟩

/-- The update of the second item fails when the insertion of the first one is committed. -/
theorem write_not_all_or_nothing : ∃ (B : Backend String) (T : TableBind) (e : Error)
    (t : Session (List (Row String))),
    batchSaveOrUpdate B T true (openSession [⟨1, "a"⟩], [⟨0, "b"⟩, ⟨1, "c"⟩]) =
      (.error e, (t, [⟨0, "b"⟩, ⟨1, "c"⟩])) ∧
    t.data = [⟨1, "a"⟩, ⟨2, "b"⟩] ∧ t.saved = none ∧
    ¬ Atomic (batchSaveOrUpdate B T true) := by
  let B := plainBackend String fun i => if i = 9 then some (.sql 19 "constraint failed") else none
  refine ⟨B, ⟨"t", "insert", "update"⟩, _, _, rfl, rfl, rfl, fun h => ?_⟩
  have := h (openSession [⟨1, "a"⟩], [⟨0, "b"⟩, ⟨1, "c"⟩]) ⟨_, rfl⟩
  exact absurd (congrArg (fun c => c.1.length) this) (by decide)

end HkuUtils.Database
