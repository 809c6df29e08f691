import HkuUtils.Database.Atomicity

set_option relaxedAutoImplicit false
set_option autoImplicit false

/-!
# Batches of removals

`batchRemove` starts a transaction of its own and calls `remove` for each item, and that starts
another one: its flag `autotrans` is not passed on.

## Main definitions

* `HkuUtils.Database.RemovesBatch` — what a batch of removals is to do.

## Main results

* `HkuUtils.Database.remove_nested` — a removal inside of a transaction.
* `HkuUtils.Database.removeItems_nested`, `batchRemove_own` — a loop of removals inside of a
  transaction, and the batch that starts this transaction itself.
* `HkuUtils.Database.batchRemove_never`, `batchRemove_fails` — no batch does what it is to do.
-/

namespace HkuUtils.Database

open Fallible Transaction

variable {R : Type} {B : Backend R} {T : TableBind} {s : Session (List (Row R))}

/-- **What `batchRemove` is to do** with `items` on the session `s`. Outside of a transaction of
the caller it opens one of its own, and inside of one it only removes. -/
structure RemovesBatch (B : Backend R) (T : TableBind) (s : Session (List (Row R)))
    (items : List (Item R)) : Prop where
  /-- Outside of a transaction, one transaction removes the rows. -/
  own : s.saved = none → ∃ t, batchRemove B T true (s, items) =
    (.ok (), (t, items.map fun it => { it with id := 0 })) ∧
    t.data = s.data.filter (fun r => r.id ∉ items.map (·.id)) ∧ t.saved = none ∧
    t.log = s.log ++ [.start, .commit]
  /-- A batch that throws changes nothing. -/
  failed : Throws (batchRemove B T true) (s, items) →
    (batchRemove B T true (s, items)).2.1.conn = s.conn ∧
    (batchRemove B T true (s, items)).2.2 = items
  /-- Inside of a transaction of the caller, no command is issued. -/
  nested : s.saved.isSome = true → (batchRemove B T false (s, items)).2.1.log = s.log

/-- **A removal inside of a transaction** throws and changes nothing. It has issued a command if
the item is valid and the preparation of the statement does not fail.

**Proof sketch.** By cases on whether the item is valid and its statement is prepared; then the
start of the transaction fails, since one is open. -/
lemma remove_nested (hs : s.saved.isSome = true) (it : Item R) :
    ∃ e t, remove B T true (s, it) = (.error e, (t, it)) ∧ t.conn = s.conn ∧
      (it.valid = true → B.fault s.clock = none → t.log = s.log ++ [.start]) := by
  rw [remove, bind_ok (get_apply _)]
  by_cases hit : it.valid = true
  · rw [if_pos hit]
    cases hf : B.fault s.clock with
    | some e =>
      rw [bind_error (lift_getStatement_error hf it)]
      exact ⟨e, _, rfl, rfl, fun _ h => by cases h⟩
    | none =>
      have hnot : ¬ (B.fault s.tick.clock = none ∧ s.tick.saved = none) := by
        rintro ⟨_, hnone⟩
        rw [show s.saved = none from hnone] at hs
        cases hs
      obtain ⟨e, he⟩ := inTransaction_start_error hnot
      rw [bind_ok (lift_getStatement_ok hf it)]
      exact ⟨e, _, he, rfl, fun _ _ => rfl⟩
  · rw [if_neg hit]
    exact ⟨_, s, rfl, rfl, fun h => absurd h hit⟩

/-- The first removal of a loop inside of a transaction breaks it off. -/
lemma removeItems_nested (hs : s.saved.isSome = true) {items : List (Item R)} (hne : items ≠ []) :
    ∃ e t, forEach (remove B T true) (s, items) = (.error e, (t, items)) ∧ t.conn = s.conn ∧
      ((items.head hne).valid = true → B.fault s.clock = none → t.log = s.log ++ [.start]) := by
  cases items with
  | nil => exact absurd rfl hne
  | cons it items =>
    obtain ⟨e, t, he, hconn, hlog⟩ := remove_nested (B := B) (T := T) hs it
    exact ⟨e, t, forEach_cons_error he items, hconn, hlog⟩

/-- **A batch outside of a transaction** throws and changes nothing, whatever fails. -/
lemma batchRemove_own (hs : s.saved = none) {items : List (Item R)} (hne : items ≠ []) :
    ∃ e t, batchRemove B T true (s, items) = (.error e, (t, items)) ∧ t.conn = s.conn := by
  have hlen : ¬ items.length = 0 := by simpa using hne
  rw [batchRemove, bind_ok (get_apply _), if_neg hlen]
  by_cases hstart : B.fault s.clock = none
  · obtain ⟨e, t, he, hconn, _⟩ :=
      removeItems_nested (B := B) (T := T) (s := s.started) rfl hne
    have hsaved : t.saved = some s.data := congrArg Prod.snd hconn
    refine ⟨_, _, inTransaction_body_error hstart hs he, ?_⟩
    simp only [Session.conn, Session.rolledBack, Session.note, hsaved, Option.getD_some, hs]
  · obtain ⟨e, he⟩ : ∃ e, inTransaction B.toEngine true failedRemove
        (forEach (remove B T true)) (pure ()) (s, items) = (.error e, _) :=
      inTransaction_start_error fun h => hstart h.1
    exact ⟨e, _, he, rfl⟩

/-- **A batch inside of a transaction** of the caller issues a command. -/
lemma batchRemove_nested (hs : s.saved.isSome = true) {items : List (Item R)} (hne : items ≠ [])
    (hvalid : (items.head hne).valid = true) (hf : B.fault s.clock = none) :
    (batchRemove B T false (s, items)).2.1.log = s.log ++ [.start] := by
  have hlen : ¬ items.length = 0 := by simpa using hne
  obtain ⟨e, t, he, _, hlog⟩ := removeItems_nested (B := B) (T := T) hs hne
  have hrun : batchRemove B T false (s, items) = (.error (failedRemove e), (t, items)) := by
    rw [batchRemove, bind_ok (get_apply _), if_neg hlen, inTransaction_false,
      tryCatch_error (bind_error he _)]
    rfl
  rw [hrun]
  exact hlog hvalid hf

/-- A single removal that returns was given a valid item, and its first attempt has not failed. -/
lemma remove_returns {it : Item R} (h : Returns (remove B T true) (s, it)) :
    it.valid = true ∧ B.fault s.clock = none := by
  obtain ⟨u, hu⟩ := h
  rw [remove, bind_ok (get_apply _)] at hu
  by_cases hit : it.valid = true
  · refine ⟨hit, ?_⟩
    rw [if_pos hit] at hu
    cases hf : B.fault s.clock with
    | none => rfl
    | some e =>
      rw [bind_error (lift_getStatement_error hf it)] at hu
      cases hu
  · rw [if_neg hit] at hu
    cases hu

/-- **No batch does what it is to do**: for any items, each of which `remove` would remove when
called for it alone, the batch outside of a transaction throws, and the one inside of a transaction
issues a command. Outside of a transaction it changes nothing when it throws, which it always does.

**Proof sketch.** Outside of a transaction the batch starts one, and the first removal in it starts
another, which fails. Inside of one, the first removal issues its start before it fails. -/
theorem batchRemove_never (B : Backend R) (T : TableBind) (s : Session (List (Row R)))
    (items : List (Item R)) (hne : items ≠ [])
    (hsingle : ∀ it ∈ items, Returns (remove B T true) ({ s with saved := none }, it)) :
    ¬ RemovesBatch B T s items ∧
    (s.saved = none → ∃ e t, batchRemove B T true (s, items) = (.error e, (t, items)) ∧
      t.conn = s.conn) := by
  refine ⟨fun h => ?_, fun hs => batchRemove_own hs hne⟩
  cases hs : s.saved with
  | none =>
    obtain ⟨e, t, he, _⟩ := batchRemove_own (B := B) (T := T) hs hne
    obtain ⟨t', ht', _⟩ := h.own hs
    cases he.symm.trans ht'
  | some rows =>
    have hopen : s.saved.isSome = true := by rw [hs]; rfl
    obtain ⟨hvalid, hf⟩ := remove_returns (hsingle _ (List.head_mem hne))
    have hlog := batchRemove_nested (B := B) (T := T) hopen hne hvalid hf
    rw [h.nested hopen] at hlog
    exact absurd (congrArg List.length hlog) (by simp)

/-- A batch of one item, outside of a transaction and inside of one. -/
theorem batchRemove_fails : ∃ (B : Backend String) (T : TableBind) (e e' : Error)
    (t t' : Session (List (Row String))),
    batchRemove B T true (openSession [⟨1, "a"⟩], [⟨1, "a"⟩]) = (.error e, (t, [⟨1, "a"⟩])) ∧
    t.data = [⟨1, "a"⟩] ∧
    batchRemove B T false ((openSession [⟨1, "a"⟩]).started, [⟨1, "a"⟩]) =
      (.error e', (t', [⟨1, "a"⟩])) ∧ t'.log = [.start, .start] :=
  ⟨plainBackend String fun _ => none, ⟨"t", "insert", "update"⟩, _, _, _, _, rfl, rfl, rfl, rfl⟩

/-- Two items which `remove` would remove alone. -/
theorem batchRemove_never_two :
    (∀ it ∈ [(⟨1, "a"⟩ : Item String), ⟨2, "b"⟩],
      Returns (remove (plainBackend String fun _ => none) ⟨"t", "insert", "update"⟩ true)
        ({ openSession [⟨1, "a"⟩, ⟨2, "b"⟩] with saved := none }, it)) ∧
    ¬ RemovesBatch (plainBackend String fun _ => none) ⟨"t", "insert", "update"⟩
      (openSession [⟨1, "a"⟩, ⟨2, "b"⟩]) [⟨1, "a"⟩, ⟨2, "b"⟩] := by
  have hsingle : ∀ it ∈ [(⟨1, "a"⟩ : Item String), ⟨2, "b"⟩],
      Returns (remove (plainBackend String fun _ => none) ⟨"t", "insert", "update"⟩ true)
        ({ openSession [⟨1, "a"⟩, ⟨2, "b"⟩] with saved := none }, it) := by
    intro it hit
    simp only [List.mem_cons, List.not_mem_nil, or_false] at hit
    rcases hit with rfl | rfl
    · exact ⟨(), rfl⟩
    · exact ⟨(), rfl⟩
  exact ⟨hsingle, (batchRemove_never _ _ _ _ (by decide) hsingle).1⟩

end HkuUtils.Database
