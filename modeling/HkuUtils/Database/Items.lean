import HkuUtils.Database.Atomicity

set_option relaxedAutoImplicit false
set_option autoImplicit false

/-!
# The items after a failed write

`save` and `batchSave` write the id of a new row into the item as soon as they have read it. The
rollback takes the row away again, but not the id.

## Main results

* `HkuUtils.Database.save_snd_of_valid`, `save_snd_of_not_valid`, `batchSave_snd` — the items after
  a call, however it ends.
* `HkuUtils.Database.written_ids_eq_iff` — when a loop of insertions leaves all ids as they were.
* `HkuUtils.Database.items_kept_on_failure`, `item_not_kept_on_failure` — the ids are as before
  after a call that throws exactly if no id has been written before that, and a call in which one
  has been.
-/

namespace HkuUtils.Database

open Fallible Transaction

variable {R : Type} {B : Backend R} {T : TableBind} {s : Session (List (Row R))}

/-! ## One item -/

/-- An update leaves the item as it is. -/
lemma updateItem_snd (s : Session (List (Row R)) × Item R) : (updateItem B s).2.2 = s.2 := by
  have hkeeps : Keeps (fun s : Session (List (Row R)) × Item R => s.2) (updateItem B) := by
    refine Keeps.get.bind fun s => ?_
    refine (Keeps.lift_snd (s.2.update B)).bind fun st => ?_
    exact (Keeps.lift_snd (exec B st)).bind fun _ => .pure _
  exact hkeeps s

/-- What an insertion makes of the item. -/
lemma insertItem_snd (s : Session (List (Row R))) (it : Item R) :
    (insertItem B (s, it)).2.2 =
      if Clear B.toEngine s.clock 3 then { it with id := B.newId s.data } else it := by
  split
  · next h => rw [insertItem_ok h]
  · next h =>
    obtain ⟨e, t, he⟩ := insertItem_error h it
    rw [he]

/-- `save` as a statement that is prepared and a body in a transaction. -/
lemma save_eq (it : Item R) :
    save B T true (s, it) =
      prepared B true
        (failed ("failed save! sql: " ++ (if it.valid then Sql.update else Sql.insert).text T))
        (if it.valid then updateItem B else insertItem B) (s, it) := rfl

/-- `save` of a saved item leaves the item as it is. -/
lemma save_snd_of_valid {it : Item R} (hit : it.valid = true) :
    (save B T true (s, it)).2.2 = it := by
  rw [save_eq, if_pos hit, if_pos hit, prepared_snd keeps_saved_updateItem, updateItem_snd]
  split <;> rfl

/-- What `save` makes of an unsaved item, however it ends. -/
lemma save_snd_of_not_valid {it : Item R} (hit : ¬ it.valid = true) :
    (save B T true (s, it)).2.2 =
      if Clear B.toEngine s.clock 5 ∧ s.saved = none then { it with id := B.newId s.data }
      else it := by
  have hclear : Clear B.toEngine s.clock 5 ↔
      Clear B.toEngine s.clock 2 ∧ Clear B.toEngine s.tick.started.clock 3 := clear_add s.clock 2 3
  rw [save_eq, if_neg hit, if_neg hit, prepared_snd keeps_saved_insertItem, insertItem_snd]
  by_cases hstart : Clear B.toEngine s.clock 2 ∧ s.saved = none
  · rw [if_pos hstart]
    by_cases hbody : Clear B.toEngine s.tick.started.clock 3
    · rw [if_pos hbody, if_pos ⟨hclear.mpr ⟨hstart.1, hbody⟩, hstart.2⟩]
      rfl
    · rw [if_neg hbody, if_neg fun h => hbody (hclear.mp h.1).2]
  · rw [if_neg hstart, if_neg fun h => hstart ⟨(hclear.mp h.1).1, h.2⟩]

/-- When `save` of an unsaved item returns. -/
lemma save_returns_iff (hs : s.saved = none) {it : Item R} (hit : ¬ it.valid = true) :
    Returns (save B T true) (s, it) ↔ Clear B.toEngine s.clock 6 := by
  rw [Returns, save_eq, if_neg hit, if_neg hit]
  exact prepared_returns_iff (n := fun _ => 3) steps_insertItem keeps_saved_insertItem hs

/-- **The item after a `save` that throws** is as before exactly if no id has been read by then.

**Proof sketch.** By cases on whether the item is valid and whether a transaction is open;
otherwise the id is read behind the fifth attempt, before the commit, which is the sixth. -/
lemma save_kept_iff (it : Item R) :
    (Throws (save B T true) (s, it) → (save B T true (s, it)).2.2.id = it.id) ↔
      s.saved.isSome = true ∨ it.valid = true ∨ Clear B.toEngine s.clock 6 ∨
        ¬ Clear B.toEngine s.clock 5 := by
  by_cases hit : it.valid = true
  · rw [save_snd_of_valid hit]
    exact iff_of_true (fun _ => rfl) (Or.inr (Or.inl hit))
  rw [save_snd_of_not_valid hit]
  cases hs : s.saved with
  | some rows => exact iff_of_true (fun _ => by simp) (Or.inl rfl)
  | none =>
    rw [throws_iff, save_returns_iff hs hit]
    have hid : it.id ≠ B.newId s.data := by
      have : it.id = 0 := by simpa [Item.valid] using hit
      rw [this]
      exact (B.newId_ne_zero s.data).symm
    by_cases h5 : Clear B.toEngine s.clock 5
    · rw [if_pos ⟨h5, rfl⟩]
      simp only [Ne.symm hid, imp_false, not_not, Option.isSome_none, Bool.false_eq_true, hit,
        h5, not_true_eq_false, or_false, false_or]
    · rw [if_neg fun h => h5 h.1]
      exact iff_of_true (fun _ => rfl) (Or.inr (Or.inr (Or.inr h5)))

/-! ## Several items -/

/-- **When a loop of insertions leaves all ids as they were**: each item that was reached had the
id of its new row before.

**Proof sketch.** By induction on the items. Each takes three attempts, and the first one that
fails ends the loop with the others unchanged. -/
lemma written_ids_eq_iff (rows : List (Row R)) (c : ℕ) (items : List (Item R)) :
    (written B rows c items).map (·.id) = items.map (·.id) ↔
      ∀ (j : ℕ) (h : j < items.length), Clear B.toEngine c (3 * (j + 1)) →
        items[j].id = B.newId (inserted B rows (items.take j)).1 := by
  induction items generalizing rows c with
  | nil => simp [written]
  | cons it items ih =>
    rw [written]
    by_cases hc : Clear B.toEngine c 3
    · rw [if_pos hc, List.map_cons, List.map_cons, List.cons.injEq, ih]
      constructor
      · rintro ⟨hit, hrest⟩ j hj hclear
        cases j with
        | zero => exact hit.symm
        | succ j =>
          refine hrest j (Nat.lt_of_succ_lt_succ hj) ?_
          exact ((clear_add c 3 (3 * (j + 1))).mp (by rwa [Nat.add_comm])).2
      · intro h
        refine ⟨(h 0 (Nat.zero_lt_succ _) hc).symm, fun j hj hclear => ?_⟩
        refine h (j + 1) (Nat.succ_lt_succ hj) ?_
        have := (clear_add c 3 (3 * (j + 1))).mpr ⟨hc, hclear⟩
        rwa [Nat.add_comm] at this
    · rw [if_neg hc]
      exact iff_of_true rfl fun j _ hclear => absurd (hclear.mono (by omega)) hc

/-- The items after `batchSave`, however it ends. -/
lemma batchSave_snd (items : List (Item R)) :
    (batchSave B T true (s, items)).2.2 =
      if Clear B.toEngine s.clock 2 ∧ s.saved = none then written B s.data (s.clock + 2) items
      else items := by
  by_cases hnil : items = []
  · subst hnil
    rw [batchSave_nil]
    split <;> rfl
  · have hlen : ¬ items.length = 0 := by simpa using hnil
    rw [batchSave, bind_ok (get_apply _), if_neg hlen]
    have hsnd : (prepared B true (failed ("failed batch save! sql: " ++ Sql.insert.text T))
        (forEach (insertItem B)) (s, items)).2.2 = _ :=
      prepared_snd (.forEach keeps_saved_insertItem)
    refine hsnd.trans ?_
    rw [insertItems_snd]
    rfl

/-- **The items after a `batchSave` that throws** are as before exactly if each item whose id has
been read by then had this id before.

**Proof sketch.** By cases on whether the transaction starts at all. If it does, then the items
whose ids were read before the failure have new ones, and the rollback does not take them back. -/
lemma batchSave_kept_iff (items : List (Item R)) :
    (Throws (batchSave B T true) (s, items) →
      (batchSave B T true (s, items)).2.2.map (·.id) = items.map (·.id)) ↔
      s.saved.isSome = true ∨ Clear B.toEngine s.clock (3 * items.length + 3) ∨
        ∀ (j : ℕ) (h : j < items.length), Clear B.toEngine s.clock (3 * j + 5) →
          items[j].id = B.newId (inserted B s.data (items.take j)).1 := by
  rw [batchSave_snd]
  by_cases hnil : items = []
  · subst hnil
    refine iff_of_true (fun hthrows => ?_) (Or.inr (Or.inr fun j h => absurd h (by simp)))
    exact absurd (returns_of_eq batchSave_nil) (throws_iff.mp hthrows)
  cases hs : s.saved with
  | some rows => exact iff_of_true (fun _ => by simp) (Or.inl rfl)
  | none =>
    rw [throws_iff, batchSave_returns_iff hnil hs]
    have hsplit (j : ℕ) : Clear B.toEngine s.clock (3 * j + 5) ↔
        Clear B.toEngine s.clock 2 ∧ Clear B.toEngine (s.clock + 2) (3 * (j + 1)) := by
      rw [← clear_add, show 2 + 3 * (j + 1) = 3 * j + 5 by omega]
    simp only [hsplit]
    by_cases hstart : Clear B.toEngine s.clock 2
    · rw [if_pos ⟨hstart, trivial⟩, written_ids_eq_iff]
      simp only [hstart, true_and, Option.isSome_none, Bool.false_eq_true, false_or]
      exact or_iff_not_imp_left.symm
    · rw [if_neg fun h => hstart h.1]
      exact iff_of_true (fun _ => rfl) (Or.inr (Or.inr fun j _ h => absurd h.1 hstart))

/-- **The items after a failed write**: after a `save` or `batchSave` that throws, the ids of the
items are as they were exactly if no id has been read by then that an item did not have before. For
`save` the attempt that fails is then one of the first five, the last of which is `getLastRowid`;
for `batchSave` each item up to the one that fails has carried the id of its new row from the
start. (Inside of a transaction both break off before they read an id.)

**Proof sketch.** The two parts are `save_kept_iff` and `batchSave_kept_iff`. -/
theorem items_kept_on_failure (B : Backend R) (T : TableBind) (s : Session (List (Row R))) :
    (∀ it : Item R,
      (Throws (save B T true) (s, it) → (save B T true (s, it)).2.2.id = it.id) ↔
        s.saved.isSome = true ∨ it.valid = true ∨ Clear B.toEngine s.clock 6 ∨
          ¬ Clear B.toEngine s.clock 5) ∧
    ∀ items : List (Item R),
      (Throws (batchSave B T true) (s, items) →
        (batchSave B T true (s, items)).2.2.map (·.id) = items.map (·.id)) ↔
        s.saved.isSome = true ∨ Clear B.toEngine s.clock (3 * items.length + 3) ∨
          ∀ (j : ℕ) (h : j < items.length), Clear B.toEngine s.clock (3 * j + 5) →
            items[j].id = B.newId (inserted B s.data (items.take j)).1 :=
  ⟨save_kept_iff, batchSave_kept_iff⟩

/-- The commit of a `save` fails, and so does the second insertion of a `batchSave`: the items
claim rows that are not there. -/
theorem item_not_kept_on_failure : ∃ (B B' : Backend String) (T : TableBind) (e e' : Error)
    (t t' : Session (List (Row String))),
    save B T true (openSession [], ⟨0, "a"⟩) = (.error e, (t, ⟨1, "a"⟩)) ∧ t.data = [] ∧
    batchSave B' T true (openSession [], [⟨0, "a"⟩, ⟨0, "b"⟩]) =
      (.error e', (t', [⟨1, "a"⟩, ⟨0, "b"⟩])) ∧ t'.data = [] := by
  let B (i : ℕ) := plainBackend String fun c => if c = i then some (.sql 5 "locked") else none
  exact ⟨B 5, B 6, ⟨"t", "insert", "update"⟩, _, _, _, _, rfl, rfl, rfl, rfl⟩

end HkuUtils.Database
