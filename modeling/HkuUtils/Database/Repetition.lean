import HkuUtils.Database.Atomicity

set_option relaxedAutoImplicit false
set_option autoImplicit false

/-!
# `batchSaveOrUpdate` twice

`batchSaveOrUpdate` inserts copies of the unsaved items. The caller's items do not get the ids of
the new rows, so a second call inserts them again.

## Main results

* `HkuUtils.Database.batchSaveOrUpdate_ok` — what a call that returns has done.
* `HkuUtils.Database.saveOrUpdate_idempotent_iff`, `saveOrUpdate_twice_inserts` — when a second call
  changes nothing, and a second call that inserts a row again.
-/

namespace HkuUtils.Database

open Fallible Transaction

variable {R : Type} {B : Backend R} {T : TableBind} {autotrans : Bool}
  {s t : Session (List (Row R))} {items items' : List (Item R)} {u : Unit}

/-- **What a `batchSaveOrUpdate` that returns has done**: new rows, changed rows, and the caller's
items are as they were. -/
lemma batchSaveOrUpdate_ok
    (h : batchSaveOrUpdate B T autotrans (s, items) = (.ok u, (t, items'))) :
    t.data = updated B (inserted B s.data (unsaved items)).1 (saved items) ∧ items' = items := by
  rcases hsave : batchSave B T autotrans (s, unsaved items) with ⟨r, t₀, items₀⟩
  cases r with
  | error e =>
    have hcopy : onCopy (unsaved items) (batchSave B T autotrans) (s, items) =
        (.error e, (t₀, items)) := by
      rw [onCopy_apply]
      simp only [hsave]
    cases ((bind_ok (get_apply _) _).trans (bind_error hcopy _)).symm.trans h
  | ok v =>
    rw [batchSaveOrUpdate_save_ok hsave] at h
    rcases hupdate : batchUpdate B T autotrans (t₀, saved items) with ⟨r, t₁, items₁⟩
    rw [hupdate] at h
    cases h
    rw [(batchUpdate_ok hupdate).1, ← batchSave_ok hsave]
    exact ⟨rfl, rfl⟩

/-- There are no unsaved items exactly if all are valid. -/
lemma unsaved_eq_nil_iff : unsaved items = [] ↔ ∀ it ∈ items, it.valid = true := by
  rw [unsaved, List.filter_eq_nil_iff]
  simp only [Bool.not_eq_true', Bool.not_eq_false]

/-- **A second `batchSaveOrUpdate`**: after a call that returns, all items of the caller are valid
with the id of a row, and a second call that returns leaves the rows as they are, exactly if all
items were valid with the id of a row before the first call.

**Proof sketch.** The items come back as they were, so they are valid with an id of the table
exactly if they were before, and then both calls only update rows, with the same fields. -/
theorem saveOrUpdate_idempotent_iff (B : Backend R) (T : TableBind) (autotrans : Bool)
    (s t : Session (List (Row R))) (items items' : List (Item R)) (u : Unit)
    (h : batchSaveOrUpdate B T autotrans (s, items) = (.ok u, (t, items'))) :
    ((∀ it ∈ items', it.valid = true ∧ it.id ∈ t.data.map (·.id)) ∧
      ∀ u' t' items'', batchSaveOrUpdate B T autotrans (t, items') = (.ok u', (t', items'')) →
        t'.data = t.data) ↔
      ∀ it ∈ items, it.valid = true ∧ it.id ∈ s.data.map (·.id) := by
  obtain ⟨hdata, rfl⟩ := batchSaveOrUpdate_ok h
  -- without unsaved items, a call only updates rows
  have hrows (hvalid : ∀ it ∈ items', it.valid = true) :
      t.data = updated B s.data (saved items') := by
    rw [hdata, unsaved_eq_nil_iff.mpr hvalid, inserted]
  constructor
  · rintro ⟨hitems, _⟩ it hit
    refine ⟨(hitems it hit).1, ?_⟩
    have hid := (hitems it hit).2
    rwa [hrows fun it hit => (hitems it hit).1, ids_updated] at hid
  · intro hitems
    have hvalid : ∀ it ∈ items', it.valid = true := fun it hit => (hitems it hit).1
    refine ⟨fun it hit => ⟨hvalid it hit, ?_⟩, fun u' t' items'' h' => ?_⟩
    · rw [hrows hvalid, ids_updated]
      exact (hitems it hit).2
    · rw [(batchSaveOrUpdate_ok h').1, unsaved_eq_nil_iff.mpr hvalid, inserted, hrows hvalid,
        updated_idem]

/-- A container with one saved item. -/
theorem saveOrUpdate_idempotent_one : ∃ t : Session (List (Row String)),
    batchSaveOrUpdate (plainBackend String fun _ => none) ⟨"t", "insert", "update"⟩ true
      (openSession [⟨1, "a"⟩], [⟨1, "b"⟩]) = (.ok (), (t, [⟨1, "b"⟩])) ∧
    ((∀ it ∈ [(⟨1, "b"⟩ : Item String)], it.valid = true ∧ it.id ∈ t.data.map (·.id)) ∧
      ∀ u' t' items'', batchSaveOrUpdate (plainBackend String fun _ => none)
        ⟨"t", "insert", "update"⟩ true (t, [⟨1, "b"⟩]) = (.ok u', (t', items'')) →
        t'.data = t.data) := by
  obtain ⟨t, ht⟩ : ∃ t : Session (List (Row String)),
      batchSaveOrUpdate (plainBackend String fun _ => none) ⟨"t", "insert", "update"⟩ true
        (openSession [⟨1, "a"⟩], [⟨1, "b"⟩]) = (.ok (), (t, [⟨1, "b"⟩])) := ⟨_, rfl⟩
  exact ⟨t, ht, (saveOrUpdate_idempotent_iff _ _ _ _ _ _ _ _ ht).mpr (by decide)⟩

/-- A new item gets a row in each of two calls, and stays invalid. -/
theorem saveOrUpdate_twice_inserts : ∃ (B : Backend String) (T : TableBind)
    (t t' : Session (List (Row String))),
    batchSaveOrUpdate B T true (openSession [], [⟨0, "a"⟩]) = (.ok (), (t, [⟨0, "a"⟩])) ∧
    t.data = [⟨1, "a"⟩] ∧
    batchSaveOrUpdate B T true (t, [⟨0, "a"⟩]) = (.ok (), (t', [⟨0, "a"⟩])) ∧
    t'.data = [⟨1, "a"⟩, ⟨2, "a"⟩] :=
  ⟨plainBackend String fun _ => none, ⟨"t", "insert", "update"⟩, _, _, rfl, rfl, rfl, rfl⟩

end HkuUtils.Database
