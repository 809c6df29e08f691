import HkuUtils.Database.Connect

set_option relaxedAutoImplicit false
set_option autoImplicit false

/-!
# What the writing functions do

The steps of the writing functions and their loops: how many attempts they make, what they do to
the rows and to the items if none of these fails, and what they leave if one does.

## Main definitions

* `HkuUtils.Database.inserted`, `updated` — the rows and items after a loop.
* `HkuUtils.Database.written` — the items after a loop of insertions that may break off.
* `HkuUtils.Database.prepared` — a statement is prepared, and a body runs in a transaction.

## Main results

* `HkuUtils.Database.insertItem_ok`, `insertItem_error` — one insertion.
* `HkuUtils.Database.insertItems_ok`, `insertItems_snd` — a loop of insertions.
* `HkuUtils.Database.updateItems_ok` — a loop of updates.
* `HkuUtils.Database.updated_idem` — a second loop of the same updates changes nothing.
* `HkuUtils.Database.prepared_returns_iff`, `prepared_inv`, `prepared_snd` — when such a program
  returns, what it has done then, and what it leaves however it ends.
* `HkuUtils.Database.batchSave_returns_iff`, `batchUpdate_returns_iff` — when the batches return.
-/

namespace HkuUtils.Database

open Fallible Transaction

variable {R : Type} {B : Backend R} {T : TableBind}

/-! ## The transaction is left alone -/

/-- An execution does not end the transaction. -/
lemma keeps_saved_exec (st : Statement R) : Keeps Session.saved (exec B st) :=
  Keeps.get.bind fun _ => (keeps_saved_perform _).bind fun _ => .pure _

/-- Nor does an insertion. -/
lemma keeps_saved_insertItem :
    Keeps (fun s : Session (List (Row R)) × Item R => s.1.saved) (insertItem B) := by
  refine Keeps.get.bind fun s => ?_
  refine (Keeps.lift (keeps_saved_attempt.bind fun _ => .pure _)).bind fun st => ?_
  refine (Keeps.lift (keeps_saved_exec st)).bind fun id => ?_
  refine (Keeps.lift (keeps_saved_attempt.bind fun _ => .pure _)).bind fun id => ?_
  exact .modify fun _ => rfl

/-- Nor does an update. -/
lemma keeps_saved_updateItem :
    Keeps (fun s : Session (List (Row R)) × Item R => s.1.saved) (updateItem B) := by
  refine Keeps.get.bind fun s => ?_
  refine (Keeps.lift (keeps_saved_attempt.bind fun _ => .pure _)).bind fun st => ?_
  exact (Keeps.lift (keeps_saved_exec st)).bind fun _ => .pure _

/-! ## The attempts -/

/-- An execution is one attempt. -/
lemma exec_apply (st : Statement R) (s : Session (List (Row R))) :
    exec B st s = match B.fault s.clock with
      | none => (.ok (B.newId s.data), { s.tick with data := st.effect B s.data })
      | some e => (.error e, s.tick) := by
  rw [exec, bind_ok (get_apply s)]
  cases h : B.fault s.clock with
  | none =>
    rw [perform, bind_ok ((bind_ok (attempt_ok h) _).trans (modify_apply _ _))]
    rfl
  | some e => rw [perform, bind_error (bind_error (attempt_error h) _)]

/-- A bind of an item is one attempt. -/
lemma save_apply (it : Item R) (s : Session (List (Row R))) :
    it.save B s = match B.fault s.clock with
      | none => (.ok (.insert it.fields), s.tick)
      | some e => (.error e, s.tick) := by
  rw [Item.save]
  cases h : B.fault s.clock with
  | none => rw [bind_ok (attempt_ok h)]; rfl
  | some e => rw [bind_error (attempt_error h)]

/-- So is a bind for an update. -/
lemma update_apply (it : Item R) (s : Session (List (Row R))) :
    it.update B s = match B.fault s.clock with
      | none => (.ok (.update it.id it.fields), s.tick)
      | some e => (.error e, s.tick) := by
  rw [Item.update]
  cases h : B.fault s.clock with
  | none => rw [bind_ok (attempt_ok h)]; rfl
  | some e => rw [bind_error (attempt_error h)]

/-- So is `getLastRowid`. -/
lemma getLastRowid_apply (id : ℕ) (s : Session (List (Row R))) :
    getLastRowid B id s = match B.fault s.clock with
      | none => (.ok id, s.tick)
      | some e => (.error e, s.tick) := by
  rw [getLastRowid]
  cases h : B.fault s.clock with
  | none => rw [bind_ok (attempt_ok h)]; rfl
  | some e => rw [bind_error (attempt_error h)]

/-! ## One item -/

/-- The row of an insertion. -/
def newRow (B : Backend R) (rows : List (Row R)) (it : Item R) : Row R :=
  ⟨B.newId rows, it.fields⟩

/-- A bind that does not fail. -/
lemma lift_save_ok {s : Session (List (Row R))} (h : B.fault s.clock = none) (it it' : Item R) :
    lift (it.save B) (s, it') = (.ok (.insert it.fields), (s.tick, it')) := by
  rw [lift_apply, save_apply, h]

/-- An execution that does not fail. -/
lemma lift_exec_ok {s : Session (List (Row R))} (h : B.fault s.clock = none) (st : Statement R)
    (it : Item R) : lift (exec B st) (s, it) =
      (.ok (B.newId s.data), ({ s.tick with data := st.effect B s.data }, it)) := by
  rw [lift_apply, exec_apply, h]

/-- A `getLastRowid` that does not fail. -/
lemma lift_getLastRowid_ok {s : Session (List (Row R))} (h : B.fault s.clock = none) (id : ℕ)
    (it : Item R) : lift (getLastRowid B id) (s, it) = (.ok id, (s.tick, it)) := by
  rw [lift_apply, getLastRowid_apply, h]

/-- **An insertion whose attempts do not fail.** -/
lemma insertItem_ok {s : Session (List (Row R))} (h : Clear B.toEngine s.clock 3) (it : Item R) :
    insertItem B (s, it) =
      (.ok (), ({ s with data := s.data ++ [newRow B s.data it], clock := s.clock + 3 },
        { it with id := B.newId s.data })) := by
  have hsave := lift_save_ok (h 0 (by omega)) it it
  have hexec := lift_exec_ok (B := B) (s := s.tick) (h 1 (by omega)) (.insert it.fields) it
  have hrowid := lift_getLastRowid_ok (B := B)
    (s := { s.tick.tick with data := s.data ++ [newRow B s.data it] }) (h 2 (by omega))
    (B.newId s.data) it
  exact (bind_ok hsave _).trans ((bind_ok hexec _).trans (bind_ok hrowid _))

/-- An insertion that breaks off leaves the item as it was.

**Proof sketch.** There are three attempts, and the id is assigned after the last one. So whichever
of them fails, the item has its old id. -/
lemma insertItem_error {s : Session (List (Row R))} (h : ¬ Clear B.toEngine s.clock 3)
    (it : Item R) : ∃ e t, insertItem B (s, it) = (.error e, (t, it)) := by
  cases h₀ : B.fault s.clock with
  | some e =>
    have hsave : lift (it.save B) (s, it) = (.error e, (s.tick, it)) := by
      rw [lift_apply, save_apply, h₀]
    exact ⟨e, _, bind_error hsave _⟩
  | none =>
    have hsave := lift_save_ok h₀ it it
    cases h₁ : B.fault (s.clock + 1) with
    | some e =>
      have hexec : lift (exec B (.insert it.fields)) (s.tick, it) =
          (.error e, (s.tick.tick, it)) := by
        rw [lift_apply, exec_apply, show B.fault s.tick.clock = some e from h₁]
      exact ⟨e, _, (bind_ok hsave _).trans (bind_error hexec _)⟩
    | none =>
      have hexec := lift_exec_ok (B := B) (s := s.tick) h₁ (.insert it.fields) it
      cases h₂ : B.fault (s.clock + 2) with
      | some e =>
        have hrowid : lift (getLastRowid B (B.newId s.data))
            ({ s.tick.tick with data := (Statement.insert it.fields).effect B s.data }, it) =
            (.error e, ({ s.tick.tick.tick with
              data := (Statement.insert it.fields).effect B s.data }, it)) := by
          rw [lift_apply, getLastRowid_apply,
            show B.fault (Session.clock { s.tick.tick with
              data := (Statement.insert it.fields).effect B s.data }) = some e from h₂]
          rfl
        exact ⟨e, _, (bind_ok hsave _).trans ((bind_ok hexec _).trans (bind_error hrowid _))⟩
      | none =>
        refine absurd (fun i hi => ?_) h
        obtain rfl | rfl | rfl : i = 0 ∨ i = 1 ∨ i = 2 := by omega
        · exact h₀
        · exact h₁
        · exact h₂

/-- An update that returns.

**Proof sketch.** The two attempts are the preparation and the execution. If one fails, the update
throws; otherwise the effect is that of the statement. -/
lemma updateItem_ok {s t : Session (List (Row R))} {it it' : Item R} {u : Unit}
    (h : updateItem B (s, it) = (.ok u, (t, it'))) :
    it' = it ∧ t.data = (Statement.update it.id it.fields).effect B s.data := by
  cases h₀ : B.fault s.clock with
  | some e =>
    have hupdate : lift (it.update B) (s, it) = (.error e, (s.tick, it)) := by
      rw [lift_apply, update_apply, h₀]
    cases (bind_error hupdate _).symm.trans h
  | none =>
    have hupdate : lift (it.update B) (s, it) = (.ok (.update it.id it.fields), (s.tick, it)) := by
      rw [lift_apply, update_apply, h₀]
    cases h₁ : B.fault (s.clock + 1) with
    | some e =>
      have hexec : lift (exec B (.update it.id it.fields)) (s.tick, it) =
          (.error e, (s.tick.tick, it)) := by
        rw [lift_apply, exec_apply, show B.fault s.tick.clock = some e from h₁]
      cases ((bind_ok hupdate _).trans (bind_error hexec _)).symm.trans h
    | none =>
      have hexec := lift_exec_ok (B := B) (s := s.tick) h₁ (.update it.id it.fields) it
      cases ((bind_ok hupdate _).trans (bind_ok hexec _)).symm.trans h
      exact ⟨rfl, rfl⟩

/-- An execution is one attempt. -/
lemma steps_exec (st : Statement R) :
    Steps B.toEngine Session.clock (fun _ => 1) (exec B st) := by
  refine Steps.bind (k := 0) (m := 1) (.none (fun s => ⟨s, rfl⟩) .get) fun s => ?_
  refine Steps.bind (k := 1) (m := 0) ?_ fun _ => .none (fun _ => ⟨_, rfl⟩) (.pure _)
  refine Steps.bind (k := 1) (m := 0) Steps.attempt fun _ => ?_
  exact .none (fun _ => ⟨(), rfl⟩) (.modify fun _ => rfl)

/-- An attempt and a result are one attempt. -/
lemma steps_attempt {α : Type} (a : α) : Steps B.toEngine Session.clock (fun _ => 1)
    (do attempt B.toEngine; return a : OnSession R α) :=
  Steps.attempt.bind fun _ => .none (fun _ => ⟨_, rfl⟩) (.pure _)

/-- An insertion makes three attempts. -/
lemma steps_insertItem : Steps B.toEngine clockOf (fun _ => 3) (insertItem B) := by
  refine Steps.bind (k := 0) (m := 3) (.none (fun s => ⟨s, rfl⟩) .get) fun s => ?_
  refine Steps.bind (k := 1) (m := 2) (steps_attempt _).lift fun st => ?_
  refine Steps.bind (k := 1) (m := 1) (steps_exec st).lift fun id => ?_
  refine Steps.bind (k := 1) (m := 0) (steps_attempt id).lift fun id => ?_
  exact .none (fun _ => ⟨(), rfl⟩) (.modify fun _ => rfl)

/-- An update makes two. -/
lemma steps_updateItem : Steps B.toEngine clockOf (fun _ => 2) (updateItem B) := by
  refine Steps.bind (k := 0) (m := 2) (.none (fun s => ⟨s, rfl⟩) .get) fun s => ?_
  refine Steps.bind (k := 1) (m := 1) (steps_attempt _).lift fun st => ?_
  exact Steps.bind (k := 1) (m := 0) (steps_exec st).lift fun _ =>
    .none (fun _ => ⟨(), rfl⟩) (.pure _)

/-! ## Loops -/

/-- The rows and the items after insertions. -/
def inserted (B : Backend R) : List (Row R) → List (Item R) → List (Row R) × List (Item R)
  | rows, [] => (rows, [])
  | rows, it :: items =>
    let r := inserted B (rows ++ [newRow B rows it]) items
    (r.1, { it with id := B.newId rows } :: r.2)

/-- The items after insertions from the attempt `c` on that may break off. -/
def written (B : Backend R) : List (Row R) → ℕ → List (Item R) → List (Item R)
  | _, _, [] => []
  | rows, c, it :: items =>
    if Clear B.toEngine c 3 then
      { it with id := B.newId rows } :: written B (rows ++ [newRow B rows it]) (c + 3) items
    else it :: items

/-- A loop of insertions that returns. -/
lemma insertItems_ok {s t : Session (List (Row R))} {items items' : List (Item R)} {u : Unit}
    (h : forEach (insertItem B) (s, items) = (.ok u, (t, items'))) :
    (t.data, items') = inserted B s.data items := by
  induction items generalizing s items' with
  | nil =>
    cases h
    rfl
  | cons it items ih =>
    by_cases hc : Clear B.toEngine s.clock 3
    · rw [forEach_cons_ok (insertItem_ok hc it)] at h
      rcases hrest : forEach (insertItem B) ({ s with
        data := s.data ++ [newRow B s.data it], clock := s.clock + 3 }, items) with ⟨v, t', rest⟩
      rw [hrest] at h
      cases h
      rw [inserted, ← ih hrest]
    · obtain ⟨e, t', he⟩ := insertItem_error hc it
      rw [forEach_cons_error he] at h
      cases h

/-- The items after a loop of insertions, however it ends. -/
lemma insertItems_snd (s : Session (List (Row R))) (items : List (Item R)) :
    (forEach (insertItem B) (s, items)).2.2 = written B s.data s.clock items := by
  induction items generalizing s with
  | nil => rfl
  | cons it items ih =>
    rw [written]
    split
    · next hc =>
      rw [forEach_cons_ok (insertItem_ok hc it)]
      simp only [ih]
    · next hc =>
      obtain ⟨e, t, he⟩ := insertItem_error hc it
      rw [forEach_cons_error he]

/-- The rows that are there stay there, and each item adds one. -/
lemma length_inserted (rows : List (Row R)) (items : List (Item R)) :
    (inserted B rows items).1.length = rows.length + items.length := by
  induction items generalizing rows with
  | nil => rfl
  | cons it items ih =>
    rw [inserted]
    simp only [ih, List.length_append, List.length_cons, List.length_nil]
    omega

/-- The rows after updates. -/
def updated (B : Backend R) (rows : List (Row R)) (items : List (Item R)) : List (Row R) :=
  items.foldl (fun rows it => (Statement.update it.id it.fields).effect B rows) rows

/-- A loop of updates that returns.

**Proof sketch.** By induction on the items, with the lemma for one of them. -/
lemma updateItems_ok {s t : Session (List (Row R))} {items items' : List (Item R)} {u : Unit}
    (h : forEach (updateItem B) (s, items) = (.ok u, (t, items'))) :
    t.data = updated B s.data items ∧ items' = items := by
  induction items generalizing s items' with
  | nil =>
    cases h
    exact ⟨rfl, rfl⟩
  | cons it items ih =>
    rcases hit : updateItem B (s, it) with ⟨v, s', it'⟩
    cases v with
    | ok v =>
      obtain ⟨rfl, hdata⟩ := updateItem_ok hit
      rw [forEach_cons_ok hit] at h
      rcases hrest : forEach (updateItem B) (s', items) with ⟨w, t', rest⟩
      rw [hrest] at h
      cases h
      obtain ⟨hrows, rfl⟩ := ih hrest
      rw [hrows, hdata]
      exact ⟨rfl, rfl⟩
    | error e =>
      rw [forEach_cons_error hit] at h
      cases h

/-- The row of an id after updates: the fields of the last item with this id. -/
def lastFields (items : List (Item R)) (id : ℕ) (fields : R) : R :=
  items.foldl (fun fields it => if id = it.id then it.fields else fields) fields

/-- Updates change each row by itself. -/
lemma updated_eq_map (rows : List (Row R)) (items : List (Item R)) :
    updated B rows items =
      rows.map fun r => { r with fields := lastFields items r.id r.fields } := by
  induction items generalizing rows with
  | nil => simp [updated, lastFields]
  | cons it items ih =>
    have hstep : updated B rows (it :: items) =
        updated B ((Statement.update it.id it.fields).effect B rows) items := rfl
    rw [hstep, ih, Statement.effect, List.map_map]
    refine List.map_congr_left fun r _ => ?_
    simp only [Function.comp_apply, lastFields, List.foldl_cons]
    split <;> rfl

/-- The last fields are those of some item, or the ones before. -/
lemma lastFields_const_or_id (items : List (Item R)) (id : ℕ) :
    (∀ a b, lastFields items id a = lastFields items id b) ∨ ∀ a, lastFields items id a = a := by
  induction items with
  | nil => exact Or.inr fun _ => rfl
  | cons it items ih =>
    by_cases hid : id = it.id
    · exact Or.inl fun a b => by simp [lastFields, hid]
    · simpa [lastFields, hid] using ih

/-- The same updates once more change nothing. -/
lemma updated_idem (rows : List (Row R)) (items : List (Item R)) :
    updated B (updated B rows items) items = updated B rows items := by
  rw [updated_eq_map, updated_eq_map, List.map_map]
  refine List.map_congr_left fun r _ => ?_
  simp only [Function.comp_apply, Row.mk.injEq, true_and]
  rcases lastFields_const_or_id items r.id with hconst | hid
  · exact hconst _ _
  · rw [hid]

/-- Updates keep the ids. -/
lemma ids_updated (rows : List (Row R)) (items : List (Item R)) :
    (updated B rows items).map (·.id) = rows.map (·.id) := by
  rw [updated_eq_map, List.map_map]
  rfl

/-! ## The batches -/

/-- The preparation of a statement that does not fail. -/
lemma lift_getStatement_ok {τ : Type} {s : Session (List (Row R))} (h : B.fault s.clock = none)
    (x : τ) : lift (getStatement B) (s, x) = (.ok (), (s.tick, x)) := by
  rw [lift_apply, getStatement, attempt_ok h]

/-- The preparation of a statement that fails. -/
lemma lift_getStatement_error {τ : Type} {s : Session (List (Row R))} {e : Error}
    (h : B.fault s.clock = some e) (x : τ) :
    lift (getStatement B) (s, x) = (.error e, (s.tick, x)) := by
  rw [lift_apply, getStatement, attempt_error h]

section Batch

variable {τ : Type} {s : Session (List (Row R))} {x : τ} {failed : Error → Error}
  {body : Fallible (Session (List (Row R)) × τ) Error Unit}

/-- A statement is prepared, and the body runs in a transaction. -/
abbrev prepared (B : Backend R) (autotrans : Bool) (failed : Error → Error)
    (body : Fallible (Session (List (Row R)) × τ) Error Unit) :
    Fallible (Session (List (Row R)) × τ) Error Unit := do
  lift (getStatement B)
  inTransaction B.toEngine autotrans failed body (pure ())

/-- The preparation does not fail. -/
lemma prepared_ok {autotrans : Bool} (h : B.fault s.clock = none) :
    prepared B autotrans failed body (s, x) =
      inTransaction B.toEngine autotrans failed body (pure ()) (s.tick, x) :=
  bind_ok (lift_getStatement_ok h x) _

/-- The preparation fails. -/
lemma prepared_error {autotrans : Bool} {e : Error} (h : B.fault s.clock = some e) :
    prepared B autotrans failed body (s, x) = (.error e, (s.tick, x)) :=
  bind_error (lift_getStatement_error h x) _

/-- When such a program returns. -/
lemma prepared_returns_iff {n : τ → ℕ} (hsteps : Steps B.toEngine clockOf (fun s => n s.2) body)
    (hbody : Keeps (fun s : Session (List (Row R)) × τ => s.1.saved) body)
    (hs : s.saved = none) :
    Returns (prepared B true failed body) (s, x) ↔ Clear B.toEngine s.clock (n x + 3) := by
  rw [Nat.add_comm, show 3 + n x = 1 + (n x + 2) by omega, clear_add, clear_one]
  cases h : B.fault s.clock with
  | none =>
    rw [Returns, prepared_ok h, and_iff_right rfl]
    exact inTransaction_returns_iff hsteps hbody (returns_pure ()) (s := s.tick) hs x
  | some e =>
    rw [Returns, prepared_error h]
    simp

/-- What such a program has done when it returns. -/
lemma prepared_inv {autotrans : Bool}
    (hbody : Keeps (fun s : Session (List (Row R)) × τ => s.1.saved) body) {u : Unit}
    {t : Session (List (Row R))} {y : τ}
    (h : prepared B autotrans failed body (s, x) = (.ok u, (t, y))) :
    (autotrans = true → s.saved = none) ∧ ∃ t₀ v,
      body (if autotrans then s.tick.started else s.tick, x) = (.ok v, (t₀, y)) ∧
      t = if autotrans then t₀.committed else t₀ := by
  cases hf : B.fault s.clock with
  | some e =>
    rw [prepared_error hf] at h
    cases h
  | none =>
    rw [prepared_ok hf] at h
    obtain ⟨hs, t₀, y, v, hrun, hafter⟩ := inTransaction_inv hbody h
    cases hafter
    exact ⟨hs, t₀, v, hrun, rfl⟩

/-- What such a program leaves beside the session: what the body leaves, if it is started.

**Proof sketch.** By cases on the first two attempts, which prepare the statement and start the
transaction; the body runs behind them only. -/
lemma prepared_snd (hbody : Keeps (fun s : Session (List (Row R)) × τ => s.1.saved) body) :
    (prepared B true failed body (s, x)).2.2 =
      if Clear B.toEngine s.clock 2 ∧ s.saved = none then (body (s.tick.started, x)).2.2
      else x := by
  have hclear : Clear B.toEngine s.clock 2 ↔ B.fault s.clock = none ∧
      B.fault s.tick.clock = none := by
    rw [show 2 = 1 + 1 from rfl, clear_add, clear_one, clear_one]
    rfl
  cases hf : B.fault s.clock with
  | some e =>
    have hnot : ¬ Clear B.toEngine s.clock 2 := by
      intro h
      have := (hclear.mp h).1
      rw [hf] at this
      cases this
    rw [prepared_error hf, if_neg fun h => hnot h.1]
  | none =>
    rw [prepared_ok hf]
    by_cases hstart : B.fault s.tick.clock = none ∧ s.saved = none
    · rw [inTransaction_snd hstart.1 hstart.2 hbody,
        if_pos ⟨hclear.mpr ⟨hf, hstart.1⟩, hstart.2⟩]
    · obtain ⟨e, he⟩ : ∃ e, inTransaction B.toEngine true failed body (pure ()) (s.tick, x) =
          (.error e, _) := inTransaction_start_error hstart
      rw [he, if_neg fun h => hstart ⟨(hclear.mp h.1).2, h.2⟩]

end Batch

/-- When `batchSave` returns. -/
lemma batchSave_returns_iff {s : Session (List (Row R))} {items : List (Item R)}
    (hne : items ≠ []) (hs : s.saved = none) :
    Returns (batchSave B T true) (s, items) ↔ Clear B.toEngine s.clock (3 * items.length + 3) := by
  have hlen : ¬ items.length = 0 := by simpa using hne
  rw [batchSave, Returns, bind_ok (get_apply _), if_neg hlen]
  exact prepared_returns_iff (n := fun items => 3 * items.length) steps_insertItem.forEach
    (.forEach keeps_saved_insertItem) hs

/-- When `batchUpdate` returns. -/
lemma batchUpdate_returns_iff {s : Session (List (Row R))} {items : List (Item R)}
    (hne : items ≠ []) (hs : s.saved = none) :
    Returns (batchUpdate B T true) (s, items) ↔
      Clear B.toEngine s.clock (2 * items.length + 3) := by
  have hlen : ¬ items.length = 0 := by simpa using hne
  rw [batchUpdate, Returns, bind_ok (get_apply _), if_neg hlen]
  exact prepared_returns_iff (n := fun items => 2 * items.length) steps_updateItem.forEach
    (.forEach keeps_saved_updateItem) hs

section Returned

variable {autotrans : Bool} {s t : Session (List (Row R))} {items items' : List (Item R)} {u : Unit}

/-- Without items, `batchSave` does nothing. -/
lemma batchSave_nil : batchSave B T autotrans (s, []) = (.ok (), (s, [])) := rfl

/-- Nor does `batchUpdate`. -/
lemma batchUpdate_nil : batchUpdate B T autotrans (s, []) = (.ok (), (s, [])) := rfl

/-- What `batchSave` has done when it returns. -/
lemma batchSave_ok (h : batchSave B T autotrans (s, items) = (.ok u, (t, items'))) :
    (t.data, items') = inserted B s.data items := by
  by_cases hnil : items = []
  · subst hnil
    cases h
    rfl
  · have hlen : ¬ items.length = 0 := by simpa using hnil
    rw [batchSave, bind_ok (get_apply _), if_neg hlen] at h
    obtain ⟨_, t₀, v, hrun, rfl⟩ := prepared_inv (.forEach keeps_saved_insertItem) h
    have hins := insertItems_ok hrun
    cases autotrans with
    | true => exact hins
    | false => exact hins

/-- What `batchUpdate` has done when it returns. -/
lemma batchUpdate_ok (h : batchUpdate B T autotrans (s, items) = (.ok u, (t, items'))) :
    t.data = updated B s.data items ∧ items' = items := by
  by_cases hnil : items = []
  · subst hnil
    cases h
    exact ⟨rfl, rfl⟩
  · have hlen : ¬ items.length = 0 := by simpa using hnil
    rw [batchUpdate, bind_ok (get_apply _), if_neg hlen] at h
    obtain ⟨_, t₀, v, hrun, rfl⟩ := prepared_inv (.forEach keeps_saved_updateItem) h
    have hupd := updateItems_ok hrun
    cases autotrans with
    | true => exact hupd
    | false => exact hupd

/-- A `batchSave` that returns has found no transaction and leaves none, and this is where the clock
of the session stands then. -/
lemma batchSave_clock (hne : items ≠ [])
    (h : batchSave B T true (s, items) = (.ok u, (t, items'))) :
    s.saved = none ∧ t.saved = none ∧ t.clock = s.clock + (3 * items.length + 3) := by
  have hlen : ¬ items.length = 0 := by simpa using hne
  rw [batchSave, bind_ok (get_apply _), if_neg hlen] at h
  obtain ⟨hs, t₀, v, hrun, rfl⟩ := prepared_inv (.forEach keeps_saved_insertItem) h
  rw [if_pos rfl] at hrun ⊢
  have hclock : t₀.clock = s.tick.started.clock + 3 * items.length := by
    have := (steps_insertItem (B := B)).forEach.clock_eq (s.tick.started, items)
      (returns_of_eq hrun)
    rwa [hrun] at this
  refine ⟨hs rfl, rfl, ?_⟩
  have hstart : s.tick.started.clock = s.clock + 2 := rfl
  have hcommit : t₀.committed.clock = t₀.clock + 1 := rfl
  rw [hcommit, hclock, hstart]
  omega

end Returned

end HkuUtils.Database
