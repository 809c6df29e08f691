import HkuUtils.Database.Atomicity
import HkuUtils.TableMacro.Statements

set_option relaxedAutoImplicit false
set_option autoImplicit false

/-!
# Items as rows

What the statements of a class do to the table that its rows make up, with the values that `save`
and `update` bind and the columns that `load` reads. The rows and what is done to them are those of
the functions on items; here they are compared with the texts of the macros, word for word.

## Main definitions

* `HkuUtils.TableMacro.tableOf` — the table that some rows make up.
* `HkuUtils.TableMacro.insertInto`, `updateIn`, `saveIn`, `readFrom` — the statements of a class,
  prepared and executed.

## Main results

* `HkuUtils.TableMacro.tableBind_realises` — **`TABLE_BIND`: any number of items saved one after
  the other, and read back.**
* `HkuUtils.TableMacro.noAutoid_realises`, `noAutoid4_update` — **`TABLE_NO_AUTOID_BIND`, where the
  row id is not read, and its fourth macro, whose update changes nothing.**
* `HkuUtils.TableMacro.colTableBind_realises` — **`COL_TABLE_BIND`, which inserts up to five
  columns.**
-/

namespace HkuUtils.TableMacro

open Search (text toUpper)
open Sql (Name Cells command)
open Sql.Table (assigned newCells changed Matches)
open Database (Item Row Backend Statement)

variable {V : Type}

/-! ## Tables -/

section Rows

variable (num : ℕ → V)

/-- A row of a table. -/
def cells (key : Name) (columns : List Name) (r : Row (Fields V)) : Cells V := fun c =>
  if c = key then some (num r.id) else assigned columns r.fields c

/-- The table that some rows make up; `visible` are the columns that statements may name. -/
def tableOf (name key : Name) (visible columns : List Name) (rows : List (Row (Fields V))) :
    Sql.Table V where
  name := name
  columns := visible
  key := key
  rows := rows.map (cells num key columns)

end Rows

section Statements

variable [DecidableEq V] (b : Binding V) (newKey : Sql.Table V → V) (t : Sql.Table V)

/-- The statement that inserts, with the values of an item. -/
def insertInto (item : Item (Fields V)) : Option (Sql.Table V) :=
  (command b.insertSQL).bind (t.execute (newKey t) (b.save item))

/-- The statement that updates. -/
def updateIn (item : Item (Fields V)) : Option (Sql.Table V) :=
  (command b.updateSQL).bind (t.execute (newKey t) (b.update item))

/-- What is done for an item that is saved. -/
def saveIn (item : Item (Fields V)) : Option (Sql.Table V) :=
  if item.valid then updateIn b newKey t item else insertInto b newKey t item

/-- The items that are loaded from all rows, each into a copy of `old`. -/
def readFrom (old : Item (Fields V)) : Option (List (Item (Fields V))) :=
  (command b.selectSQL).bind fun c => (t.query c).map fun rows => rows.map fun row => b.load row old

end Statements

/-- The statement for an item that is saved. -/
def statementOf (item : Item (Fields V)) : Statement (Fields V) :=
  if item.valid then .update item.id item.fields else .insert item.fields

/-! ## Rows -/

section Lemmas

variable {num : ℕ → V} {key : Name} {columns : List Name}

/-- A column that is not named is assigned nothing. -/
lemma assigned_of_not_mem {c : Name} (hc : c ∉ columns) (params : List (Option V)) :
    assigned columns params c = none := if_neg hc

/-- More parameters than columns. -/
lemma assigned_append {params : List (Option V)} (hlen : params.length = columns.length)
    (more : List (Option V)) : assigned columns (params ++ more) = assigned columns params := by
  funext c
  rw [assigned, assigned]
  split
  next hc =>
    have hlt := List.idxOf_lt_length_of_mem hc
    rw [List.getD_eq_getElem?_getD, List.getD_eq_getElem?_getD,
      List.getElem?_append_left (by omega)]
  next => rfl

/-- The row that is inserted. -/
lemma newCells_eq (hkey : key ∉ columns) {t : Sql.Table V} (ht : t.key = key) (id : ℕ)
    (fields : Fields V) :
    t.newCells (num id) columns fields = cells num key columns ⟨id, fields⟩ := by
  funext c
  rw [newCells, cells, ht]
  by_cases hc : c = key
  · rw [if_pos hc, if_pos hc, assigned_of_not_mem (hc ▸ hkey)]
  · rw [if_neg hc, if_neg hc]
    cases assigned columns fields c <;> rfl

/-- The row that is inserted with its key. -/
lemma newCells_key (hkey : key ∉ columns) (t : Sql.Table V) (newKey : V) (ht : t.key = key) (id : ℕ)
    (fields : Fields V) :
    t.newCells newKey (key :: columns) (some (num id) :: fields) =
      cells num key columns ⟨id, fields⟩ := by
  funext c
  rw [newCells, cells, ht]
  by_cases hc : c = key
  · subst hc
    rw [if_pos rfl, if_pos rfl, assigned, if_pos (by simp), List.idxOf_cons_self]
    rfl
  · rw [if_neg hc, if_neg hc]
    have hassigned : assigned (key :: columns) (some (num id) :: fields) c =
        assigned columns fields c := by
      rw [assigned, assigned, List.idxOf_cons_ne _ (Ne.symm hc)]
      simp [hc]
    rw [hassigned]
    cases assigned columns fields c <;> rfl

/-- A row that is updated. -/
lemma changed_eq (hkey : key ∉ columns) {fields : Fields V} (hlen : fields.length = columns.length)
    (more : List (Option V)) (r : Row (Fields V)) :
    changed columns (fields ++ more) (cells num key columns r) =
      cells num key columns { r with fields := fields } := by
  funext c
  rw [changed, assigned_append hlen, cells]
  split
  next hc =>
    have hne : c ≠ key := by
      rintro rfl
      exact hkey hc
    rw [cells, if_neg hne]
  next hc => rw [cells, assigned_of_not_mem hc, assigned_of_not_mem hc]

/-- The rows that an update changes. -/
lemma matches_iff (hnum : Function.Injective num) (r : Row (Fields V)) (id : ℕ) :
    Matches (cells num key columns r) key (some (num id)) ↔ r.id = id := by
  rw [Matches, cells, if_pos rfl, Option.some_inj, hnum.eq_iff]
  simp

/-- The columns of a row. -/
lemma map_cells (hkey : key ∉ columns) (hnodup : columns.Nodup) {r : Row (Fields V)}
    (hlen : r.fields.length = columns.length) :
    columns.map (cells num key columns r) = r.fields := by
  apply List.ext_getElem
  · rw [List.length_map, hlen]
  · intro i hi _
    rw [List.length_map] at hi
    have hmem : columns[i] ∈ columns := List.getElem_mem hi
    have hne : columns[i] ≠ key := by
      intro h
      exact hkey (h ▸ hmem)
    rw [List.getElem_map, cells, if_neg hne, assigned, if_pos hmem, hnodup.idxOf_getElem i hi,
      List.getD_eq_getElem?_getD, List.getElem?_eq_getElem, Option.getD_some]

end Lemmas

/-! ## Statements on rows -/

section Executions

variable [DecidableEq V] {num : ℕ → V} {name key : Name} {visible columns : List Name}
  {rows : List (Row (Fields V))}

/-- An insertion without the key. -/
lemma execute_insert (hkey : key ∉ columns) (hvisible : ∀ c ∈ columns, c ∈ visible) {id : ℕ}
    {fields : Fields V} (hlen : fields.length = columns.length) :
    (tableOf num name key visible columns rows).execute (num id) fields
        (.insert name columns columns.length) =
      some (tableOf num name key visible columns (rows ++ [⟨id, fields⟩])) := by
  rw [Sql.Table.execute, if_pos ⟨rfl, hvisible, rfl, hlen.le⟩, newCells_eq hkey rfl]
  simp [tableOf]

/-- An update changes the fields of the rows with the id, and no others.

**Proof sketch.** The last parameter is the key, and different ids have different keys. -/
lemma execute_update (hnum : Function.Injective num) (hkey : key ∉ columns)
    (hvisible : ∀ c ∈ columns, c ∈ visible) (newKey : V) {id : ℕ} {fields : Fields V}
    (hlen : fields.length = columns.length) :
    (tableOf num name key visible columns rows).execute newKey (fields ++ [some (num id)])
        (.update name columns key) =
      some (tableOf num name key visible columns
        (rows.map fun r => if r.id = id then { r with fields := fields } else r)) := by
  have hparam : (fields ++ [some (num id)]).getD columns.length none = some (num id) := by
    rw [List.getD_eq_getElem?_getD, ← hlen, List.getElem?_concat_length]
    rfl
  rw [Sql.Table.execute, if_pos ⟨rfl, hvisible, .inr rfl, by simp [hlen]⟩, hparam]
  simp only [tableOf, List.map_map]
  congr 2
  apply List.map_congr_left
  intro r _
  simp only [Function.comp_apply, matches_iff hnum]
  split
  · rw [changed_eq hkey hlen]
  · rfl

omit [DecidableEq V] in
/-- A selection of columns. -/
lemma query_select {selected : List Name} (hselected : ∀ c ∈ selected, c ∈ visible) :
    (tableOf num name key visible columns rows).query (.select selected name) =
      some (rows.map fun r => selected.map (cells num key columns r)) := by
  rw [Sql.Table.query, if_pos ⟨rfl, hselected⟩]
  simp [tableOf]

end Executions

/-! ## Names -/

/-- The names that a class gives to a table and its columns. -/
structure ValidNames (q : UInt8) (key table : List UInt8) (fs : List (List UInt8)) : Prop where
  quote_not_mem_key : q ∉ key
  quote_not_mem_table : q ∉ table
  quote_not_mem : ∀ f ∈ fs, q ∉ f
  ne_nil : fs ≠ []
  /-- No two columns have one name but for their case, and none that of the key. -/
  nodup : (toUpper key :: fs.map toUpper).Nodup

section Names

variable {q : UInt8} {key table : List UInt8} {fs : List (List UInt8)}

/-- The key is none of the columns, whatever the case of the letters. -/
lemma ValidNames.key_not_mem (h : ValidNames q key table fs) : toUpper key ∉ fs.map toUpper :=
  (List.nodup_cons.1 h.nodup).1

/-- There is a column. -/
lemma ValidNames.length_pos (h : ValidNames q key table fs) : 0 < fs.length :=
  List.length_pos_of_ne_nil h.ne_nil

end Names

/-- All rows have as many fields as there are columns. -/
def Fits (n : ℕ) (rows : List (Row (Fields V))) : Prop := ∀ r ∈ rows, r.fields.length = n

/-- What saving an item makes of the rows. -/
def saved (B : Backend (Fields V)) (rows : List (Row (Fields V))) (item : Item (Fields V)) :
    List (Row (Fields V)) :=
  Statement.effect B rows (statementOf item)

/-- A statement keeps the number of the fields. -/
lemma fits_saved (B : Backend (Fields V)) {n : ℕ} {rows : List (Row (Fields V))} (h : Fits n rows)
    {item : Item (Fields V)} (hitem : item.fields.length = n) : Fits n (saved B rows item) := by
  rw [saved, statementOf]
  split
  · intro r hr
    obtain ⟨r', hr', rfl⟩ := List.mem_map.1 hr
    split
    · exact hitem
    · exact h r' hr'
  · intro r hr
    rcases List.mem_append.1 hr with hr | hr
    · exact h r hr
    · obtain rfl := List.mem_singleton.1 hr
      exact hitem

/-- **Items saved one after the other**, where one item is saved as the functions on items say. -/
lemma foldlM_saveIn [DecidableEq V] {B : Backend (Fields V)} {b : Binding V}
    {newKey : Sql.Table V → V} {t : List (Row (Fields V)) → Sql.Table V} {n : ℕ}
    (hsave : ∀ rows, Fits n rows → ∀ item, item.fields.length = n →
      saveIn b newKey (t rows) item = some (t (saved B rows item)))
    {rows : List (Row (Fields V))} (hrows : Fits n rows) {items : List (Item (Fields V))}
    (hitems : ∀ item ∈ items, item.fields.length = n) :
    items.foldlM (saveIn b newKey) (t rows) = some (t (items.foldl (saved B) rows)) ∧
      Fits n (items.foldl (saved B) rows) := by
  induction items generalizing rows with
  | nil => exact ⟨rfl, hrows⟩
  | cons item items ih =>
    have hitem := hitems item (by simp)
    rw [List.foldlM_cons, hsave rows hrows item hitem, List.foldl_cons]
    exact ih (fits_saved B hrows hitem) fun i hi => hitems i (List.mem_cons_of_mem item hi)

/-! ## `TABLE_BIND` -/

section TableBind

variable {num : ℕ → V} {asNum : Option V → ℕ} {table : List UInt8} {fs : List (List UInt8)}

/-- The table of a class, with its id among the columns. -/
def idTable (num : ℕ → V) (table : List UInt8) (fs : List (List UInt8)) :
    List (Row (Fields V)) → Sql.Table V :=
  tableOf num (toUpper table) (text "ID") (text "ID" :: fs.map toUpper) (fs.map toUpper)

/-- The columns of the table are visible. -/
lemma mem_visible (key : Name) (columns : List Name) : ∀ c ∈ columns, c ∈ key :: columns :=
  fun _ hc => List.mem_cons_of_mem key hc

/-- The text with which a class with an id inserts names the columns without the id. -/
lemma command_tableBind_insert (h : ValidNames 96 (text "id") table fs) :
    command (tableBind num asNum table fs).insertSQL =
      some (.insert (toUpper table) (fs.map toUpper) (fs.map toUpper).length) := by
  have hvalues : Sql.tokens (placeholders fs.length ++ [41]) =
      [Sql.comma].intercalate (List.replicate fs.length [.symbol 63]) ++ [Sql.rparen] :=
    tokens_placeholders fs.length [41]
  have hread := command_insert (.inl rfl) h.quote_not_mem_table h.ne_nil h.quote_not_mem false
    h.length_pos hvalues
  rw [insertColumns, if_neg (by simp), List.nil_append, List.map_map] at hread
  rw [List.length_map]
  refine (congrArg command ?_).trans hread
  simp only [tableBind, List.append_assoc]
  rfl

/-- The text with which a class with an id updates asks for the id of the item. -/
lemma command_tableBind_update (h : ValidNames 96 (text "id") table fs) :
    command (tableBind num asNum table fs).updateSQL =
      some (.update (toUpper table) (fs.map toUpper) (text "ID")) := by
  refine (congrArg command ?_).trans
    (command_update (.inl rfl) h.quote_not_mem_table h.ne_nil h.quote_not_mem h.quote_not_mem_key)
  simp only [tableBind, List.append_assoc]
  rfl

/-- The text with which a class with an id selects names the id first. -/
lemma command_tableBind_select (h : ValidNames 96 (text "id") table fs) :
    command (tableBind num asNum table fs).selectSQL =
      some (.select (text "ID" :: fs.map toUpper) (toUpper table)) := by
  have hcolumns : ∀ f ∈ text "id" :: fs, 96 ∉ f := by
    intro f hf
    rcases List.mem_cons.1 hf with rfl | hf
    · exact h.quote_not_mem_key
    · exact h.quote_not_mem f hf
  refine (congrArg command ?_).trans
    (command_select (.inl rfl) h.quote_not_mem_table (List.cons_ne_nil (text "id") fs) hcolumns)
  simp only [tableBind, List.append_assoc]
  rfl

/-- The columns of all rows. -/
lemma query_idTable (rows : List (Row (Fields V))) :
    (idTable num table fs rows).query (.select (text "ID" :: fs.map toUpper) (toUpper table)) =
      some (rows.map fun r => (text "ID" :: fs.map toUpper).map
        (cells num (text "ID") (fs.map toUpper) r)) :=
  query_select fun _ hc => hc

/-- A row as it is loaded. The first column is the key, and the columns behind it are the fields in
their order. -/
lemma load_columns (hasNum : ∀ n, asNum (some (num n)) = n)
    (hnodup : (text "ID" :: fs.map toUpper).Nodup) {r : Row (Fields V)}
    (hlen : r.fields.length = fs.length) (old : Item (Fields V)) :
    (tableBind num asNum table fs).load
        ((text "ID" :: fs.map toUpper).map (cells num (text "ID") (fs.map toUpper) r)) old =
      ⟨r.id, r.fields⟩ := by
  obtain ⟨hkey, hnodup⟩ := List.nodup_cons.1 hnodup
  have hfields : (fs.map toUpper).map (cells num (text "ID") (fs.map toUpper) r) = r.fields :=
    map_cells hkey hnodup (by rw [hlen, List.length_map])
  have hid : cells num (text "ID") (fs.map toUpper) r (text "ID") = some (num r.id) := if_pos rfl
  rw [List.map_cons, hfields, hid]
  have hcolumns : columnsFrom 1 fs.length (some (num r.id) :: r.fields) = r.fields := by
    apply List.ext_getElem
    · simp [columnsFrom, hlen]
    · intro i hi hi'
      simp [columnsFrom, Nat.add_comm 1, hi']
  simp only [tableBind, hcolumns, List.getD_cons_zero, hasNum]

variable [DecidableEq V]

/-- One item is saved as the model of the database saves it.

**Proof sketch.** An item with a valid id is updated, and any other one inserted with a new key.
The texts of both statements have been read before. -/
lemma tableBind_saveIn (hasNum : ∀ n, asNum (some (num n)) = n)
    (h : ValidNames 96 (text "id") table fs) (B : Backend (Fields V)) {newKey : Sql.Table V → V}
    (hnew : ∀ rows, newKey (idTable num table fs rows) = num (B.newId rows))
    (rows : List (Row (Fields V))) (item : Item (Fields V))
    (hitem : item.fields.length = fs.length) :
    saveIn (tableBind num asNum table fs) newKey (idTable num table fs rows) item =
      some (idTable num table fs (saved B rows item)) := by
  have hnum : Function.Injective num :=
    Function.LeftInverse.injective (g := fun v => asNum (some v)) hasNum
  have hlen : item.fields.length = (fs.map toUpper).length := by rw [List.length_map, hitem]
  rw [saveIn, saved, statementOf]
  split
  · rw [updateIn, command_tableBind_update h]
    exact execute_update hnum h.key_not_mem (mem_visible _ _)
      (newKey (idTable num table fs rows)) hlen
  · rw [insertInto, command_tableBind_insert h, hnew]
    exact execute_insert h.key_not_mem (mem_visible _ _) hlen

/-- **Items saved and read back.** With the texts that `TABLE_BIND` writes and the values that
`save` and `update` bind, any number of items that are saved one after the other, new ones and ones
that are there, change the rows as the functions on items say; no statement is an error; and what
is selected and loaded is these rows, whatever was in the items before.

**Proof sketch.** Saving one item after the other is a fold whose steps realise those on rows; then
the text that selects is read as a command, and it gives the columns of the rows. -/
theorem tableBind_realises (hasNum : ∀ n, asNum (some (num n)) = n)
    (h : ValidNames 96 (text "id") table fs) (B : Backend (Fields V)) {newKey : Sql.Table V → V}
    (hnew : ∀ rows, newKey (idTable num table fs rows) = num (B.newId rows))
    {items : List (Item (Fields V))} (hitems : ∀ item ∈ items, item.fields.length = fs.length)
    (old : Item (Fields V)) :
    ∃ t, items.foldlM (saveIn (tableBind num asNum table fs) newKey) (idTable num table fs []) =
        some t ∧
      readFrom (tableBind num asNum table fs) t old =
        some ((items.foldl (saved B) []).map fun r => ⟨r.id, r.fields⟩) := by
  have hempty : Fits fs.length ([] : List (Row (Fields V))) := by
    intro r hr
    simp at hr
  obtain ⟨hsaved, hfits⟩ := foldlM_saveIn
    (fun rows _ item hitem => tableBind_saveIn hasNum h B hnew rows item hitem) hempty hitems
  refine ⟨_, hsaved, ?_⟩
  rw [readFrom, command_tableBind_select h]
  rw [Option.bind_some, query_idTable, Option.map_some, List.map_map]
  congr 1
  apply List.map_congr_left
  intro r hr
  exact load_columns hasNum h.nodup (hfits r hr) old

end TableBind

/-- A new key above all others. -/
def nextKey (t : Sql.Table ℕ) : ℕ := (t.rows.map fun r => (r t.key).getD 0).foldr max 0 + 1

/-- The next key of a table is the id that the database gives the next row. -/
lemma nextKey_tableOf (name key : Name) (visible columns : List Name)
    (rows : List (Row (Fields ℕ))) :
    nextKey (tableOf id name key visible columns rows) =
      (Database.plainBackend (Fields ℕ) fun _ => none).newId rows := by
  have hkeys : (tableOf id name key visible columns rows).rows.map (fun r => (r key).getD 0) =
      rows.map (·.id) := by
    simp [tableOf, cells]
  exact congrArg (fun l => l.foldr max 0 + 1) hkeys

/-- An item is inserted, and then its row is updated. -/
theorem tableBind_realises_two :
    ∃ t, [(⟨0, [some 7, none]⟩ : Item (Fields ℕ)), ⟨1, [some 8, some 9]⟩].foldlM
        (saveIn (tableBind id (·.getD 0) (text "t") [text "a", text "b"]) nextKey)
        (idTable id (text "t") [text "a", text "b"] []) = some t ∧
      readFrom (tableBind id (·.getD 0) (text "t") [text "a", text "b"]) t ⟨0, []⟩ =
        some [⟨1, [some 8, some 9]⟩] :=
  tableBind_realises (fun _ => rfl) ⟨by decide, by decide, by decide, by decide, by decide⟩
    (Database.plainBackend _ fun _ => none) (nextKey_tableOf _ _ _ _) (by decide) _

/-! ## `TABLE_NO_AUTOID_BIND` -/

section NoAutoid

variable {num : ℕ → V} {rowid table : List UInt8} {fs : List (List UInt8)}

/-- The table of a class without an id: the row id is no column of it. -/
def rowidTable (num : ℕ → V) (rowid table : List UInt8) (fs : List (List UInt8)) :
    List (Row (Fields V)) → Sql.Table V :=
  tableOf num (toUpper table) (toUpper rowid) (fs.map toUpper) (fs.map toUpper)

/-- The text with which a class without an id inserts. -/
lemma command_noAutoid_insert (h : ValidNames 96 rowid table fs) :
    command (tableNoAutoidBind num rowid table fs).insertSQL =
      some (.insert (toUpper table) (fs.map toUpper) (fs.map toUpper).length) := by
  have hvalues : Sql.tokens (placeholders fs.length ++ [41]) =
      [Sql.comma].intercalate (List.replicate fs.length [.symbol 63]) ++ [Sql.rparen] :=
    tokens_placeholders fs.length [41]
  have hread := command_insert (.inl rfl) h.quote_not_mem_table h.ne_nil h.quote_not_mem false
    h.length_pos hvalues
  rw [insertColumns, if_neg (by simp), List.nil_append, List.map_map] at hread
  rw [List.length_map]
  refine (congrArg command ?_).trans hread
  simp only [tableNoAutoidBind, List.append_assoc]
  rfl

/-- The text with which a class without an id updates asks for the row id. -/
lemma command_noAutoid_update (h : ValidNames 96 rowid table fs) :
    command (tableNoAutoidBind num rowid table fs).updateSQL =
      some (.update (toUpper table) (fs.map toUpper) (toUpper rowid)) := by
  refine (congrArg command ?_).trans
    (command_update (.inl rfl) h.quote_not_mem_table h.ne_nil h.quote_not_mem h.quote_not_mem_key)
  simp only [tableNoAutoidBind, List.append_assoc]
  rfl

/-- The text with which a class without an id selects does not name the row id. -/
lemma command_noAutoid_select (h : ValidNames 96 rowid table fs) :
    command (tableNoAutoidBind num rowid table fs).selectSQL =
      some (.select (fs.map toUpper) (toUpper table)) := by
  refine (congrArg command ?_).trans
    (command_select (.inl rfl) h.quote_not_mem_table h.ne_nil h.quote_not_mem)
  simp only [tableNoAutoidBind, List.append_assoc]
  rfl

/-- The columns of all rows. -/
lemma query_rowidTable (h : ValidNames 96 rowid table fs) {rows : List (Row (Fields V))}
    (hrows : Fits fs.length rows) :
    (rowidTable num rowid table fs rows).query (.select (fs.map toUpper) (toUpper table)) =
      some (rows.map Row.fields) := by
  rw [rowidTable, query_select (fun _ hc => hc)]
  congr 1
  apply List.map_congr_left
  intro r hr
  exact map_cells h.key_not_mem (List.nodup_cons.1 h.nodup).2 (by rw [hrows r hr, List.length_map])

/-- The columns of an item from the first one on, as many as there are. -/
lemma columnsFrom_zero (fields : Fields V) (n : ℕ) : columnsFrom 0 n fields =
    fields.take n ++ List.replicate (n - fields.length) none := by
  apply List.ext_getElem
  · simp [columnsFrom]
    omega
  · intro i hi hi'
    simp only [columnsFrom, List.length_map, List.length_range] at hi
    by_cases hlt : i < fields.length
    · rw [List.getElem_append_left (by simp; omega)]
      simp [columnsFrom, hlt]
    · rw [List.getElem_append_right (by simp; omega)]
      simp [columnsFrom, hlt]

variable [DecidableEq V]

/-- **Items without an id.** Saving works as for a class with an id, but the row id is not
selected: every item that is read has the row id that it had before, whatever row it is, so that an
item read into a new one is not valid and is inserted once more when it is saved.

**Proof sketch.** One item saved is one step of `saved`: its text is the update or the insertion of
the table, as its id is valid or not. By induction the table is that of all items saved, and what
is selected of a row are its columns, in the order of the class. -/
theorem noAutoid_realises (hnum : Function.Injective num) (h : ValidNames 96 rowid table fs)
    (B : Backend (Fields V)) {newKey : Sql.Table V → V}
    (hnew : ∀ rows, newKey (rowidTable num rowid table fs rows) = num (B.newId rows))
    {items : List (Item (Fields V))} (hitems : ∀ item ∈ items, item.fields.length = fs.length)
    (old : Item (Fields V)) :
    ∃ t, items.foldlM (saveIn (tableNoAutoidBind num rowid table fs) newKey)
        (rowidTable num rowid table fs []) = some t ∧
      readFrom (tableNoAutoidBind num rowid table fs) t old =
        some ((items.foldl (saved B) []).map fun r => ⟨old.id, r.fields⟩) := by
  have hempty : Fits fs.length ([] : List (Row (Fields V))) := by
    intro r hr
    simp at hr
  have hsave : ∀ rows, Fits fs.length rows → ∀ item, item.fields.length = fs.length →
      saveIn (tableNoAutoidBind num rowid table fs) newKey (rowidTable num rowid table fs rows)
        item = some (rowidTable num rowid table fs (saved B rows item)) := by
    intro rows _ item hitem
    have hlen : item.fields.length = (fs.map toUpper).length := by rw [List.length_map, hitem]
    rw [saveIn, saved, statementOf]
    split
    · rw [updateIn, command_noAutoid_update h]
      exact execute_update hnum h.key_not_mem (fun _ hc => hc)
        (newKey (rowidTable num rowid table fs rows)) hlen
    · rw [insertInto, command_noAutoid_insert h, hnew]
      exact execute_insert h.key_not_mem (fun _ hc => hc) hlen
  obtain ⟨hsaved, hfits⟩ := foldlM_saveIn hsave hempty hitems
  refine ⟨_, hsaved, ?_⟩
  rw [readFrom, command_noAutoid_select h, Option.bind_some, query_rowidTable h hfits,
    Option.map_some, List.map_map]
  congr 1
  apply List.map_congr_left
  intro r hr
  have hcolumns : columnsFrom 0 fs.length r.fields = r.fields := by
    rw [columnsFrom_zero, ← hfits r hr]
    simp
  simp only [Function.comp_apply, tableNoAutoidBind, hcolumns]

/-- An item is inserted, read into a new item and saved: it is inserted once more. -/
theorem noAutoid_realises_twice :
    ∃ t, [(⟨0, [some 7, none]⟩ : Item (Fields ℕ)), ⟨0, [some 7, none]⟩].foldlM
        (saveIn (tableNoAutoidBind id (text "rowid") (text "t") [text "a", text "b"]) nextKey)
        (rowidTable id (text "rowid") (text "t") [text "a", text "b"] []) = some t ∧
      readFrom (tableNoAutoidBind id (text "rowid") (text "t") [text "a", text "b"]) t ⟨0, []⟩ =
        some [⟨0, [some 7, none]⟩, ⟨0, [some 7, none]⟩] :=
  noAutoid_realises Function.injective_id ⟨by decide, by decide, by decide, by decide, by decide⟩
    (Database.plainBackend _ fun _ => none) (nextKey_tableOf _ _ _ _) (by decide) _

/-- **The fourth macro.** Its update binds the row id in place of the last column and binds nothing
to the row id that the text asks for. A parameter that is not bound is `NULL`, to which no row id
is equal, so the update changes no row at all; and the last column is not read.

**Proof sketch.** The text has five parameters and four are bound. The fifth is `none`, which
`Matches` of no row. What is read of a row are its first three columns, in front of the fourth of
the item that was there before. -/
theorem noAutoid4_update {f1 f2 f3 f4 : List UInt8}
    (h : ValidNames 96 rowid table [f1, f2, f3, f4]) {newKey : Sql.Table V → V}
    {rows : List (Row (Fields V))} (hrows : Fits 4 rows) {item : Item (Fields V)}
    (hitem : item.fields.length = 4) :
    updateIn (tableNoAutoidBind4 num rowid table f1 f2 f3 f4) newKey
        (rowidTable num rowid table [f1, f2, f3, f4] rows) item =
      some (rowidTable num rowid table [f1, f2, f3, f4] rows) ∧
    readFrom (tableNoAutoidBind4 num rowid table f1 f2 f3 f4)
        (rowidTable num rowid table [f1, f2, f3, f4] rows) item =
      some (rows.map fun r => ⟨item.id, r.fields.take 3 ++ item.fields.drop 3⟩) := by
  constructor
  · have hlen : (item.fields.take 3).length = 3 := by simp [hitem]
    have hparam : (item.fields.take 3 ++ [some (num item.id)]).getD 4 none = none := by
      rw [List.getD_eq_getElem?_getD, List.getElem?_eq_none (by simp [hlen])]
      rfl
    have hnone : ∀ r : Cells V, ¬ Matches r (toUpper rowid) none := fun r hr => hr.2 rfl
    change (command (tableNoAutoidBind num rowid table [f1, f2, f3, f4]).updateSQL).bind _ = _
    rw [command_noAutoid_update h, Option.bind_some]
    change Sql.Table.execute _ _ (item.fields.take 3 ++ [some (num item.id)]) _ = _
    rw [Sql.Table.execute, if_pos ⟨rfl, fun _ hc => hc, .inr rfl, by simp [hlen]⟩]
    simp only [List.length_map, List.length_cons, List.length_nil, hparam, hnone, if_false,
      List.map_id']
  · change ((command (tableNoAutoidBind num rowid table [f1, f2, f3, f4]).selectSQL).bind _) = _
    rw [command_noAutoid_select h, Option.bind_some, query_rowidTable h hrows, Option.map_some,
      List.map_map]
    congr 1
    apply List.map_congr_left
    intro r hr
    have hcolumns : columnsFrom 0 3 r.fields = r.fields.take 3 := by
      rw [columnsFrom_zero, hrows r hr]
      simp
    simp only [Function.comp_apply, tableNoAutoidBind4, hcolumns]

/-- A row that is not updated. -/
theorem noAutoid4_update_one :
    let b := tableNoAutoidBind4 id (text "rowid") (text "t") (text "a") (text "b") (text "c")
      (text "d")
    let t := rowidTable id (text "rowid") (text "t") [text "a", text "b", text "c", text "d"]
      [⟨1, [some 5, some 5, some 5, some 5]⟩]
    updateIn b nextKey t ⟨1, [some 6, some 7, some 8, some 9]⟩ = some t ∧
      readFrom b t ⟨1, [some 6, some 7, some 8, some 9]⟩ =
        some [⟨1, [some 5, some 5, some 5, some 9]⟩] :=
  noAutoid4_update ⟨by decide, by decide, by decide, by decide, by decide⟩ (by simp [Fits]) rfl

end NoAutoid

/-! ## `COL_TABLE_BIND` -/

section ColTableBind

variable {num : ℕ → V} {asNum : Option V → ℕ} {table : List UInt8} {fs : List (List UInt8)}

/-- The number of placeholders. -/
def colCount (n : ℕ) : ℕ := if n ≤ 5 then n + 1 else 6

/-- The placeholders of a text are six question marks, or fewer, with commas between them. -/
lemma tokens_colPlaceholders (n : ℕ) :
    Sql.tokens (colPlaceholders n ++ [41]) =
      [Sql.comma].intercalate (List.replicate (colCount n) [.symbol 63]) ++ [Sql.rparen] := by
  rw [colPlaceholders, colCount]
  split
  next h =>
    subst h
    decide
  next =>
    split
    · exact tokens_placeholders (n + 1) [41]
    · exact tokens_placeholders 6 [41]

/-- The text with which a class with columns of its own inserts names the id, and has no more than
six placeholders. -/
lemma command_colTableBind_insert (h : ValidNames 34 (text "id") table fs) :
    command (colTableBind num asNum table fs).insertSQL =
      some (.insert (toUpper table) (text "ID" :: fs.map toUpper) (colCount fs.length)) := by
  have hpos : 0 < colCount fs.length := by
    rw [colCount]
    split <;> omega
  have hread := command_insert (.inr rfl) h.quote_not_mem_table h.ne_nil h.quote_not_mem true hpos
    (tokens_colPlaceholders fs.length)
  rw [insertColumns, if_pos rfl, List.map_append, List.map_map] at hread
  refine (congrArg command ?_).trans hread
  simp only [colTableBind, List.append_assoc]
  rfl

/-- The text with which a class with columns of its own updates. -/
lemma command_colTableBind_update (h : ValidNames 34 (text "id") table fs) :
    command (colTableBind num asNum table fs).updateSQL =
      some (.update (toUpper table) (fs.map toUpper) (text "ID")) := by
  refine (congrArg command ?_).trans
    (command_update (.inr rfl) h.quote_not_mem_table h.ne_nil h.quote_not_mem h.quote_not_mem_key)
  simp only [colTableBind, List.append_assoc]
  rfl

/-- The text with which a class with columns of its own selects. -/
lemma command_colTableBind_select (h : ValidNames 34 (text "id") table fs) :
    command (colTableBind num asNum table fs).selectSQL =
      some (.select (text "ID" :: fs.map toUpper) (toUpper table)) := by
  have hcolumns : ∀ f ∈ text "id" :: fs, 34 ∉ f := by
    intro f hf
    rcases List.mem_cons.1 hf with rfl | hf
    · exact h.quote_not_mem_key
    · exact h.quote_not_mem f hf
  refine (congrArg command ?_).trans
    (command_select (.inr rfl) h.quote_not_mem_table (List.cons_ne_nil (text "id") fs) hcolumns)
  simp only [colTableBind, List.append_assoc]
  rfl

variable [DecidableEq V]

/-- **Items with an id of their own.** An item of at most five columns is inserted with its id, and
no item of more columns can be inserted, as there are six placeholders for its columns and the id.
Updating and reading work for any number of columns.

**Proof sketch.** The insertion names one column more than there are fields, and the width rule
lets it pass if there are as many placeholders; the count of these stops at six. Updating and
reading are those of the other family. -/
theorem colTableBind_realises (hasNum : ∀ n, asNum (some (num n)) = n)
    (h : ValidNames 34 (text "id") table fs) {newKey : Sql.Table V → V}
    {rows : List (Row (Fields V))} (hrows : Fits fs.length rows) {item : Item (Fields V)}
    (hitem : item.fields.length = fs.length) :
    insertInto (colTableBind num asNum table fs) newKey (idTable num table fs rows) item =
        (if fs.length ≤ 5 then some (idTable num table fs (rows ++ [⟨item.id, item.fields⟩]))
          else none) ∧
      updateIn (colTableBind num asNum table fs) newKey (idTable num table fs rows) item =
        some (idTable num table fs
          (rows.map fun r => if r.id = item.id then { r with fields := item.fields } else r)) ∧
      readFrom (colTableBind num asNum table fs) (idTable num table fs rows) item =
        some (rows.map fun r => ⟨r.id, r.fields⟩) := by
  have hnum : Function.Injective num :=
    Function.LeftInverse.injective (g := fun v => asNum (some v)) hasNum
  have hlen : item.fields.length = (fs.map toUpper).length := by rw [List.length_map, hitem]
  refine ⟨?_, ?_, ?_⟩
  · rw [insertInto, command_colTableBind_insert h, Option.bind_some]
    change Sql.Table.execute _ _ (some (num item.id) :: item.fields) _ = _
    have hkey : text "ID" ∉ fs.map toUpper := h.key_not_mem
    by_cases hcount : fs.length ≤ 5
    · rw [if_pos hcount, Sql.Table.execute, if_pos ⟨rfl, fun _ hc => hc,
        by simp [colCount, hcount], by simp [colCount, hcount, hitem]⟩, newCells_key hkey _ _ rfl]
      simp [idTable, tableOf]
    · rw [if_neg hcount, Sql.Table.execute, if_neg]
      rintro ⟨-, -, hsame, -⟩
      rw [List.length_cons, List.length_map, colCount, if_neg hcount] at hsame
      omega
  · rw [updateIn, command_colTableBind_update h]
    exact execute_update hnum h.key_not_mem (mem_visible _ _)
      (newKey (idTable num table fs rows)) hlen
  · rw [readFrom, command_colTableBind_select h, Option.bind_some, query_idTable, Option.map_some,
      List.map_map]
    congr 1
    apply List.map_congr_left
    intro r hr
    -- `load` is the same function in both families
    change (tableBind num asNum table fs).load _ item = _
    exact load_columns hasNum h.nodup (hrows r hr) item

/-- A class with six columns, of which no item can be inserted. -/
theorem colTableBind_realises_six :
    let fs := ["a", "b", "c", "d", "e", "f"].map text
    let item : Item (Fields ℕ) := ⟨1, [some 1, some 2, some 3, some 4, some 5, some 6]⟩
    insertInto (colTableBind id (·.getD 0) (text "t") fs) nextKey (idTable id (text "t") fs [])
      item = none :=
  (colTableBind_realises (fun _ => rfl) ⟨by decide, by decide, by decide, by decide, by decide⟩
    (by simp [Fits]) rfl).1

end ColTableBind

end HkuUtils.TableMacro
