import HkuUtils.Parameter.Store

set_option relaxedAutoImplicit false
set_option autoImplicit false

/-!
# Parameters in an archive

The two versions of `Parameter::serialize`: one writes the parameters to an archive, the other reads
them from one.

## Main definitions

* `HkuUtils.Parameter.Datum`, `Archive` — the values of an archive, and how they are read.
* `HkuUtils.Parameter.serialize` — the values that are written.
* `HkuUtils.Parameter.load` — what is read from some values.
* `HkuUtils.Parameter.Any.Archived` — the types that are written with their value.

## Main results

* `HkuUtils.Parameter.loadItems_written` — entries of these types are read again.
* `HkuUtils.Parameter.loadItems_length` — an iteration that stores an entry reads three values.
* `HkuUtils.Parameter.archive_round_trip`, `date_lost` — when the parameters come back.

## Design

An archive is the sequence of the values that were written. A value that is read at its own type is
itself; what is read at another type depends on the archive and is left open. The order of the
entries is that of the map, which is an association list here.
-/

namespace HkuUtils.Parameter

open Fallible

/-- A value of an archive. -/
inductive Datum where
  | size (n : ℕ)
  | string (s : String)
  | int64 (x : Int64)
  | bool (x : Bool)
  | double (x : Binary.Floating binary64)

/-- How values are read at a type; `none` is an exception of the archive. Only what was written at
a type has to be read back at the same one. -/
structure Archive where
  size : Datum → Option ℕ
  string : Datum → Option String
  int64 : Datum → Option Int64
  bool : Datum → Option Bool
  double : Datum → Option (Binary.Floating binary64)
  size_size : ∀ n, size (.size n) = some n
  string_string : ∀ s, string (.string s) = some s
  int64_int64 : ∀ x, int64 (.int64 x) = some x
  bool_bool : ∀ x, bool (.bool x) = some x
  double_double : ∀ x, double (.double x) = some x

attribute [simp] Archive.size_size Archive.string_string Archive.int64_int64 Archive.bool_bool
  Archive.double_double

/-- An entry of the map. -/
abbrev Entry := Sigma fun _ : String => Any

/-! ## Writing -/

/-- `saveItem`. -/
def saveItem (type : String) (val : Datum) : List Datum := [.string type, val]

/-- One iteration of `serialize() const`. -/
def serializeEntry (e : Entry) : List Datum :=
  .string e.1 ::
    match e.2 with
    | .int64 x => saveItem "int" (.int64 x)
    | .bool x => saveItem "bool" (.bool x)
    | .double x => saveItem "double" (.double x)
    | .string x => saveItem "string" (.string x)
    | _ => []

/-- `serialize() const`. -/
def serialize (es : List Entry) : List Datum := .size es.length :: es.flatMap serializeEntry

/-! ## Reading -/

variable (A : Archive)

/-- A value is read at a type. -/
def read {α : Type} (at_ : Datum → Option α) : List Datum → Option (α × List Datum)
  | [] => none
  | d :: ds => (at_ d).map fun a => (a, ds)

/-- `loadItem`. -/
def loadItem {α : Type} (at_ : Datum → Option α) (any : α → Any) (key : String)
    (s : Params × List Datum) : Option (Params × List Datum) := do
  let (x, ds) ← read at_ s.2
  return (s.1.insert key (any x), ds)

/-- What an iteration of `serialize()` does after it has read the name and the type. -/
def loadTyped (key typ : String) (s : Params × List Datum) : Option (Params × List Datum) :=
  if typ = "int" then loadItem A.int64 .int64 key s
  else if typ = "bool" then loadItem A.bool .bool key s
  else if typ = "double" then loadItem A.double .double key s
  else if typ = "string" then loadItem A.string .string key s
  else some s

/-- The iterations of `serialize()`. -/
def loadItems : ℕ → Params × List Datum → Option (Params × List Datum)
  | 0, s => some s
  | n + 1, s => do
    let (key, ds) ← read A.string s.2
    let (typ, ds) ← read A.string ds
    let s ← loadTyped A key typ (s.1, ds)
    loadItems n s

/-- `serialize()` reads the parameters into `p`. -/
def load (p : Params) (ds : List Datum) : Option (Params × List Datum) := do
  let (total, ds) ← read A.size ds
  loadItems A total (p, ds)

/-- The types that are written with their value. -/
def Any.Archived : Any → Prop
  | int64 _ => True
  | bool _ => True
  | double _ => True
  | string _ => True
  | _ => False

variable {A}

/-! ## What is read again -/

/-- The entries go into the map one after the other. -/
def insertAll (p : Params) (es : List Entry) : Params := es.foldl (fun p e => p.insert e.1 e.2) p

/-- An entry of a type that is written with its value is read again. -/
lemma loadItems_entry {e : Entry} (he : e.2.Archived) (n : ℕ) (p : Params) (ds : List Datum) :
    loadItems A (n + 1) (p, serializeEntry e ++ ds) = loadItems A n (p.insert e.1 e.2, ds) := by
  obtain ⟨key, v⟩ := e
  cases v with
  | int64 x => simp [loadItems, serializeEntry, saveItem, read, loadTyped, loadItem]
  | bool x => simp [loadItems, serializeEntry, saveItem, read, loadTyped, loadItem]
  | double x => simp [loadItems, serializeEntry, saveItem, read, loadTyped, loadItem]
  | string x => simp [loadItems, serializeEntry, saveItem, read, loadTyped, loadItem]
  | _ => exact he.elim

/-- **Entries of these types are read again**, and nothing else is. -/
lemma loadItems_written {es : List Entry} (h : ∀ e ∈ es, e.2.Archived) (p : Params)
    (ds : List Datum) :
    loadItems A es.length (p, es.flatMap serializeEntry ++ ds) = some (insertAll p es, ds) := by
  induction es generalizing p with
  | nil => rfl
  | cons e es ih =>
    rw [List.flatMap_cons, List.append_assoc, List.length_cons,
      loadItems_entry (h e List.mem_cons_self)]
    exact ih (fun e' he' => h e' (List.mem_cons_of_mem e he')) _

/-- Entries with different names are found in the map. -/
lemma lookup_insertAll {es : List Entry} (h : es.NodupKeys) (p : Params) (name : String) :
    (insertAll p es).lookup name = (es.dlookup name).or (p.lookup name) := by
  induction es generalizing p with
  | nil => simp [insertAll]
  | cons e es ih =>
    obtain ⟨hmem, hnodup⟩ := List.nodupKeys_cons.mp h
    rw [show insertAll p (e :: es) = insertAll (p.insert e.1 e.2) es from rfl, ih hnodup]
    obtain ⟨key, v⟩ := e
    rcases eq_or_ne name key with rfl | hne
    · have hnone : es.dlookup name = none := List.dlookup_eq_none.mpr hmem
      rw [hnone, List.dlookup_cons_eq, Finmap.lookup_insert]
      rfl
    · rw [List.dlookup_cons_ne _ _ hne, Finmap.lookup_insert_of_ne _ hne]

/-- The entries of a map make the map. -/
lemma insertAll_entries (l : AList fun _ : String => Any) : insertAll ∅ l.entries = l.toFinmap := by
  refine Finmap.ext_lookup fun name => ?_
  rw [lookup_insertAll l.nodupKeys, Finmap.lookup_empty, Option.or_none]
  rfl

/-! ## Counting values -/

/-- A value that is read is gone. -/
lemma read_eq_some {α : Type} {at_ : Datum → Option α} {ds ds' : List Datum} {a : α}
    (h : read at_ ds = some (a, ds')) : ds.length = ds'.length + 1 := by
  cases ds with
  | nil => cases h
  | cons d ds =>
    obtain ⟨b, -, hb⟩ := Option.map_eq_some_iff.mp h
    cases hb
    rfl

/-- An entry adds at most one name. -/
lemma card_keys_insert (p : Params) (name : String) (v : Any) :
    (p.insert name v).keys.card ≤ p.keys.card + 1 := by
  have hkeys : (p.insert name v).keys = insert name p.keys := by
    ext k
    rw [Finmap.mem_keys, Finmap.mem_insert, Finset.mem_insert, Finmap.mem_keys]
  rw [hkeys]
  exact Finset.card_insert_le name p.keys

/-- An item is one value and at most one name. -/
lemma loadItem_length {α : Type} {at_ : Datum → Option α} {any : α → Any} {key : String}
    {s t : Params × List Datum} (h : loadItem at_ any key s = some t) :
    s.2.length = t.2.length + 1 ∧ t.1.keys.card ≤ s.1.keys.card + 1 := by
  obtain ⟨⟨x, ds⟩, hread, hx⟩ := Option.bind_eq_some_iff.mp h
  cases hx
  exact ⟨read_eq_some hread, card_keys_insert _ _ _⟩

/-- What follows the type is one value and at most one name, or nothing. -/
lemma loadTyped_length {key typ : String} {s t : Params × List Datum}
    (h : loadTyped A key typ s = some t) :
    ∃ k ≤ 1, s.2.length = t.2.length + k ∧ t.1.keys.card ≤ s.1.keys.card + k := by
  unfold loadTyped at h
  split_ifs at h
  · exact ⟨1, le_rfl, loadItem_length h⟩
  · exact ⟨1, le_rfl, loadItem_length h⟩
  · exact ⟨1, le_rfl, loadItem_length h⟩
  · exact ⟨1, le_rfl, loadItem_length h⟩
  · cases h
    exact ⟨0, by omega, rfl, le_rfl⟩

/-- **Counting**: an iteration reads two values, and one more for each name that it adds. -/
lemma loadItems_length {n : ℕ} {s t : Params × List Datum} (h : loadItems A n s = some t) :
    ∃ k ≤ n, s.2.length = t.2.length + 2 * n + k ∧ t.1.keys.card ≤ s.1.keys.card + k := by
  induction n generalizing s with
  | zero =>
    cases h
    exact ⟨0, le_rfl, rfl, le_rfl⟩
  | succ n ih =>
    obtain ⟨⟨key, ds⟩, hkey, h⟩ := Option.bind_eq_some_iff.mp h
    obtain ⟨⟨typ, ds'⟩, htyp, h⟩ := Option.bind_eq_some_iff.mp h
    obtain ⟨s', hs', h⟩ := Option.bind_eq_some_iff.mp h
    have hlen := read_eq_some hkey
    have hlen' := read_eq_some htyp
    obtain ⟨k, hk, hvalue, hnames⟩ := loadTyped_length hs'
    obtain ⟨k', hk', hvalues, hnames'⟩ := ih h
    simp only at hvalue hnames
    exact ⟨k + k', by omega, by omega, by omega⟩

/-- If there are three values for each entry, every entry is of a type that is written with its
value.

**Proof sketch.** An entry has at most three values, and exactly three if it is written with its
value. If one had fewer, the others could not make up for it. -/
lemma archived_of_length {es : List Entry}
    (h : 3 * es.length ≤ (es.flatMap serializeEntry).length) : ∀ e ∈ es, e.2.Archived := by
  have hle (e : Entry) : (serializeEntry e).length ≤ 3 := by
    obtain ⟨key, v⟩ := e
    cases v <;> simp [serializeEntry, saveItem]
  have hlt {e : Entry} (he : 3 ≤ (serializeEntry e).length) : e.2.Archived := by
    obtain ⟨key, v⟩ := e
    cases v <;> simp_all [serializeEntry, saveItem, Any.Archived]
  have hall (es : List Entry) : (es.flatMap serializeEntry).length ≤ 3 * es.length := by
    induction es with
    | nil => simp
    | cons e es ih =>
      have := hle e
      simp only [List.flatMap_cons, List.length_append, List.length_cons]
      omega
  induction es with
  | nil => exact List.forall_mem_nil _
  | cons e es ih =>
    have := hle e
    have := hall es
    simp only [List.flatMap_cons, List.length_append, List.length_cons] at h
    exact List.forall_mem_cons.mpr ⟨hlt (by omega), ih (by omega)⟩

/-- The count is read first, and then the entries. -/
lemma load_serialize (p : Params) (es : List Entry) :
    load A p (serialize es) = loadItems A es.length (p, es.flatMap serializeEntry) := by
  simp [load, serialize, read]

/-- If the parameters come back, every entry is of a type that is written with its value: there are
as many names as entries, so every iteration has read three values. -/
lemma archived_of_load {l : AList fun _ : String => Any}
    (h : load A ∅ (serialize l.entries) = some (l.toFinmap, [])) :
    ∀ e ∈ l.entries, e.2.Archived := by
  rw [load_serialize] at h
  obtain ⟨k, hk, hvalues, hnames⟩ := loadItems_length h
  have hcard : l.toFinmap.keys.card = l.entries.length := by
    rw [← Finset.card_val, Finmap.keys_val, Multiset.coe_card, AList.keys, List.keys,
      List.length_map]
  refine archived_of_length ?_
  simp only [Finmap.keys_empty, Finset.card_empty, List.length_nil] at hvalues hnames
  omega

variable (A)

/-- **When the parameters come back**: exactly if every entry is an `int64_t`, a `bool`, a `double`
or a string. The map is given in the order in which it is written.

**Proof sketch.** Three values are read for each entry, so there have to be three for each, which
means that every entry was written with its value; these are then read back one by one. -/
theorem archive_round_trip (l : AList fun _ : String => Any) :
    load A ∅ (serialize l.entries) = some (l.toFinmap, []) ↔ ∀ e ∈ l.entries, e.2.Archived := by
  refine ⟨archived_of_load, fun h => ?_⟩
  have hwritten := loadItems_written (A := A) h ∅ []
  rw [List.append_nil] at hwritten
  rw [load_serialize, hwritten, insertAll_entries]

/-- A build with dates. -/
def linuxDatetime : Build := { linux with datetime := true }

/-- `set<Datetime>("start", Datetime(2024, 1, 1))`. -/
def setDate : Call := ⟨"start", .datetime 1704067200000000, false⟩

/-- A date is set, and the parameters do not come back from any archive, in whichever order they
are written. -/
theorem date_lost :
    Returns (call linuxDatetime setDate) ∅ ∧
    ∀ (A : Archive) (l : AList fun _ : String => Any),
      l.toFinmap = calls linuxDatetime ∅ [setDate] →
      load A ∅ (serialize l.entries) ≠ some (calls linuxDatetime ∅ [setDate], []) := by
  have hc : setDate.Accepted linuxDatetime (calls linuxDatetime ∅ []) := Or.inr rfl
  refine ⟨returns_call_iff.mpr hc, fun A l hl hload => ?_⟩
  have hstored : l.lookup "start" = some setDate.stored := by
    rw [← Finmap.lookup_toFinmap, hl]
    have hlookup : (calls linuxDatetime ∅ ([] ++ [setDate])).lookup setDate.name =
        some setDate.stored := lookup_accepted hc (List.forall_mem_nil _)
    exact hlookup
  rw [← hl] at hload
  exact archived_of_load hload _ (AList.mem_lookup_iff.mp hstored)

end HkuUtils.Parameter
