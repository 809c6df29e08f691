import Mathlib.Data.Int.Notation
import Mathlib.Logic.Function.Basic
import HkuUtils.Fallible
import HkuUtils.Statement.MysqlTime
import HkuUtils.Transition

set_option relaxedAutoImplicit false
set_option autoImplicit false

/-!
# Executing a statement of MySQL again

`MySQLStatement` makes its result buffers when the first row of an execution is fetched: it goes
through the fields of the result with `mysql_fetch_field`, makes a buffer for each of them, and
binds the buffers to the result. A reset clears the buffers, but the fields are not rewound. This
file says after which calls the buffers hold the row that has been fetched.

## Main definitions

* `HkuUtils.MySQLStatement.Statement` — the members of the class and of the native statement.
* `HkuUtils.MySQLStatement.subExec`, `bindResult`, `subMoveNext`, `getColumn` — the methods.
* `HkuUtils.MySQLStatement.statements` — the sequences of calls with the results of the native ones.
* `HkuUtils.MySQLStatement.Ready` — every column has its buffer, which is bound and holds the row.
* `HkuUtils.MySQLStatement.DatesFit` — the rows with dates that a `Datetime` can have.
* `HkuUtils.MySQLStatement.BoundFromStart` — the rows that are fetched into buffers for all fields.

## Main results

* `HkuUtils.MySQLStatement.getColumn_ready_iff` — a column of a row that is ready.
* `HkuUtils.MySQLStatement.bindFields_length` — how many buffers the loop over the fields makes.
* `HkuUtils.MySQLStatement.always_ready_iff` — the runs in which every row that is fetched is ready.

## Design

`boost::any` owns its value, so that a buffer has an address that does not change; the native
statement keeps the addresses it was given. A row is a function from columns to values, and `none`
is `NULL`; the values themselves are a parameter, and so is the `MYSQL_TIME` that the bytes of a
value are, for the columns with dates. The vectors of `column_count` elements are
functions of the column. A call carries the results of the native functions that it may call. A
result without metadata has no fields.
-/

namespace HkuUtils.MySQLStatement

open Fallible Transition

/-! ## Fields and buffers -/

/-- `enum_field_types`; the types that the class does not support are `other`. -/
inductive FieldType where
  | longlong
  | long
  | double
  | float
  | varString
  | string
  | blob
  | tinyBlob
  | varchar
  | tiny
  | short
  | datetime
  | date
  | other (code : ℕ)
  deriving DecidableEq, Repr

/-- The types of the values in the buffers, by which `boost::any_cast` finds them. -/
inductive Kind where
  | int64
  | int32
  | double
  | float
  | chars
  | int8
  | int16
  | time
  deriving DecidableEq, Repr

/-- The value that `_bindResult` makes for a field; `none` throws. Several types of texts have the
same buffer. -/
def FieldType.kind : FieldType → Option Kind
  | .longlong => some .int64
  | .long => some .int32
  | .double => some .double
  | .float => some .float
  | .varString | .string | .blob | .tinyBlob | .varchar => some .chars
  | .tiny => some .int8
  | .short => some .int16
  | .datetime | .date => some .time
  | .other _ => none

/-- `MYSQL_FIELD`. -/
structure Field where
  /-- `name`. -/
  name : String
  /-- `type`. -/
  type : FieldType
  /-- `length`. -/
  length : ℕ
  deriving DecidableEq, Repr

/-- `MYSQL_BIND` of a column: the type and the place that the client library writes to. -/
structure Bind where
  /-- `buffer_type`. -/
  type : FieldType
  /-- `buffer`. -/
  buffer : Option ℕ
  /-- `buffer_length`. -/
  bufferLength : ℕ
  /-- `is_null`, `error` and `length` point to the elements of the class. -/
  attached : Bool
  deriving DecidableEq, Repr

/-- An element of `m_result_buffer`, with its address. -/
structure Slot (V : Type) where
  /-- The address of the value. -/
  addr : ℕ
  /-- The type of the value. -/
  kind : Kind
  /-- The value, or `none` before anything has been fetched. -/
  value : Option V
  deriving DecidableEq, Repr

/-- A prepared query. -/
structure Query where
  /-- Whether there are parameters. -/
  hasParams : Bool
  /-- The fields of `m_meta_result`. -/
  fields : List Field

/-! ## The class -/

/-- The members of the class, and what the native functions keep: the position in the list of
fields, the buffers that were bound, and the row. -/
structure Statement (V : Type) where
  /-- `m_needs_reset`. -/
  needsReset : Bool
  /-- `m_has_bind_result`. -/
  hasBindResult : Bool
  /-- `m_result_bind`. -/
  resultBind : ℕ → Bind
  /-- `m_result_buffer`. -/
  resultBuffer : List (Slot V)
  /-- `m_result_is_null`. -/
  isNull : ℕ → Bool
  /-- `m_result_error`. -/
  error : ℕ → Bool
  /-- The address of the next buffer. -/
  nextAddr : ℕ
  /-- The fields that `mysql_fetch_field` has returned. -/
  cursor : ℕ
  /-- What `mysql_stmt_bind_result` has been given. -/
  bound : Option (ℕ → Bind)
  /-- The row that the last call of `moveNext` has fetched. Nothing depends on it. -/
  row : Option (ℕ → Option V)
  /-- The buffers of this execution have been made from the first field on, and
  `mysql_stmt_bind_result` has accepted them. Nothing depends on it. -/
  fromStart : Bool

/-- The exceptions. -/
inductive Exception where
  /-- `SQL_CHECK` and `SQL_THROW` with a native function and its result. -/
  | sql (function : String) (ret : ℤ)
  /-- `HKU_CHECK` and `HKU_THROW`. -/
  | hku (what : String)
  /-- Undefined behaviour. -/
  | undefined
  deriving DecidableEq, Repr

variable {V : Type}

/-- The members after the constructor. No buffer is bound, and the list of fields is at its
beginning. -/
def Statement.init (V : Type) : Statement V where
  needsReset := false
  hasBindResult := false
  resultBind := fun _ => ⟨.other 0, none, 0, false⟩
  resultBuffer := []
  isNull := fun _ => false
  error := fun _ => false
  nextAddr := 0
  cursor := 0
  bound := none
  row := none
  fromStart := false

/-- `SQL_CHECK(ret == 0, …)`. -/
def sqlCheck (function : String) (ret : ℤ) : Fallible (Statement V) Exception Unit :=
  if ret = 0 then pure () else throw (.sql function ret)

/-- `_reset`, if `mysql_stmt_reset` returns `ret`. -/
def reset (ret : ℤ) : Fallible (Statement V) Exception Unit := do
  let s ← get
  when s.needsReset do
    sqlCheck "mysql_stmt_reset" ret
    modify fun s => { s with resultBuffer := [], needsReset := false, hasBindResult := false }

/-- `sub_exec`, with the results of the native functions. -/
def subExec (q : Query) (resetRet paramRet executeRet : ℤ) :
    Fallible (Statement V) Exception Unit := do
  modify fun s => { s with row := none }
  reset resetRet
  modify fun s => { s with needsReset := true }
  when q.hasParams (sqlCheck "mysql_stmt_bind_param" paramRet)
  sqlCheck "mysql_stmt_execute" executeRet

/-- The buffer of a field, and its binding. -/
def Statement.push (s : Statement V) (f : Field) (idx : ℕ) (k : Kind) : Statement V :=
  { s with
    resultBuffer := s.resultBuffer ++ [⟨s.nextAddr, k, none⟩]
    resultBind := Function.update s.resultBind idx
      ⟨f.type, some s.nextAddr, if k = .chars then f.length + 1
        else (s.resultBind idx).bufferLength, true⟩
    nextAddr := s.nextAddr + 1
    cursor := s.cursor + 1 }

/-- A field whose type is not supported. -/
def Statement.skip (s : Statement V) (f : Field) (idx : ℕ) : Statement V :=
  { s with
    resultBind := Function.update s.resultBind idx
      { s.resultBind idx with type := f.type, attached := true }
    cursor := s.cursor + 1 }

/-- The loop of `_bindResult` over the fields that are left. It goes on where the library is in the
list of fields, which is not rewound. -/
def bindFields : List Field → ℕ → Fallible (Statement V) Exception Unit
  | [], _ => pure ()
  | f :: fs, idx =>
    match f.type.kind with
    | some k => do
      modify fun s => s.push f idx k
      bindFields fs (idx + 1)
    | none => do
      modify fun s => s.skip f idx
      throw (.hku ("Unsupport field type: field name: " ++ f.name))

/-- `_bindResult`. -/
def bindResult (q : Query) : Fallible (Statement V) Exception Unit := do
  let s ← get
  bindFields (q.fields.drop s.cursor) 0

/-- What `mysql_stmt_fetch` returns: a row, an error, the end, or a row with columns that do not
fit. -/
inductive Fetch (V : Type) where
  | row (cells : ℕ → Option V)
  | error
  | noData
  | truncated (cells : ℕ → Option V) (errors : ℕ → Bool)

/-- The values of a row of `n` columns are written to the addresses that are bound. A buffer to
which no bind points keeps what it had. -/
def Statement.write (s : Statement V) (n : ℕ) (cells : ℕ → Option V) (errors : ℕ → Bool) :
    Statement V :=
  match s.bound with
  | none => s
  | some b =>
    { s with
      resultBuffer := s.resultBuffer.map fun slot =>
        match (List.range n).find? fun i => (b i).buffer = some slot.addr with
        | some i => { slot with value := (cells i).or slot.value }
        | none => slot
      isNull := fun i => if (b i).attached then (cells i).isNone else s.isNull i
      error := fun i => if (b i).attached then errors i else s.error i }

/-- What `mysql_stmt_fetch` does. -/
def Statement.fetched (s : Statement V) (n : ℕ) : Fetch V → Statement V
  | .row cells => { s.write n cells (fun _ => false) with row := some cells }
  | .error | .noData => s
  | .truncated cells errors => s.write n cells errors

/-- What `mysql_stmt_fetch` returns. -/
def Fetch.ret : Fetch V → ℤ
  | .row _ => 0
  | .error => 1
  | .noData => 100
  | .truncated _ _ => 101

/-- The first part of `sub_moveNext`, which makes and binds the buffers. -/
def bindOnce (q : Query) (bindRet storeRet : ℤ) : Fallible (Statement V) Exception Unit := do
  let s ← get
  let first := s.cursor == 0
  modify fun s => { s with fromStart := false }
  bindResult q
  modify fun s => { s with hasBindResult := true }
  sqlCheck "mysql_stmt_bind_result" bindRet
  modify fun s => { s with bound := some s.resultBind, fromStart := first }
  sqlCheck "mysql_stmt_store_result" storeRet

/-- `sub_moveNext`, with the results of the native functions. -/
def subMoveNext (q : Query) (bindRet storeRet : ℤ) (fetch : Fetch V) :
    Fallible (Statement V) Exception Bool := do
  modify fun s => { s with row := none }
  let s ← get
  when (!s.hasBindResult) (bindOnce q bindRet storeRet)
  modify fun s => s.fetched q.fields.length fetch
  if fetch.ret = 0 then return true
  else if fetch.ret = 1 then throw (.sql "mysql_stmt_fetch" fetch.ret)
  else return false

/-! ## Columns -/

/-- The functions `sub_getColumnAs…`. -/
inductive Getter where
  | int64
  | double
  | datetime
  | text
  | blob
  | blobVector
  deriving DecidableEq, Repr

/-- The function is for columns of this type. -/
def Getter.reads : Getter → FieldType → Bool
  | .int64, .longlong | .int64, .long | .int64, .tiny | .int64, .short => true
  | .double, .double | .double, .float => true
  | .datetime, .datetime | .datetime, .date => true
  | .text, t | .blob, t | .blobVector, t => t.kind = some .chars
  | _, _ => false

/-- The name of the function. -/
def Getter.name : Getter → String
  | .int64 => "sub_getColumnAsint64_t"
  | .double => "sub_getColumnAsDouble"
  | .datetime => "sub_getColumnAsDatetime"
  | .text => "sub_getColumnAsText"
  | .blob | .blobVector => "sub_getColumnAsBlob"

/-- What the functions return: the value of a buffer, or the `Datetime` that is made of it. -/
inductive Item (V : Type) where
  | value (v : V)
  | datetime (d : Datetime)
  deriving DecidableEq, Repr

/-- How the function gets at the value of a buffer: by the type of the column and `any_cast`, or by
`any_cast` of a pointer, which is not checked. A date is converted, which may throw. -/
def Getter.cast (time : V → MysqlTime) (g : Getter) (type : FieldType) (slot : Slot V) :
    Except Exception (Option (Item V)) :=
  match g with
  | .int64 | .double =>
    if g.reads type then
      if type.kind = some slot.kind then .ok (slot.value.map .value)
      else .error (.hku "Failed get column")
    else .error (.hku "Field type mismatch!")
  | .datetime =>
    if slot.kind = .time then
      match slot.value with
      | none => .ok none
      | some v =>
        match (time v).toDatetime with
        | .ok d => .ok (some (.datetime d))
        | .error what => .error (.hku what)
    else .error .undefined
  | .text | .blob | .blobVector =>
    if slot.kind = .chars then .ok (slot.value.map .value) else .error .undefined

/-- The functions `sub_getColumnAs…`: the value of a column, or `none` for `NULL`. -/
def getColumn (time : V → MysqlTime) (g : Getter) (s : Statement V) (idx : ℕ) :
    Except Exception (Option (Item V)) :=
  match s.resultBuffer[idx]? with
  | none => .error (.hku "idx out of range!")
  | some slot =>
    if s.error idx then .error (.hku ("Error occurred in " ++ g.name ++ "!"))
    else if s.isNull idx then .ok none
    else g.cast time (s.resultBind idx).type slot

/-! ## Runs -/

/-- The calls, with the results of the native functions. -/
inductive Call (V : Type) where
  | exec (resetRet paramRet executeRet : ℤ)
  | moveNext (bindRet storeRet : ℤ) (fetch : Fetch V)
  | getColumn (g : Getter) (idx : ℕ)

/-- The state after a call. -/
def call (q : Query) (s : Statement V) : Call V → Statement V
  | .exec resetRet paramRet executeRet => (subExec q resetRet paramRet executeRet s).2
  | .moveNext bindRet storeRet fetch => (subMoveNext q bindRet storeRet fetch s).2
  | .getColumn _ _ => s

/-- The sequences of calls. -/
def statements (V : Type) (q : Query) : System (Statement V) (Call V) where
  init := .init V
  step s c := some (call q s c)

/-- Every column has its buffer, which is of its type, is bound and holds the value of the row. -/
structure Ready (q : Query) (s : Statement V) (cells : ℕ → Option V) : Prop where
  length : s.resultBuffer.length = q.fields.length
  bound : ∃ b, s.bound = some b ∧
    ∀ (i : ℕ) (slot : Slot V), s.resultBuffer[i]? = some slot → (b i).buffer = some slot.addr
  type : ∀ (i : ℕ) (f : Field) (slot : Slot V), q.fields[i]? = some f →
    s.resultBuffer[i]? = some slot → f.type.kind = some slot.kind ∧ (s.resultBind i).type = f.type
  value : ∀ (i : ℕ) (slot : Slot V), s.resultBuffer[i]? = some slot →
    s.error i = false ∧ s.isNull i = (cells i).isNone ∧ ∀ v, cells i = some v → slot.value = some v

/-- **The value of a cell** as a function is to return it: a date is the point in time that its
fields stand for. -/
def Getter.item (time : V → MysqlTime) (g : Getter) (v : V) : Item V :=
  if g = .datetime then .datetime ((time v).point : ℤ) else .value v

/-- After a call of `moveNext` that has returned a row, the row is ready, and each function for the
type of a column returns its value. -/
def RowReady (time : V → MysqlTime) (q : Query) (s : Statement V) : Prop :=
  ∀ cells, s.row = some cells → Ready q s cells ∧
    ∀ (i : ℕ) (f : Field) (g : Getter), q.fields[i]? = some f → g.reads f.type = true →
      getColumn time g s i = .ok ((cells i).map (g.item time))

/-- The dates of a row, except for those that are `NULL`, are dates that a `Datetime` can have. -/
def DatesFit (time : V → MysqlTime) (q : Query) (cells : ℕ → Option V) : Prop :=
  ∀ (i : ℕ) (f : Field) (v : V), q.fields[i]? = some f → f.type.kind = some .time →
    cells i = some v → (time v).Fits

/-- If the call returns a row, then its buffers are made, or have been made, from the first field
on, and `mysql_stmt_bind_result` has accepted them; and its dates are dates that a `Datetime` can
have. -/
def BoundFromStart (time : V → MysqlTime) (q : Query) (s : Statement V) : Call V → Prop
  | .moveNext bindRet storeRet (.row cells) =>
    if s.hasBindResult then s.fromStart = true ∧ DatesFit time q cells
    else (∀ f ∈ q.fields.drop s.cursor, f.type.kind ≠ none) → bindRet = 0 → storeRet = 0 →
      s.cursor = 0 ∧ DatesFit time q cells
  | _ => True

/-! ## The columns of a row -/

section Columns

variable {time : V → MysqlTime} {q : Query} {s : Statement V} {cells : ℕ → Option V}

/-- The columns with dates are those that the function for dates is for. -/
lemma FieldType.kind_eq_time_iff (type : FieldType) :
    type.kind = some .time ↔ Getter.datetime.reads type = true := by
  cases type <;> simp [FieldType.kind, Getter.reads]

variable (time) in
/-- What a function returns for a value that has been fetched into a buffer: the value, unless it
is a date that a `Datetime` cannot have.

**Proof sketch.** Only the function for dates converts, and it succeeds exactly for the dates of a
`Datetime`; for the others, the type of the field is not that of a date. -/
lemma Getter.cast_eq_iff {g : Getter} {type : FieldType} {slot : Slot V} {v : V}
    (hg : g.reads type = true) (hkind : type.kind = some slot.kind) (hvalue : slot.value = some v) :
    g.cast time type slot = .ok (some (g.item time v)) ↔
      (type.kind = some .time → (time v).Fits) := by
  by_cases hdate : g = .datetime
  · subst hdate
    have htime := (FieldType.kind_eq_time_iff type).mpr hg
    have hslot : slot.kind = .time := Option.some.inj (hkind.symm.trans htime)
    rw [← MysqlTime.toDatetime_eq_point_iff, forall_prop_of_true htime]
    simp only [Getter.cast, Getter.item, if_pos, hslot, hvalue]
    cases (time v).toDatetime with
    | ok d => simp
    | error what => exact iff_of_false nofun nofun
  · have hno : type.kind ≠ some .time := by
      intro htime
      have hreads := (FieldType.kind_eq_time_iff type).mp htime
      cases g <;> cases type <;> simp_all [Getter.reads, FieldType.kind]
    refine iff_of_true ?_ fun htime => absurd htime hno
    cases g <;> cases htype : type <;>
      simp_all [Getter.cast, Getter.item, Getter.reads, FieldType.kind]

/-- **A column of a row that is ready**: the function for its type returns the value of the row,
unless this is a date that a `Datetime` cannot have.

**Proof sketch.** The buffer of the column is of its type and holds the value, so that the checks of
the function pass and the cast finds the value; only the conversion of a date is left. -/
theorem getColumn_ready_iff (h : Ready q s cells) {i : ℕ} {f : Field} {g : Getter}
    (hf : q.fields[i]? = some f) (hg : g.reads f.type = true) :
    getColumn time g s i = .ok ((cells i).map (g.item time)) ↔
      ∀ v, f.type.kind = some .time → cells i = some v → (time v).Fits := by
  obtain ⟨hi, -⟩ := List.getElem?_eq_some_iff.mp hf
  have hlt : i < s.resultBuffer.length := by rwa [h.length]
  have hslot : s.resultBuffer[i]? = some s.resultBuffer[i] := List.getElem?_eq_getElem hlt
  obtain ⟨hkind, htype⟩ := h.type i f _ hf hslot
  obtain ⟨herror, hnull, hvalue⟩ := h.value i _ hslot
  simp only [getColumn, hslot, herror, hnull, htype]
  cases hcell : cells i with
  | none => exact iff_of_true rfl fun _ _ hv => by cases hv
  | some v =>
    have hcast := Getter.cast_eq_iff time hg hkind (hvalue v hcell)
    refine hcast.trans ⟨fun hfits w htime hw => ?_, fun hfits htime => hfits v htime rfl⟩
    obtain rfl := Option.some.inj hw
    exact hfits htime

/-- The functions return the values of a row that is ready exactly if its dates are dates that a
`Datetime` can have. -/
lemma columns_ready_iff (h : Ready q s cells) :
    (∀ (i : ℕ) (f : Field) (g : Getter), q.fields[i]? = some f → g.reads f.type = true →
      getColumn time g s i = .ok ((cells i).map (g.item time))) ↔ DatesFit time q cells := by
  constructor
  · intro hall i f v hf htime hv
    have hreads := (FieldType.kind_eq_time_iff f.type).mp htime
    exact (getColumn_ready_iff h hf hreads).mp (hall i f .datetime hf hreads) v htime hv
  · intro hdates i f g hf hg
    exact (getColumn_ready_iff h hf hg).mpr fun v htime hv => hdates i f v hf htime hv

end Columns

/-! ## The loop over the fields -/

/-- The state that the loop changes: the buffers, their bindings, and the two counters. -/
structure SameBut (s t : Statement V) : Prop where
  hasBindResult : t.hasBindResult = s.hasBindResult
  bound : t.bound = s.bound
  row : t.row = s.row
  fromStart : t.fromStart = s.fromStart

/-- **How many buffers the loop makes**: one for each field that it takes, but none for the field
that it throws at.

**Proof sketch.** By induction on the fields. A field of a known type moves the cursor and gets a
buffer; one of another type moves the cursor and throws. -/
theorem bindFields_length (fs : List Field) (idx : ℕ) (s : Statement V) :
    SameBut s (bindFields fs idx s).2 ∧
      (((∀ f ∈ fs, f.type.kind ≠ none) ∧ (bindFields fs idx s).1 = .ok () ∧
          (bindFields fs idx s).2.cursor = s.cursor + fs.length ∧
          (bindFields fs idx s).2.resultBuffer.length = s.resultBuffer.length + fs.length) ∨
        ((¬ ∀ f ∈ fs, f.type.kind ≠ none) ∧ (∃ e, (bindFields fs idx s).1 = .error e) ∧
          s.cursor < (bindFields fs idx s).2.cursor ∧
          (bindFields fs idx s).2.cursor ≤ s.cursor + fs.length ∧
          (bindFields fs idx s).2.resultBuffer.length + s.cursor <
            s.resultBuffer.length + (bindFields fs idx s).2.cursor)) := by
  induction fs generalizing idx s with
  | nil => exact ⟨⟨rfl, rfl, rfl, rfl⟩, .inl ⟨by simp, rfl, rfl, rfl⟩⟩
  | cons f fs ih =>
    rw [bindFields]
    cases hkind : f.type.kind with
    | none =>
      simp only
      rw [bind_ok (modify_apply _ _)]
      refine ⟨⟨rfl, rfl, rfl, rfl⟩, .inr ⟨fun h => h f (by simp) hkind, ⟨_, rfl⟩, ?_, ?_, ?_⟩⟩
      · exact Nat.lt_succ_self _
      · show s.cursor + 1 ≤ _
        rw [List.length_cons]
        omega
      · show s.resultBuffer.length + s.cursor < s.resultBuffer.length + (s.cursor + 1)
        omega
    | some k =>
      simp only
      rw [bind_ok (modify_apply _ _)]
      obtain ⟨hsame, hrest⟩ := ih (idx + 1) (s.push f idx k)
      have hcursor : (s.push f idx k).cursor = s.cursor + 1 := rfl
      have hlength : (s.push f idx k).resultBuffer.length = s.resultBuffer.length + 1 := by
        simp [Statement.push]
      refine ⟨⟨hsame.1, hsame.2, hsame.3, hsame.4⟩, ?_⟩
      rw [hcursor, hlength] at hrest
      rw [List.length_cons]
      rcases hrest with ⟨hall, hok, hc, hl⟩ | ⟨hnot, herr, hlt, hle, hl⟩
      · refine .inl ⟨fun g hg => ?_, hok, by omega, by omega⟩
        rcases List.mem_cons.mp hg with rfl | hg
        · simp [hkind]
        · exact hall g hg
      · exact .inr ⟨fun h => hnot fun g hg => h g (List.mem_cons_of_mem f hg), herr, by omega,
          by omega, by omega⟩

/-- The first `n` fields have their buffers, at the addresses from `base` on. -/
structure Filled (q : Query) (s : Statement V) (base n : ℕ) : Prop where
  length : s.resultBuffer.length = n
  nextAddr : s.nextAddr = base + n
  slot : ∀ (i : ℕ) (f : Field) (slot : Slot V), q.fields[i]? = some f →
    s.resultBuffer[i]? = some slot → slot.addr = base + i ∧ f.type.kind = some slot.kind
  bind : ∀ (i : ℕ) (f : Field), i < n → q.fields[i]? = some f →
    (s.resultBind i).type = f.type ∧ (s.resultBind i).buffer = some (base + i) ∧
      (s.resultBind i).attached = true

/-- One more field gets its buffer.

**Proof sketch.** The buffers and binds before the new one are untouched, and the new one is for
the field that comes next. -/
lemma Filled.push {q : Query} {s : Statement V} {base n : ℕ} (h : Filled q s base n) {f : Field}
    (hf : q.fields[n]? = some f) {k : Kind} (hk : f.type.kind = some k) :
    Filled q (s.push f n k) base (n + 1) := by
  refine ⟨by simp [Statement.push, h.length], ?_, fun i g slot hg hslot => ?_, fun i g hi hg => ?_⟩
  · show s.nextAddr + 1 = _
    rw [h.nextAddr, Nat.add_assoc]
  · change (s.resultBuffer ++ [⟨s.nextAddr, k, none⟩])[i]? = some slot at hslot
    rcases Nat.lt_trichotomy i n with hlt | rfl | hgt
    · rw [List.getElem?_append_left (by rw [h.length]; exact hlt)] at hslot
      exact h.slot i g slot hg hslot
    · rw [← h.length, List.getElem?_concat_length] at hslot
      obtain rfl := Option.some.inj hslot
      obtain rfl := Option.some.inj (hf.symm.trans hg)
      exact ⟨h.nextAddr, hk⟩
    · rw [List.getElem?_eq_none (by simp [h.length]; omega)] at hslot
      cases hslot
  · show (Function.update s.resultBind n _ i).type = _ ∧ (Function.update s.resultBind n _ i).buffer
      = _ ∧ (Function.update s.resultBind n _ i).attached = _
    by_cases hin : i = n
    · subst hin
      obtain rfl := Option.some.inj (hf.symm.trans hg)
      rw [Function.update_self, h.nextAddr]
      exact ⟨rfl, rfl, rfl⟩
    · rw [Function.update_of_ne hin]
      exact h.bind i g (by omega) hg

/-- **The loop from the first field on** makes the buffers of all fields.

**Proof sketch.** By induction on the number of fields that are left. Each iteration appends the
buffer of its field and a bind that points to it. -/
theorem bindFields_filled {q : Query} {base : ℕ} (n : ℕ) {s : Statement V} (h : Filled q s base n)
    (hkind : ∀ f ∈ q.fields.drop n, f.type.kind ≠ none) (hn : n ≤ q.fields.length) :
    Filled q (bindFields (q.fields.drop n) n s).2 base q.fields.length := by
  induction hm : q.fields.length - n generalizing n s with
  | zero =>
    obtain rfl : n = q.fields.length := by omega
    rw [List.drop_length]
    exact h
  | succ m ih =>
    have hlt : n < q.fields.length := by omega
    rw [List.drop_eq_getElem_cons hlt] at hkind ⊢
    obtain ⟨k, hk⟩ := Option.ne_none_iff_exists'.mp (hkind q.fields[n] List.mem_cons_self)
    rw [bindFields, hk]
    simp only
    rw [bind_ok (modify_apply _ _)]
    exact ih (n + 1) (h.push (List.getElem?_eq_getElem hlt) hk)
      (fun f hf => hkind f (List.mem_cons_of_mem _ hf)) (by omega) (by omega)

/-! ## A row is fetched -/

section Write

variable {q : Query} {s : Statement V} {n : ℕ} {cells : ℕ → Option V} {errors : ℕ → Bool}

/-- A row is written into as many buffers. -/
lemma length_write : (s.write n cells errors).resultBuffer.length = s.resultBuffer.length := by
  unfold Statement.write
  split
  · rfl
  · exact List.length_map _

/-- What a row does not change. -/
lemma write_eq (s : Statement V) (n : ℕ) (cells : ℕ → Option V) (errors : ℕ → Bool) :
    ∃ buffer isNull error, s.write n cells errors =
      { s with resultBuffer := buffer, isNull := isNull, error := error } := by
  unfold Statement.write
  split
  · exact ⟨_, _, _, rfl⟩
  · exact ⟨_, _, _, rfl⟩

/-- The column that is written to the address of a buffer. -/
lemma find_addr {base : ℕ} (h : Filled q s base q.fields.length) {i : ℕ}
    (hi : i < q.fields.length) :
    (List.range q.fields.length).find? (fun j => (s.resultBind j).buffer = some (base + i)) =
      some i := by
  have hbuffer : ∀ j < q.fields.length, (s.resultBind j).buffer = some (base + j) := fun j hj =>
    (h.bind j _ hj (List.getElem?_eq_getElem hj)).2.1
  refine List.find?_range_eq_some.mpr ⟨by simpa using hbuffer i hi, List.mem_range.mpr hi,
    fun j hj => ?_⟩
  rw [hbuffer j (Nat.lt_trans hj hi)]
  simp [Nat.ne_of_lt hj]

/-- A buffer after a row has been written to all of them. -/
lemma getElem?_write {base : ℕ} (h : Filled q s base q.fields.length)
    (hbound : s.bound = some s.resultBind) {i : ℕ} {slot : Slot V}
    (hslot : (s.write q.fields.length cells errors).resultBuffer[i]? = some slot) :
    ∃ old, s.resultBuffer[i]? = some old ∧ slot = { old with value := (cells i).or old.value } := by
  have hi : i < q.fields.length := by
    rw [← h.length, ← length_write (s := s)]
    exact (List.getElem?_eq_some_iff.mp hslot).1
  simp only [Statement.write, hbound, List.getElem?_map] at hslot
  obtain ⟨old, hold, rfl⟩ := Option.map_eq_some_iff.mp hslot
  refine ⟨old, hold, ?_⟩
  rw [(h.slot i _ old (List.getElem?_eq_getElem hi) hold).1, find_addr h hi]

/-- The buffers stay filled when a row is written. -/
lemma Filled.write {base : ℕ} (h : Filled q s base q.fields.length)
    (hbound : s.bound = some s.resultBind) :
    Filled q (s.write q.fields.length cells errors) base q.fields.length := by
  obtain ⟨buffer, isNull, error, heq⟩ := write_eq s q.fields.length cells errors
  refine ⟨length_write.trans h.length, by rw [heq]; exact h.nextAddr, fun i f slot hf hslot => ?_,
    by rw [heq]; exact h.bind⟩
  obtain ⟨old, hold, rfl⟩ := getElem?_write h hbound hslot
  exact h.slot i f old hf hold

/-- **A row is ready** if all fields have their buffers and these are bound.

**Proof sketch.** Every buffer belongs to a field, and its bind points to it and has the type of
the field; the row is written into the buffers through the binds. -/
lemma Filled.ready {base : ℕ} (h : Filled q s base q.fields.length)
    (hbound : s.bound = some s.resultBind) :
    Ready q (s.write q.fields.length cells fun _ => false) cells := by
  have hlt : ∀ (i : ℕ) (slot : Slot V),
      (s.write q.fields.length cells fun _ => false).resultBuffer[i]? = some slot →
        i < q.fields.length := by
    intro i slot hslot
    rw [← h.length, ← length_write (s := s)]
    exact (List.getElem?_eq_some_iff.mp hslot).1
  refine ⟨length_write.trans h.length, ⟨s.resultBind, ?_, fun i slot hslot => ?_⟩,
    fun i f slot hf hslot => ⟨((h.write hbound).slot i f slot hf hslot).2, ?_⟩,
    fun i slot hslot => ?_⟩
  · obtain ⟨_, _, _, heq⟩ := write_eq s q.fields.length cells fun _ => false
    rw [heq]
    exact hbound
  · have hi := hlt i slot hslot
    rw [(h.bind i _ hi (List.getElem?_eq_getElem hi)).2.1,
      ((h.write hbound).slot i _ slot (List.getElem?_eq_getElem hi) hslot).1]
  · exact ((h.write hbound).bind i f (hlt i slot hslot) hf).1
  · have hi := hlt i slot hslot
    have hattached := (h.bind i _ hi (List.getElem?_eq_getElem hi)).2.2
    obtain ⟨old, -, rfl⟩ := getElem?_write h hbound hslot
    refine ⟨?_, ?_, fun v hv => by simp [hv]⟩
    · simp [Statement.write, hbound, hattached]
    · simp [Statement.write, hbound, hattached]

end Write

/-! ## The calls -/

/-- The state after `_reset` has been called, if it clears the buffers. -/
def Statement.cleared (s : Statement V) : Statement V :=
  { s with resultBuffer := [], needsReset := true, hasBindResult := false, row := none }

/-- A check does not change anything. -/
lemma sqlCheck_snd (function : String) (ret : ℤ) (s : Statement V) :
    (sqlCheck function ret s).2 = s := by
  unfold sqlCheck
  split <;> rfl

/-- What `_reset` does. -/
lemma reset_apply (ret : ℤ) (s : Statement V) :
    reset ret s =
      if s.needsReset then
        if ret = 0 then
          (.ok (), { s with resultBuffer := [], needsReset := false, hasBindResult := false })
        else (.error (.sql "mysql_stmt_reset" ret), s)
      else (.ok (), s) := by
  rw [reset, bind_ok (get_apply s)]
  cases s.needsReset with
  | false => rfl
  | true =>
    rw [when_true, sqlCheck]
    by_cases hret : ret = 0
    · rw [if_pos hret, if_pos rfl, if_pos hret]
      rfl
    · rw [if_neg hret, if_pos rfl, if_neg hret]
      rfl

/-- The end of `exec` does not change the members. -/
lemma execute_snd (q : Query) (paramRet executeRet : ℤ) (s : Statement V) :
    ((do
      when q.hasParams (sqlCheck "mysql_stmt_bind_param" paramRet)
      sqlCheck "mysql_stmt_execute" executeRet : Fallible (Statement V) Exception Unit) s).2 =
      s := by
  have hparam : (when q.hasParams (sqlCheck "mysql_stmt_bind_param" paramRet) s).2 = s := by
    cases q.hasParams with
    | true => exact sqlCheck_snd _ _ s
    | false => rfl
  rcases h : when q.hasParams (sqlCheck "mysql_stmt_bind_param" paramRet) s with ⟨r, t⟩
  rw [h] at hparam
  subst hparam
  cases r with
  | ok u => rw [bind_ok h, sqlCheck_snd]
  | error e => rw [bind_error h]

/-- What `exec` does to the members: it clears the buffers, or leaves them. In both cases there is
no current row, and a later call has to reset. -/
lemma exec_cases (q : Query) (resetRet paramRet executeRet : ℤ) (s : Statement V) :
    (subExec q resetRet paramRet executeRet s).2 = { s with needsReset := true, row := none } ∨
      (subExec q resetRet paramRet executeRet s).2 = s.cleared := by
  rw [subExec, bind_ok (modify_apply _ _)]
  have hreset := reset_apply resetRet ({ s with row := none } : Statement V)
  by_cases hneeds : s.needsReset = true
  · rw [if_pos hneeds] at hreset
    by_cases hret : resetRet = 0
    · rw [if_pos hret] at hreset
      rw [bind_ok hreset, bind_ok (modify_apply _ _), execute_snd]
      exact .inr rfl
    · rw [if_neg hret] at hreset
      rw [bind_error hreset]
      exact .inl (by rw [hneeds])
  · rw [if_neg hneeds] at hreset
    rw [bind_ok hreset, bind_ok (modify_apply _ _), execute_snd]
    exact .inl rfl

/-- The end of `moveNext`. -/
lemma fetch_snd (q : Query) (fetch : Fetch V) (s : Statement V) :
    ((do
      modify fun s => s.fetched q.fields.length fetch
      if fetch.ret = 0 then return true
      else if fetch.ret = 1 then throw (.sql "mysql_stmt_fetch" fetch.ret)
      else return false : Fallible (Statement V) Exception Bool) s).2 =
      s.fetched q.fields.length fetch := by
  rw [bind_ok (modify_apply _ _)]
  split
  · rfl
  · split <;> rfl

/-- `moveNext` with buffers. -/
lemma moveNext_of_hasBindResult (q : Query) (bindRet storeRet : ℤ) (fetch : Fetch V)
    {s : Statement V} (h : s.hasBindResult = true) :
    (subMoveNext q bindRet storeRet fetch s).2 =
      ({ s with row := none } : Statement V).fetched q.fields.length fetch := by
  have hnone : when (!s.hasBindResult) (bindOnce q bindRet storeRet) { s with row := none } =
      (.ok (), { s with row := none }) := by
    rw [h]
    rfl
  rw [subMoveNext, bind_ok (modify_apply _ _), bind_ok (get_apply _), bind_ok hnone, fetch_snd]

/-- The state in which `_bindResult` begins. -/
def Statement.opening (s : Statement V) : Statement V :=
  { s with row := none, fromStart := false }

/-- The state after the buffers have been bound. -/
def Statement.opened (s t : Statement V) : Statement V :=
  { t with hasBindResult := true, bound := some t.resultBind, fromStart := s.cursor == 0 }

/-- **`moveNext` without buffers**: a field may throw, or one of the native functions may, or the
buffers are bound and a row is fetched.

**Proof sketch.** The function is unfolded once, up to the loop over the fields, and then once more
behind each of the two native calls. -/
lemma moveNext_of_not_hasBindResult (q : Query) (bindRet storeRet : ℤ) (fetch : Fetch V)
    {s : Statement V} (h : s.hasBindResult = false) :
    let r := bindFields (q.fields.drop s.cursor) 0 s.opening
    (subMoveNext q bindRet storeRet fetch s).2 =
      if r.1 = .ok () then
        if bindRet = 0 then
          if storeRet = 0 then (s.opened r.2).fetched q.fields.length fetch else s.opened r.2
        else { r.2 with hasBindResult := true }
      else r.2 := by
  intro r
  rw [subMoveNext, bind_ok (modify_apply _ _), bind_ok (get_apply _)]
  have hopening : bindOnce q bindRet storeRet { s with row := none } = (do
      bindResult q
      modify fun s => { s with hasBindResult := true }
      sqlCheck "mysql_stmt_bind_result" bindRet
      modify fun t => { t with bound := some t.resultBind, fromStart := s.cursor == 0 }
      sqlCheck "mysql_stmt_store_result" storeRet : Fallible (Statement V) Exception Unit)
        s.opening := by
    rw [bindOnce, bind_ok (get_apply _), bind_ok (modify_apply _ _)]
    rfl
  have hresult : bindResult q s.opening = r := by
    rw [bindResult, bind_ok (get_apply _)]
    rfl
  have hwhen : when (!({ s with row := none } : Statement V).hasBindResult)
      (bindOnce q bindRet storeRet) =
        (bindOnce q bindRet storeRet : Fallible (Statement V) _ _) := by
    rw [show ({ s with row := none } : Statement V).hasBindResult = false from h]
    rfl
  rw [hwhen]
  rcases hr : r with ⟨_ | u, t⟩
  · rw [bind_error (by rw [hopening, bind_error (hresult.trans hr)]), if_neg (by simp)]
  · rw [if_pos rfl]
    have hbind : bindOnce q bindRet storeRet { s with row := none } =
        (sqlCheck "mysql_stmt_bind_result" bindRet >>= fun _ => do
          modify fun t => { t with bound := some t.resultBind, fromStart := s.cursor == 0 }
          sqlCheck "mysql_stmt_store_result" storeRet) { t with hasBindResult := true } := by
      rw [hopening, bind_ok (hresult.trans hr), bind_ok (modify_apply _ _)]
    by_cases hb : bindRet = 0
    · rw [if_pos hb]
      rw [sqlCheck, if_pos hb, bind_ok (pure_apply _ _), bind_ok (modify_apply _ _)] at hbind
      by_cases hs : storeRet = 0
      · rw [if_pos hs]
        rw [sqlCheck, if_pos hs] at hbind
        rw [bind_ok (hbind.trans (pure_apply _ _)), fetch_snd]
        rfl
      · rw [if_neg hs]
        rw [sqlCheck, if_neg hs] at hbind
        rw [bind_error (hbind.trans (throw_apply _ _))]
        rfl
    · rw [if_neg hb]
      rw [sqlCheck, if_neg hb, bind_error (throw_apply _ _)] at hbind
      rw [bind_error hbind]

/-! ## Every row -/

/-- What every state of a run satisfies: how far the fields have been fetched, and which buffers
there are. -/
structure Regular (q : Query) (s : Statement V) : Prop where
  cursor_le : s.cursor ≤ q.fields.length
  fresh : s.hasBindResult = false → s.cursor = 0 → s.resultBuffer = [] ∧ s.bound = none
  behind : s.hasBindResult = false → 0 < s.cursor → s.resultBuffer.length < s.cursor
  whole : s.hasBindResult = true → s.cursor = q.fields.length
  good : s.hasBindResult = true → s.fromStart = true →
    s.bound = some s.resultBind ∧ ∃ base, Filled q s base q.fields.length
  bad : s.hasBindResult = true → s.fromStart = false →
    s.resultBuffer.length < q.fields.length ∨ s.bound = none

section Every

variable {time : V → MysqlTime} {q : Query} {s t : Statement V}

/-- A new statement. -/
lemma regular_init (q : Query) : Regular q (.init V) :=
  ⟨Nat.zero_le _, fun _ _ => ⟨rfl, rfl⟩, fun _ h => absurd h (Nat.lt_irrefl 0), nofun, nofun, nofun⟩

/-- The last row does not matter. -/
lemma Regular.forget (h : Regular q s) : Regular q { s with row := none } :=
  ⟨h.cursor_le, h.fresh, h.behind, h.whole, fun hb hf => ⟨(h.good hb hf).1, by
    obtain ⟨base, hfilled⟩ := (h.good hb hf).2
    exact ⟨base, hfilled.length, hfilled.nextAddr, hfilled.slot, hfilled.bind⟩⟩, h.bad⟩

/-- Cleared buffers: the fields have been fetched if they ever were. -/
lemma Regular.cleared (hq : q.fields ≠ []) (h : Regular q s) : Regular q s.cleared := by
  refine ⟨h.cursor_le, fun _ hzero => ⟨rfl, ?_⟩, fun _ hpos => hpos, nofun, nofun, nofun⟩
  have hzero : s.cursor = 0 := hzero
  cases hb : s.hasBindResult with
  | false => exact (h.fresh hb hzero).2
  | true =>
    rw [h.whole hb, List.length_eq_zero_iff] at hzero
    exact absurd hzero hq

/-- A row that is fetched into the buffers.

**Proof sketch.** A fetch writes into the buffers and sets the state of the row; it makes no
buffer, and binds stay as they are. -/
lemma Regular.fetched (h : Regular q s) (hb : s.hasBindResult = true) (fetch : Fetch V) :
    Regular q (s.fetched q.fields.length fetch) := by
  have hwrite : ∀ (cells : ℕ → Option V) (errors : ℕ → Bool),
      Regular q (s.write q.fields.length cells errors) := by
    intro cells errors
    obtain ⟨buffer, isNull, error, heq⟩ := write_eq s q.fields.length cells errors
    have hlength : (s.write q.fields.length cells errors).resultBuffer.length =
        s.resultBuffer.length := length_write
    have hb' : (s.write q.fields.length cells errors).hasBindResult = true := by rw [heq]; exact hb
    refine ⟨by rw [heq]; exact h.cursor_le, fun hf => ?_, fun hf => ?_,
      fun _ => by rw [heq]; exact h.whole hb, fun _ hstart => ?_, fun _ hstart => ?_⟩
    · rw [hb'] at hf
      cases hf
    · rw [hb'] at hf
      cases hf
    · have hstart' : s.fromStart = true := by rw [heq] at hstart; exact hstart
      obtain ⟨hbound, base, hfilled⟩ := h.good hb hstart'
      exact ⟨by rw [heq]; exact hbound, base, hfilled.write hbound⟩
    · have hstart' : s.fromStart = false := by rw [heq] at hstart; exact hstart
      rw [hlength]
      exact (h.bad hb hstart').imp id fun hbound => by rw [heq]; exact hbound
  cases fetch with
  | row cells =>
    have hw := hwrite cells fun _ => false
    refine ⟨hw.cursor_le, hw.fresh, hw.behind, hw.whole, fun hb hf => ⟨(hw.good hb hf).1, ?_⟩,
      hw.bad⟩
    obtain ⟨base, hfilled⟩ := (hw.good hb hf).2
    exact ⟨base, hfilled.length, hfilled.nextAddr, hfilled.slot, hfilled.bind⟩
  | error => exact h
  | noData => exact h
  | truncated cells errors => exact hwrite cells errors

/-- **What the loop over the fields leaves.** If it ends, the buffers are those of all fields
exactly if it began at the first of them.

**Proof sketch.** The loop takes the fields from the cursor on, so it leaves a buffer for each of
these. They are all of them exactly if the cursor was at zero. -/
lemma Regular.afterLoop (h : Regular q s) (hb : s.hasBindResult = false)
    {r : Except Exception Unit × Statement V}
    (hr : bindFields (q.fields.drop s.cursor) 0 s.opening = r) :
    SameBut s.opening r.2 ∧ (r.1 = .ok () ↔ ∀ f ∈ q.fields.drop s.cursor, f.type.kind ≠ none) ∧
      (r.1 ≠ .ok () → Regular q r.2) ∧
      (r.1 = .ok () → r.2.cursor = q.fields.length ∧
        (s.cursor = 0 → ∃ base, Filled q r.2 base q.fields.length) ∧
        (s.cursor ≠ 0 → r.2.resultBuffer.length < q.fields.length)) := by
  obtain ⟨hsame, hrest⟩ := bindFields_length (q.fields.drop s.cursor) 0 s.opening
  rw [hr] at hsame hrest
  have hcursor : s.opening.cursor = s.cursor := rfl
  have hbuffer : s.opening.resultBuffer = s.resultBuffer := rfl
  have hle := h.cursor_le
  rw [hcursor, hbuffer, List.length_drop] at hrest
  have hrb : r.2.hasBindResult = false := hsame.hasBindResult.trans hb
  have hiff : r.1 = .ok () ↔ ∀ f ∈ q.fields.drop s.cursor, f.type.kind ≠ none := by
    rcases hrest with ⟨hkind, hok, -, -⟩ | ⟨hnot, ⟨e, he⟩, -⟩
    · exact iff_of_true hok hkind
    · exact iff_of_false (by rw [he]; exact nofun) hnot
  refine ⟨hsame, hiff, fun herr => ?_, fun hok => ?_⟩
  · rcases hrest with ⟨-, hok, -, -⟩ | ⟨-, -, hlt, hc, hl⟩
    · exact absurd hok herr
    · have hfresh : s.resultBuffer.length ≤ s.cursor := by
        rcases Nat.eq_zero_or_pos s.cursor with h0 | hpos
        · rw [(h.fresh hb h0).1]
          exact Nat.zero_le _
        · exact Nat.le_of_lt (h.behind hb hpos)
      refine ⟨by omega, fun _ h0 => ?_, fun _ _ => by omega, fun hf => ?_, fun hf => ?_,
        fun hf => ?_⟩
      · have h0 : r.2.cursor = 0 := h0
        omega
      all_goals
        rw [hrb] at hf
        cases hf
  · rcases hrest with ⟨hkind, -, hc, hl⟩ | ⟨-, ⟨e, he⟩, -⟩
    · refine ⟨by omega, fun h0 => ?_, fun hne => ?_⟩
      · rw [h0, List.drop_zero] at hkind
        have hstart : Filled q s.opening s.nextAddr 0 := by
          have hnil := (h.fresh hb h0).1
          refine ⟨by rw [hbuffer, hnil]; rfl, rfl, fun i f slot _ hslot => ?_, fun i f hi => ?_⟩
          · rw [hbuffer, hnil] at hslot
            cases hslot
          · exact absurd hi (Nat.not_lt_zero i)
        have hfilled := bindFields_filled 0 hstart (by rwa [List.drop_zero]) (Nat.zero_le _)
        refine ⟨s.nextAddr, ?_⟩
        rw [← hr, h0]
        exact hfilled
      · have := h.behind hb (Nat.pos_of_ne_zero hne)
        omega
    · rw [hok] at he
      cases he

/-- **A row is ready** exactly if its buffers were made from the first field on, and its dates are
dates that a `Datetime` can have.

**Proof sketch.** Buffers from the first field on are filled, and the row is written to all of them;
others are too few, or have not been bound. The functions return what has been written, up to the
dates. -/
lemma rowReady_fetched_iff (h : Regular q s) (hb : s.hasBindResult = true) (hrow : s.row = none)
    (fetch : Fetch V) :
    RowReady time q (s.fetched q.fields.length fetch) ↔
      ∀ cells, fetch = .row cells → s.fromStart = true ∧ DatesFit time q cells := by
  have hnone : ∀ t : Statement V, t.row = none → RowReady time q t := by
    intro t ht cells hcells
    rw [ht] at hcells
    cases hcells
  cases fetch with
  | row cells =>
    obtain ⟨buffer, isNull, error, heq⟩ := write_eq s q.fields.length cells fun _ => false
    constructor
    · rintro hready cells' ⟨⟩
      obtain ⟨hr, hcolumns⟩ := hready cells rfl
      refine ⟨?_, (columns_ready_iff hr).mp hcolumns⟩
      by_contra hstart
      rcases h.bad hb ((Bool.not_eq_true _).mp hstart) with hlt | hbound
      · have hlen : (s.write q.fields.length cells fun _ => false).resultBuffer.length =
            q.fields.length := hr.length
        rw [length_write] at hlen
        omega
      · obtain ⟨b, hb', -⟩ := hr.bound
        have hbound' : (s.write q.fields.length cells fun _ => false).bound = some b := hb'
        rw [heq] at hbound'
        rw [hbound] at hbound'
        cases hbound'
    · intro hstart cells' hcells
      obtain rfl := Option.some.inj hcells
      obtain ⟨hfirst, hdates⟩ := hstart cells rfl
      obtain ⟨hbound, base, hfilled⟩ := h.good hb hfirst
      have hr : Ready q (s.write q.fields.length cells fun _ => false) cells :=
        hfilled.ready hbound
      have hready : Ready q (s.fetched q.fields.length (.row cells)) cells :=
        ⟨hr.length, hr.bound, hr.type, hr.value⟩
      exact ⟨hready, (columns_ready_iff hready).mpr hdates⟩
  | error => exact iff_of_true (hnone _ hrow) fun _ he => by cases he
  | noData => exact iff_of_true (hnone _ hrow) fun _ he => by cases he
  | truncated cells errors =>
    refine iff_of_true (hnone _ ?_) fun _ he => by cases he
    obtain ⟨buffer, isNull, error, heq⟩ := write_eq s q.fields.length cells errors
    show (s.write q.fields.length cells errors).row = none
    rw [heq]
    exact hrow

/-- The buffers have been bound. -/
lemma Regular.opened (h : Regular q s) (hb : s.hasBindResult = false)
    {r : Except Exception Unit × Statement V}
    (hr : bindFields (q.fields.drop s.cursor) 0 s.opening = r) (hok : r.1 = .ok ()) :
    Regular q (s.opened r.2) := by
  obtain ⟨-, -, -, hloop⟩ := h.afterLoop hb hr
  obtain ⟨hcursor, hfilled, hshort⟩ := hloop hok
  refine ⟨Nat.le_of_eq hcursor, nofun, nofun, fun _ => hcursor, fun _ hstart => ⟨rfl, ?_⟩,
    fun _ hstart => ?_⟩
  · have hzero : s.cursor = 0 := by simpa [Statement.opened] using hstart
    obtain ⟨base, hf⟩ := hfilled hzero
    exact ⟨base, hf.length, hf.nextAddr, hf.slot, hf.bind⟩
  · have hzero : s.cursor ≠ 0 := by simpa [Statement.opened] using hstart
    exact .inl (hshort hzero)

/-- The buffers have been made but not bound. -/
lemma Regular.unbound (h : Regular q s) (hb : s.hasBindResult = false)
    {r : Except Exception Unit × Statement V}
    (hr : bindFields (q.fields.drop s.cursor) 0 s.opening = r) (hok : r.1 = .ok ()) :
    Regular q { r.2 with hasBindResult := true } := by
  obtain ⟨hsame, -, -, hloop⟩ := h.afterLoop hb hr
  obtain ⟨hcursor, -, hshort⟩ := hloop hok
  refine ⟨Nat.le_of_eq hcursor, nofun, nofun, fun _ => hcursor, fun _ hstart => ?_, fun _ _ => ?_⟩
  · have hfalse : r.2.fromStart = false := hsame.fromStart
    rw [show r.2.fromStart = true from hstart] at hfalse
    cases hfalse
  · by_cases hzero : s.cursor = 0
    · exact .inr (hsame.bound.trans (h.fresh hb hzero).2)
    · exact .inl (hshort hzero)

/-- Every call keeps this.

**Proof sketch.** One case for each call. `exec` keeps the buffers or clears them together with the
cursor; `moveNext` makes them by the loop above, or fetches only. -/
lemma Regular.call (hq : q.fields ≠ []) (h : Regular q s) (c : Call V) :
    Regular q (MySQLStatement.call q s c) := by
  cases c with
  | exec resetRet paramRet executeRet =>
    rcases exec_cases q resetRet paramRet executeRet s with heq | heq
    · rw [MySQLStatement.call, heq]
      have hf := h.forget
      refine ⟨hf.cursor_le, hf.fresh, hf.behind, hf.whole, fun hb hs => ⟨(hf.good hb hs).1, ?_⟩,
        hf.bad⟩
      obtain ⟨base, hfilled⟩ := (hf.good hb hs).2
      exact ⟨base, hfilled.length, hfilled.nextAddr, hfilled.slot, hfilled.bind⟩
    · rw [MySQLStatement.call, heq]
      exact h.cleared hq
  | moveNext bindRet storeRet fetch =>
    rw [MySQLStatement.call]
    cases hb : s.hasBindResult with
    | true =>
      rw [moveNext_of_hasBindResult q bindRet storeRet fetch hb]
      exact h.forget.fetched hb fetch
    | false =>
      have hmove := moveNext_of_not_hasBindResult q bindRet storeRet fetch hb
      rw [hmove]
      split
      next hok =>
        split
        · split
          · exact (h.opened hb rfl hok).fetched rfl fetch
          · exact h.opened hb rfl hok
        · exact h.unbound hb rfl hok
      next herr => exact (h.afterLoop hb rfl).2.2.1 herr
  | getColumn g idx => exact h

/-- A state without a row. -/
lemma rowReady_of_none (h : s.row = none) : RowReady time q s := by
  intro cells hcells
  rw [h] at hcells
  cases hcells

/-- The condition on a call that returns a row. -/
lemma boundFromStart_iff {bindRet storeRet : ℤ} {fetch : Fetch V} :
    BoundFromStart time q s (.moveNext bindRet storeRet fetch) ↔
      ∀ cells, fetch = .row cells →
        if s.hasBindResult then s.fromStart = true ∧ DatesFit time q cells
        else (∀ f ∈ q.fields.drop s.cursor, f.type.kind ≠ none) → bindRet = 0 → storeRet = 0 →
          s.cursor = 0 ∧ DatesFit time q cells := by
  cases fetch with
  | row cells => exact ⟨fun h cells' hcells => by cases hcells; exact h, fun h => h cells rfl⟩
  | error => exact iff_of_true trivial fun _ he => by cases he
  | noData => exact iff_of_true trivial fun _ he => by cases he
  | truncated cells errors => exact iff_of_true trivial fun _ he => by cases he

/-- **One call.** If it returns a row, this is ready exactly if its buffers were made from the
first field on and its dates are dates that a `Datetime` can have.

**Proof sketch.** Only `moveNext` can leave a row. If the buffers were bound before, it is ready if
they were made from the first field on; if they are made now, this asks that the cursor is at
zero. -/
theorem rowReady_call_iff (h : Regular q s) (hready : RowReady time q s) (c : Call V) :
    RowReady time q (call q s c) ↔ BoundFromStart time q s c := by
  cases c with
  | exec resetRet paramRet executeRet =>
    refine iff_of_true (rowReady_of_none ?_) trivial
    rcases exec_cases q resetRet paramRet executeRet s with heq | heq
    · rw [call, heq]
    · rw [call, heq]
      rfl
  | getColumn g idx => exact iff_of_true hready trivial
  | moveNext bindRet storeRet fetch =>
    rw [call, boundFromStart_iff]
    cases hb : s.hasBindResult with
    | true =>
      rw [moveNext_of_hasBindResult q bindRet storeRet fetch hb,
        rowReady_fetched_iff h.forget hb rfl]
      simp
    | false =>
      rw [moveNext_of_not_hasBindResult q bindRet storeRet fetch hb]
      obtain ⟨hsame, hkinds, -, -⟩ := h.afterLoop hb rfl
      simp only [Bool.false_eq_true, if_false]
      rw [← hkinds]
      by_cases hok : (bindFields (q.fields.drop s.cursor) 0 s.opening).1 = .ok ()
      · rw [if_pos hok]
        by_cases hbind : bindRet = 0
        · rw [if_pos hbind]
          by_cases hstore : storeRet = 0
          · rw [if_pos hstore, rowReady_fetched_iff (h.opened hb rfl hok) rfl hsame.row]
            have hstart : (s.opened (bindFields (q.fields.drop s.cursor) 0 s.opening).2).fromStart =
                true ↔ s.cursor = 0 := beq_iff_eq
            simp only [hstart, hok, hbind, hstore, forall_const]
          · rw [if_neg hstore]
            exact iff_of_true (rowReady_of_none hsame.row) fun _ _ _ _ hs => absurd hs hstore
        · rw [if_neg hbind]
          exact iff_of_true (rowReady_of_none hsame.row) fun _ _ _ hb => absurd hb hbind
      · rw [if_neg hok]
        exact iff_of_true (rowReady_of_none hsame.row) fun _ _ hk => absurd hk hok

/-- **Rows of every execution.** In a sequence of calls every row that is fetched is ready, and its
columns can be read, exactly if the buffers of each of them have been made from the first field on
and have been bound, and its dates are dates that a `Datetime` can have.

**Proof sketch.** Every state of a run is regular: its buffers are those of the fields that the loop
has gone through since the last reset, and the cursor of the fields never moves back. By
`rowReady_call_iff` one call keeps the property exactly if the condition holds for it, and the runs
follow by induction. -/
theorem always_ready_iff (time : V → MysqlTime) (q : Query) (hq : q.fields ≠ [])
    {cs : List (Call V)} {s : Statement V} (hrun : (statements V q).run cs = some s) :
    (statements V q).Always (RowReady time q) cs ↔
      (statements V q).Along (BoundFromStart time q) cs := by
  refine System.always_iff_along (J := Regular q) (regular_init q) (rowReady_of_none rfl)
    (fun s c t hs hst => ?_) (fun s c t hs hready hst => ?_) hrun
  · obtain rfl := Option.some.inj hst
    exact hs.call hq c
  · obtain rfl := Option.some.inj hst
    exact rowReady_call_iff hs hready c

end Every

/-- `SELECT id, day FROM …`: a column of integers and one of dates. -/
def selectDay : Query := ⟨false, [⟨"id", .longlong, 20⟩, ⟨"day", .date, 10⟩]⟩

/-- A date for a number `yyyymmdd`. -/
def dayOf (n : ℕ) : MysqlTime := ⟨n / 10000, n / 100 % 100, n % 100, 0, 0, 0, 0, .date⟩

/-- `moveNext` returns a row with a number and a date. -/
def fetchDay (n day : ℕ) : Call ℕ := .moveNext 0 0 (.row fun i => some (if i = 0 then n else day))

/-- A statement is executed twice before its first row is fetched. -/
theorem always_ready_twice :
    (statements ℕ selectDay).Always (RowReady dayOf selectDay)
      [.exec 0 0 0, .exec 0 0 0, fetchDay 7 20240229] := by
  refine (always_ready_iff dayOf selectDay (by decide) rfl).mpr ⟨trivial, fun t ht => ?_⟩
  obtain rfl := Option.some.inj ht
  refine ⟨trivial, fun t ht => ?_⟩
  obtain rfl := Option.some.inj ht
  refine ⟨fun _ _ _ => ⟨rfl, fun i f v hf htime hv => ?_⟩, fun _ _ => trivial⟩
  match i, hf with
  | 0, hf =>
    obtain rfl := Option.some.inj hf
    cases htime
  | 1, hf =>
    obtain rfl := Option.some.inj hv
    decide
  | _ + 2, hf => cases hf

/-- A statement is executed again after a row has been fetched: the next row has no buffers. -/
theorem not_ready_again : ∃ s, (statements ℕ selectDay).run
      [.exec 0 0 0, fetchDay 7 20240229, .exec 0 0 0, fetchDay 8 20240301] = some s ∧
    s.row.isSome = true ∧ s.resultBuffer.length = 0 ∧
    getColumn dayOf .int64 s 0 = .error (.hku "idx out of range!") ∧
    ¬ RowReady dayOf selectDay s := by
  refine ⟨_, rfl, rfl, rfl, rfl, fun h => ?_⟩
  exact absurd (h _ rfl).1.length (by decide)

end HkuUtils.MySQLStatement
