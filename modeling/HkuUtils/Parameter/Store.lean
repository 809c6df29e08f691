import Mathlib.Data.Finmap
import HkuUtils.Binary
import HkuUtils.Fallible

set_option relaxedAutoImplicit false
set_option autoImplicit false

/-!
# Named parameters

The class `Parameter`: a map from names to values of several types, with the templates `set` and
`get` and their specialisations for `int`, `float` and `boost::any`.

## Main definitions

* `HkuUtils.Parameter.Any`, `TypeId` — the content of a `boost::any`, and its type.
* `HkuUtils.Parameter.set`, `setAny` — `set<T>` and `set<boost::any>`.
* `HkuUtils.Parameter.get`, `getAny` — `get<T>` and `get<boost::any>`.
* `HkuUtils.Parameter.Call`, `call`, `calls` — setting parameters, one after the other.
* `HkuUtils.Parameter.Laws` — what a caller expects of the map.

## Main results

* `HkuUtils.Parameter.call_cases` — what a call of `set` can do.
* `HkuUtils.Parameter.get_stored_iff` — which values come back.
* `HkuUtils.Parameter.store_laws` — when the laws hold of a sequence of calls.

## Design

A value has its type with it, so that `set<T>(name, value)` has no separate argument for `T`. The
types that the class does not know are given by their name, and their values by their bytes. The
names of types depend on the compiler and are part of a build. The numbers of a floating-point type
are rationals; there is only one NaN.
-/

namespace HkuUtils.Parameter

open Binary Fallible

/-- The format of `float`. -/
def binary32 : Format := ⟨24, -149, 104, by decide, by decide⟩

/-- The format of `double`. -/
def binary64 : Format := ⟨53, -1074, 971, by decide, by decide⟩

/-- Every `float` is a `double`. -/
lemma binary32_le_binary64 : binary32.LE binary64 := ⟨by decide, by decide, by decide⟩

/-- The types that the class tells apart, and any other one by its name. -/
inductive TypeId where
  /-- The type of an empty `boost::any`. -/
  | void
  | int
  | int64
  | bool
  | float
  | double
  | string
  | datetime
  | timeDelta
  | other (name : String)
  deriving DecidableEq, Repr

/-- A `boost::any`: a value with its type. -/
inductive Any where
  | empty
  | int (x : Int32)
  | int64 (x : Int64)
  | bool (x : Bool)
  | float (x : Floating binary32)
  | double (x : Floating binary64)
  | string (x : String)
  | datetime (ticks : ℤ)
  | timeDelta (ticks : ℤ)
  | other (name : String) (bytes : List UInt8)

/-- `type()`. -/
def Any.type : Any → TypeId
  | empty => .void
  | int _ => .int
  | int64 _ => .int64
  | bool _ => .bool
  | float _ => .float
  | double _ => .double
  | string _ => .string
  | datetime _ => .datetime
  | timeDelta _ => .timeDelta
  | other name _ => .other name

/-- What the compiler and the configuration decide. -/
structure Build where
  /-- `HKU_SUPPORT_DATETIME`. -/
  datetime : Bool
  /-- `name()` of a type. -/
  typeName : TypeId → String

/-- The exceptions. -/
inductive Error where
  | outOfRange (what : String)
  | logic (what : String)
  deriving DecidableEq, Repr

/-- The parameters of an object, `m_params`. -/
abbrev Params := Finmap fun _ : String => Any

/-- Programs on the parameters. -/
abbrev OnParams (α : Type) := Fallible Params Error α

variable (B : Build)

/-! ## Setting -/

/-- `support`: the types that may be set. Dates are among them in some builds only. -/
def support (v : Any) : Bool :=
  match v.type with
  | .int => true
  | .bool => true
  | .int64 => true
  | .datetime => B.datetime
  | .timeDelta => B.datetime
  | .double => true
  | .float => true
  | .string => true
  | .void => false
  | .other _ => false

/-- `have`. -/
def have_ (p : Params) (name : String) : Bool := (p.lookup name).isSome

/-- `m_params[name]` makes an empty entry if there is none. -/
def subscript (name : String) : OnParams Any := do
  let p ← get
  match p.lookup name with
  | some v => return v
  | none =>
    modify (·.insert name .empty)
    return .empty

/-- What the versions of `set` have in common: a new name is checked by `refused`, another one must
have the type `T`. -/
def store (name : String) (refused : Option Error) (T : TypeId) (mismatch : TypeId → Error)
    (v : Any) : OnParams Unit := do
  let p ← get
  if !have_ p name then
    match refused with
    | some e => throw e
    | none => modify (·.insert name v)
  else
    let old ← subscript name
    if old.type ≠ T then throw (mismatch old.type)
    else modify (·.insert name v)

/-- `set` of a type without a specialisation. -/
def setGeneric (name : String) (v : Any) : OnParams Unit :=
  store name
    (if support B v then none
      else some (.logic ("Unsuport Type (" ++ B.typeName v.type ++ ")! " ++ name)))
    v.type (fun _ => .logic ("Mismatching type! " ++ name)) v

/-- `set<boost::any>`. -/
def setAny (name : String) (v : Any) : OnParams Unit :=
  store name none v.type
    (fun T => .logic ("Mismatching type! need type " ++ B.typeName T ++ " but value type is " ++
      B.typeName v.type)) v

/-- `set<int>`. -/
def setInt (name : String) (x : Int32) : OnParams Unit :=
  store name none .int64
    (fun T => .logic ("Mismatching type! need type " ++ B.typeName T ++
      " but value type is int")) (.int64 x.toInt64)

/-- `set<float>`. -/
def setFloat (name : String) (x : Floating binary32) : OnParams Unit :=
  store name none .double
    (fun T => .logic ("Mismatching type! need type " ++ B.typeName T ++
      " but value type is float")) (.double x.cast)

/-- `set<T>(name, value)`, for the type of the value. -/
def set (name : String) : Any → OnParams Unit
  | .int x => setInt B name x
  | .float x => setFloat B name x
  | v => setGeneric B name v

/-! ## Getting -/

/-- The entry of a name. -/
def find (p : Params) (name : String) : Except Error Any :=
  match p.lookup name with
  | some v => .ok v
  | none => .error (.outOfRange ("out_of_range in Parameter::get : " ++ name))

/-- The exception of a `boost::any_cast` to another type. -/
def failedCast (name : String) : Error := .logic ("Failed convert cast: " ++ name)

/-- `get` of a type without a specialisation. -/
def getGeneric (p : Params) (T : TypeId) (name : String) : Except Error Any := do
  let v ← find p name
  if v.type = T then return v else throw (failedCast name)

/-- `get<boost::any>`. -/
def getAny (p : Params) (name : String) : Except Error Any := find p name

/-- `get<int64_t>`. -/
def getInt64 (p : Params) (name : String) : Except Error Int64 := do
  match ← find p name with
  | .int64 x => return x
  | _ => throw (failedCast name)

/-- `get<int>`. -/
def getInt (p : Params) (name : String) : Except Error Int32 := do
  match ← find p name with
  | .int64 x =>
    if Int32.maxValue.toInt64 < x ∨ x < Int32.minValue.toInt64 then
      throw (.outOfRange "out_of_range int")
    else return x.toInt32
  | _ => throw (failedCast name)

/-- `get<float>`. The lower bound is `std::numeric_limits<float>::min()`, the least positive number
with a significand of full length. -/
def getFloat (p : Params) (name : String) : Except Error (Floating binary32) := do
  match ← find p name with
  | .double x =>
    if x.above binary32.max || x.below binary32.minNormal then
      throw (.outOfRange "out_of_range float")
    else return x.cast
  | _ => throw (failedCast name)

/-- `get<T>(name)`. -/
def get (p : Params) (T : TypeId) (name : String) : Except Error Any :=
  match T with
  | .int => Any.int <$> getInt p name
  | .int64 => Any.int64 <$> getInt64 p name
  | .float => Any.float <$> getFloat p name
  | T => getGeneric p T name

/-! ## Calls -/

/-- A call of `set`, with the value itself or with the value in a `boost::any`. -/
structure Call where
  name : String
  value : Any
  wrapped : Bool

/-- The call is made. -/
def call (c : Call) : OnParams Unit :=
  if c.wrapped then setAny B c.name c.value else set B c.name c.value

/-- The parameters after some calls, of which some may throw. -/
def calls (p : Params) (cs : List Call) : Params := cs.foldl (fun p c => (call B c p).2) p

/-- What is stored for a value: integers and floating-point numbers are widened, but not in a
`boost::any`. -/
def Call.stored (c : Call) : Any :=
  match c.wrapped, c.value with
  | false, .int x => .int64 x.toInt64
  | false, .float x => .double x.cast
  | _, v => v

/-- The call does not throw: the name is new and the type is supported, or the name has the type
already. -/
def Call.Accepted (c : Call) (p : Params) : Prop :=
  match p.lookup c.name with
  | none => c.wrapped = true ∨ support B c.value = true
  | some old => old.type = c.stored.type

/-- The value can be read with its own type. -/
def Call.Readable (c : Call) : Prop :=
  match c.value with
  | .int _ => c.wrapped = false
  | .float x => c.wrapped = false ∧ x.above binary32.max = false ∧
      x.below binary32.minNormal = false
  | _ => True

/-- What a caller expects: a value that was set comes back until the name is set again, the other
names are left alone, the type of a name never changes, and a call that throws changes nothing. -/
structure Laws (p : Params) (cs : List Call) : Prop where
  returned : ∀ before c after rest, cs = before ++ c :: (after ++ rest) →
    Returns (call B c) (calls B p before) → (∀ c' ∈ after, c'.name ≠ c.name) →
    get (calls B p (before ++ c :: after)) c.value.type c.name = .ok c.value
  others : ∀ before c after, cs = before ++ c :: after → ∀ name ≠ c.name,
    (calls B p (before ++ [c])).lookup name = (calls B p before).lookup name
  type : ∀ before after, cs = before ++ after → ∀ name v,
    (calls B p before).lookup name = some v →
    ∃ v', (calls B p cs).lookup name = some v' ∧ v'.type = v.type
  unchanged : ∀ before c after, cs = before ++ c :: after →
    Throws (call B c) (calls B p before) → calls B p (before ++ [c]) = calls B p before

variable {B}

/-! ## What a call does -/

/-- A program that sets a new name. -/
lemma store_new {p : Params} {name : String} (h : p.lookup name = none) (refused : Option Error)
    (T : TypeId) (mismatch : TypeId → Error) (v : Any) :
    store name refused T mismatch v p =
      match refused with
      | some e => (.error e, p)
      | none => (.ok (), p.insert name v) := by
  have hnew : have_ p name = false := by rw [have_, h]; rfl
  unfold store
  rw [bind_ok (get_apply p), hnew]
  cases refused with
  | none => rfl
  | some e => rfl

/-- A program that sets a name once more. -/
lemma store_old {p : Params} {name : String} {old : Any} (h : p.lookup name = some old)
    (refused : Option Error) (T : TypeId) (mismatch : TypeId → Error) (v : Any) :
    store name refused T mismatch v p =
      if old.type ≠ T then (.error (mismatch old.type), p) else (.ok (), p.insert name v) := by
  have hold : have_ p name = true := by rw [have_, h]; rfl
  have hsub : subscript name p = (.ok old, p) := by
    rw [subscript, bind_ok (get_apply p), h]
    rfl
  unfold store
  rw [bind_ok (get_apply p), hold]
  refine (bind_ok hsub _).trans ?_
  split <;> rfl

/-- Every version of `set` stores a value under its own type.

**Proof sketch.** One case for each version of `set`: the two for `int` and `float`, the one for
`boost::any`, and the template for the rest. -/
lemma call_eq_store (c : Call) : ∃ refused mismatch,
    call B c = store c.name refused c.stored.type mismatch c.stored ∧
      (refused = none ↔ c.wrapped = true ∨ support B c.value = true) := by
  obtain ⟨name, v, wrapped⟩ := c
  cases wrapped with
  | true =>
    rw [show call B ⟨name, v, true⟩ = setAny B name v from rfl, setAny]
    exact ⟨none, _, rfl, by simp⟩
  | false =>
    rw [show call B ⟨name, v, false⟩ = set B name v from rfl]
    cases v with
    | int x =>
      rw [set, setInt]
      exact ⟨none, _, rfl, by simp [support, Any.type]⟩
    | float x =>
      rw [set, setFloat]
      exact ⟨none, _, rfl, by simp [support, Any.type]⟩
    | _ =>
      unfold set setGeneric
      exact ⟨_, _, rfl, by simp⟩

/-- **What a call of `set` can do**: it stores the value, or it throws and changes nothing. -/
lemma call_cases (c : Call) (p : Params) :
    (c.Accepted B p ∧ call B c p = (.ok (), p.insert c.name c.stored)) ∨
    (¬ c.Accepted B p ∧ ∃ e, call B c p = (.error e, p)) := by
  obtain ⟨refused, mismatch, hcall, hrefused⟩ := call_eq_store (B := B) c
  rw [hcall]
  unfold Call.Accepted
  cases h : p.lookup c.name with
  | none =>
    rw [store_new h]
    cases refused with
    | none => exact Or.inl ⟨hrefused.mp rfl, rfl⟩
    | some e => exact Or.inr ⟨(fun hok => nomatch hrefused.mpr hok), e, rfl⟩
  | some old =>
    rw [store_old h]
    by_cases htype : old.type = c.stored.type
    · exact Or.inl ⟨htype, if_neg (not_not.mpr htype)⟩
    · exact Or.inr ⟨htype, _, if_pos htype⟩

/-- A call returns if it is accepted. -/
lemma returns_call_iff {c : Call} {p : Params} : Returns (call B c) p ↔ c.Accepted B p := by
  rcases call_cases (B := B) c p with ⟨haccepted, h⟩ | ⟨hrefused, e, h⟩
  · exact ⟨fun _ => haccepted, fun _ => returns_of_eq h⟩
  · exact ⟨fun hret => absurd hret (throws_iff.mp (throws_of_eq h)), fun hok => absurd hok hrefused⟩

/-- A call leaves the other names alone. -/
lemma lookup_call_ne (c : Call) (p : Params) {name : String} (hne : name ≠ c.name) :
    (call B c p).2.lookup name = p.lookup name := by
  rcases call_cases (B := B) c p with ⟨-, h⟩ | ⟨-, e, h⟩
  · rw [h]
    exact Finmap.lookup_insert_of_ne p hne
  · rw [h]

/-- A call keeps the type of every name. -/
lemma type_call (c : Call) (p : Params) {name : String} {v : Any} (hv : p.lookup name = some v) :
    ∃ v', (call B c p).2.lookup name = some v' ∧ v'.type = v.type := by
  rcases call_cases (B := B) c p with ⟨haccepted, h⟩ | ⟨-, e, h⟩
  · rw [h]
    rcases eq_or_ne name c.name with rfl | hne
    · refine ⟨c.stored, Finmap.lookup_insert p, ?_⟩
      rw [Call.Accepted, hv] at haccepted
      exact haccepted.symm
    · exact ⟨v, (Finmap.lookup_insert_of_ne p hne).trans hv, rfl⟩
  · rw [h]
    exact ⟨v, hv, rfl⟩

/-! ## What is read -/

/-- A value is read with its own type. -/
lemma getGeneric_type {p : Params} {name : String} {v : Any} (h : p.lookup name = some v) :
    getGeneric p v.type name = .ok v := by
  have hfind : find p name = .ok v := by rw [find, h]
  rw [getGeneric, hfind]
  show (if _ then _ else _) = _
  rw [if_pos rfl]
  rfl

/-- An `int` in an `int64_t` is an `int` again. -/
lemma getInt_stored {p : Params} {name : String} {x : Int32}
    (h : p.lookup name = some (.int64 x.toInt64)) : getInt p name = .ok x := by
  have hfind : find p name = .ok (.int64 x.toInt64) := by rw [find, h]
  have hrange : ¬ (Int32.maxValue.toInt64 < x.toInt64 ∨ x.toInt64 < Int32.minValue.toInt64) := by
    rw [Int64.lt_iff_toInt_lt, Int64.lt_iff_toInt_lt]
    simp only [Int32.toInt_toInt64, not_or, not_lt]
    exact ⟨Int32.toInt_le x, Int32.le_toInt x⟩
  rw [getInt, hfind]
  show (if _ then _ else _) = _
  rw [if_neg hrange, Int32.toInt32_toInt64]
  rfl

/-- A `float` in a `double` is a `float` again if it is in the range that is checked. -/
lemma getFloat_stored {p : Params} {name : String} {x : Floating binary32}
    (h : p.lookup name = some (.double x.cast)) :
    getFloat p name =
      if x.above binary32.max || x.below binary32.minNormal then
        .error (.outOfRange "out_of_range float")
      else .ok x := by
  have hfind : find p name = .ok (.double x.cast) := by rw [find, h]
  rw [getFloat, hfind]
  show (if _ then _ else _) = _
  rw [Floating.above_cast binary32_le_binary64, Floating.below_cast binary32_le_binary64,
    Floating.cast_cast binary32_le_binary64]
  rfl

/-- **The values that come back**: exactly the readable ones.

**Proof sketch.** One case for each type, and within it for a value in a `boost::any` or not. A
wrapped value is read back by no typed `get`, and the others by the one of their own type. -/
lemma get_stored_iff {p : Params} {c : Call} (h : p.lookup c.name = some c.stored) :
    get p c.value.type c.name = .ok c.value ↔ c.Readable := by
  obtain ⟨name, v, wrapped⟩ := c
  have hfind : find p name = .ok (Call.stored ⟨name, v, wrapped⟩) := by
    rw [find, h]
  cases v with
  | int x =>
    cases wrapped with
    | true =>
      simp only [Call.Readable, Any.type, get, getInt, hfind, Call.stored]
      exact ⟨nofun, nofun⟩
    | false =>
      simp only [Call.Readable, Any.type, get, getInt_stored h]
      exact ⟨fun _ => trivial, fun _ => rfl⟩
  | float x =>
    cases wrapped with
    | true =>
      simp only [Call.Readable, Any.type, get, getFloat, hfind, Call.stored]
      exact ⟨nofun, nofun⟩
    | false =>
      simp only [Call.Readable, Any.type, get, getFloat_stored h]
      cases x.above binary32.max with
      | true => exact ⟨nofun, nofun⟩
      | false =>
        cases x.below binary32.minNormal with
        | true => exact ⟨nofun, nofun⟩
        | false => exact ⟨fun _ => ⟨trivial, rfl, rfl⟩, fun _ => rfl⟩
  | int64 x =>
    refine ⟨fun _ => trivial, fun _ => ?_⟩
    show Any.int64 <$> getInt64 p name = _
    unfold getInt64
    cases wrapped <;> (rw [hfind]; rfl)
  | _ =>
    refine ⟨fun _ => trivial, fun _ => ?_⟩
    show getGeneric p _ name = _
    cases wrapped <;> exact getGeneric_type h

/-! ## The laws -/

/-- Calls after calls. -/
lemma calls_append (p : Params) (cs cs' : List Call) :
    calls B p (cs ++ cs') = calls B (calls B p cs) cs' := List.foldl_append

/-- One more call. -/
lemma calls_concat (p : Params) (cs : List Call) (c : Call) :
    calls B p (cs ++ [c]) = (call B c (calls B p cs)).2 := calls_append p cs [c]

/-- Calls for other names leave a name alone. -/
lemma lookup_calls_ne {name : String} {cs : List Call} (h : ∀ c ∈ cs, c.name ≠ name) (p : Params) :
    (calls B p cs).lookup name = p.lookup name := by
  induction cs generalizing p with
  | nil => rfl
  | cons c cs ih =>
    have hne : name ≠ c.name := (h c List.mem_cons_self).symm
    calc (calls B p (c :: cs)).lookup name
      _ = (call B c p).2.lookup name := ih (fun c' hc' => h c' (List.mem_cons_of_mem c hc')) _
      _ = p.lookup name := lookup_call_ne c p hne

/-- Calls keep the type of every name. -/
lemma type_calls (cs : List Call) {p : Params} {name : String} {v : Any}
    (hv : p.lookup name = some v) :
    ∃ v', (calls B p cs).lookup name = some v' ∧ v'.type = v.type := by
  induction cs generalizing p v with
  | nil => exact ⟨v, hv, rfl⟩
  | cons c cs ih =>
    obtain ⟨v₁, hv₁, htype₁⟩ := type_call (B := B) c p hv
    obtain ⟨v₂, hv₂, htype₂⟩ := ih hv₁
    exact ⟨v₂, hv₂, htype₂.trans htype₁⟩

/-- The entry of a name after an accepted call and calls for other names. -/
lemma lookup_accepted {p : Params} {before after : List Call} {c : Call}
    (hc : c.Accepted B (calls B p before)) (hafter : ∀ c' ∈ after, c'.name ≠ c.name) :
    (calls B p (before ++ c :: after)).lookup c.name = some c.stored := by
  rw [List.append_cons, calls_append, lookup_calls_ne hafter, calls_concat]
  rcases call_cases (B := B) c (calls B p before) with ⟨-, h⟩ | ⟨hrefused, -⟩
  · rw [h]
    exact Finmap.lookup_insert _
  · exact absurd hc hrefused

variable (B)

/-- **When the laws hold**: exactly if every accepted call sets a readable value. Whatever was set
in a `boost::any` always comes back in one.

**Proof sketch.** The first law, for the last call of a prefix, is that this call sets a readable
value. Conversely the value stays until its name is set again, and the other laws hold of any
sequence of calls. -/
theorem store_laws (p : Params) (cs : List Call) :
    (Laws B p cs ↔ ∀ before c after, cs = before ++ c :: after →
      c.Accepted B (calls B p before) → c.Readable) ∧
    ∀ before c after rest, cs = before ++ c :: (after ++ rest) → c.wrapped = true →
      c.Accepted B (calls B p before) → (∀ c' ∈ after, c'.name ≠ c.name) →
      getAny (calls B p (before ++ c :: after)) c.name = .ok c.value := by
  refine ⟨⟨fun hlaws before c after hcs hc => ?_, fun h => ⟨?_, ?_, ?_, ?_⟩⟩, ?_⟩
  · have hget := hlaws.returned before c [] after hcs (returns_call_iff.mpr hc)
      (List.forall_mem_nil _)
    exact (get_stored_iff (lookup_accepted hc (List.forall_mem_nil _))).mp hget
  · intro before c after rest hcs hreturns hafter
    have hc := returns_call_iff.mp hreturns
    exact (get_stored_iff (lookup_accepted hc hafter)).mpr (h before c _ hcs hc)
  · intro before c after _ name hne
    rw [calls_concat]
    exact lookup_call_ne c _ hne
  · rintro before after rfl name v hv
    rw [calls_append]
    exact type_calls after hv
  · intro before c after _ hthrows
    rw [calls_concat]
    rcases call_cases (B := B) c (calls B p before) with ⟨hc, -⟩ | ⟨-, e, he⟩
    · exact absurd (returns_call_iff.mpr hc) (throws_iff.mp hthrows)
    · rw [he]
  · intro before c after rest _ hwrapped hc hafter
    have hstored : c.stored = c.value := by rw [Call.stored, hwrapped]
    rw [getAny, find, lookup_accepted hc hafter, hstored]

/-- A build without dates, with names of types as GCC gives them. It is used in computations. -/
def linux : Build where
  datetime := false
  typeName
    | .int => "i"
    | .int64 => "l"
    | .bool => "b"
    | .float => "f"
    | .double => "d"
    | .string => "NSt7__cxx1112basic_stringIcSt11char_traitsIcESaIcEEE"
    | .void => "v"
    | .datetime => "N3hku8DatetimeE"
    | .timeDelta => "N3hku9TimeDeltaE"
    | .other name => name

/-- `set<float>("x", 0.0f)`. -/
def setZero : Call := ⟨"x", .float (.finite 0 Format.representable_zero), false⟩

/-- The `float` zero is set and cannot be read. -/
theorem zero_lost :
    Returns (call linux setZero) ∅ ∧
    get (calls linux ∅ [setZero]) .float "x" = .error (.outOfRange "out_of_range float") ∧
    ¬ Laws linux ∅ [setZero] := by
  have hc : setZero.Accepted linux (calls linux ∅ []) := Or.inr rfl
  have hstored : (calls linux ∅ ([] ++ [setZero])).lookup setZero.name = some setZero.stored :=
    lookup_accepted hc (List.forall_mem_nil _)
  have hget : get (calls linux ∅ [setZero]) .float "x" =
      .error (.outOfRange "out_of_range float") := by
    show Any.float <$> getFloat (calls linux ∅ ([] ++ [setZero])) setZero.name = _
    rw [getFloat_stored hstored]
    have hbelow : (0 : ℚ) < binary32.minNormal := zpow_pos (by norm_num) _
    have hrange : (Floating.finite 0 Format.representable_zero : Floating binary32).below
        binary32.minNormal = true := decide_eq_true hbelow
    rw [hrange, Bool.or_true]
    rfl
  refine ⟨returns_call_iff.mpr hc, hget, fun hlaws => ?_⟩
  have hok := hlaws.returned [] setZero [] [] rfl (returns_call_iff.mpr hc) (List.forall_mem_nil _)
  cases hget.symm.trans hok

end HkuUtils.Parameter
