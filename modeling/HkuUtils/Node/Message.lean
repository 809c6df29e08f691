import Mathlib.Data.Int.Basic
import HkuUtils.Fallible

set_option relaxedAutoImplicit false
set_option autoImplicit false

/-!
# Messages of a node

JSON values as far as the node server reads and writes them, and the messages that carry them.

## Main definitions

* `HkuUtils.Node.Json` — the values; `contains`, `get?` and `set` are `operator[]` and its kin.
* `HkuUtils.Node.Exn` — what the code and the handlers throw.
* `HkuUtils.Node.Library` — the MessagePack codec.
* `HkuUtils.Node.Message`, `decodeMsg`, `encodeMsg` — a message and its content.

## Main results

* `HkuUtils.Node.Json.set_eq_ok_iff` — the values on which a field can be set.
* `HkuUtils.Node.Json.contains_of_set` — the fields that a value has afterwards.

## Design

The codec is a parameter. A value that a parser callback has discarded is not a value here.
-/

namespace HkuUtils.Node

/-- What is thrown, by the `catch` that takes it. The arms stand in this order, so a `NodeNngError`
never comes to the second one. -/
inductive Exn where
  /-- `NodeNngError`. -/
  | nng (what : String)
  /-- Any other `NodeError`. -/
  | node (errcode : ℤ) (what : String)
  /-- Any other `std::exception`. -/
  | std (what : String)
  /-- Anything else. -/
  | unknown
  deriving DecidableEq, Repr

/-- `NodeErrorCode::SUCCESS`. -/
def success : ℤ := 0

/-- `NodeErrorCode::UNKNOWN_ERROR`. -/
def unknownError : ℤ := 1

/-- `NodeErrorCode::MISSING_CMD`. -/
def missingCmd : ℤ := 3

/-- `NodeErrorCode::INVALID_CMD`. -/
def invalidCmd : ℤ := 4

/-- The values of JSON, as far as messages have them. The fields of an object are in the order of
their keys, without repetitions. -/
inductive Json where
  | null
  | boolean (b : Bool)
  | integer (n : ℤ)
  | double (bits : UInt64)
  | string (s : String)
  | array (values : List Json)
  /-- The fields, in the order of their keys. -/
  | object (fields : List (String × Json))
  | binary (bytes : List UInt8)

namespace Json

/-- `type_name`. -/
def typeName : Json → String
  | null => "null"
  | boolean _ => "boolean"
  | integer _ | double _ => "number"
  | string _ => "string"
  | array _ => "array"
  | object _ => "object"
  | binary _ => "binary"

/-- The field of an object. -/
def get? (key : String) : Json → Option Json
  | object fields => fields.lookup key
  | _ => none

/-- `contains`. -/
def contains (key : String) (j : Json) : Bool := (j.get? key).isSome

/-- Assign a field of an object, which may be new. -/
def assign (key : String) (value : Json) : List (String × Json) → List (String × Json)
  | [] => [(key, value)]
  | (k, v) :: fields =>
    if key = k then (key, value) :: fields
    else if key < k then (key, value) :: (k, v) :: fields
    else (k, v) :: assign key value fields

/-- `j[key] = value`: the null value becomes an object. -/
def set (j : Json) (key : String) (value : Json) : Except Exn Json :=
  match j with
  | null => .ok (object [(key, value)])
  | object fields => .ok (object (assign key value fields))
  | j => .error (.std ("[json.exception.type_error.305] " ++
      "cannot use operator[] with a string argument with " ++ j.typeName))

/-- The values on which a field can be set. -/
def isNullOrObject : Json → Bool
  | null | object _ => true
  | _ => false

/-- `get<std::string>()`. -/
def getString : Json → Except Exn String
  | string s => .ok s
  | j => .error (.std ("[json.exception.type_error.302] " ++
      "type must be string, but is " ++ j.typeName))

/-! ### Fields -/

/-- A field that is assigned is there. -/
lemma lookup_assign_self (key : String) (value : Json) (fields : List (String × Json)) :
    (assign key value fields).lookup key = some value := by
  induction fields with
  | nil => simp [assign]
  | cons field fields ih =>
    obtain ⟨k, v⟩ := field
    rw [assign]
    split_ifs with heq hlt
    · simp
    · simp
    · have hbeq : (key == k) = false := beq_false_of_ne heq
      simp only [List.lookup_cons, hbeq, ih]

/-- The other fields are as they were. -/
lemma lookup_assign_of_ne {key other : String} (hne : other ≠ key) (value : Json)
    (fields : List (String × Json)) :
    (assign key value fields).lookup other = fields.lookup other := by
  have hbeq : (other == key) = false := beq_false_of_ne hne
  induction fields with
  | nil => simp [assign, List.lookup_cons, hbeq]
  | cons field fields ih =>
    obtain ⟨k, v⟩ := field
    rw [assign]
    split_ifs with heq hlt
    · subst heq
      simp [List.lookup_cons, hbeq]
    · simp [List.lookup_cons, hbeq]
    · simp only [List.lookup_cons, ih]

/-- **The values on which a field can be set.** -/
lemma set_eq_ok_iff (key : String) (value j : Json) :
    (∃ j', j.set key value = .ok j') ↔ j.isNullOrObject = true := by
  cases j <;> simp [set, isNullOrObject]

/-- What setting a field leads to is an object. -/
lemma isNullOrObject_of_set {key : String} {value j j' : Json} (h : j.set key value = .ok j') :
    j'.isNullOrObject = true := by
  cases j <;> simp [set] at h <;> subst h <;> rfl

/-- **The fields of a value after one is set**: that one, and those that were there before. -/
lemma contains_of_set {key : String} {value j j' : Json} (h : j.set key value = .ok j')
    (other : String) : j'.contains other = (other == key || j.contains other) := by
  obtain ⟨fields, hfields, rfl⟩ : ∃ fields, (∀ other, j.get? other = fields.lookup other) ∧
      j' = object (assign key value fields) := by
    cases j <;> simp [set] at h
    · exact ⟨[], fun _ => rfl, h.symm⟩
    · exact ⟨_, fun _ => rfl, h.symm⟩
  by_cases hother : other = key
  · subst hother
    simp [contains, get?, lookup_assign_self]
  · have hbeq : (other == key) = false := beq_false_of_ne hother
    rw [hbeq, Bool.false_or, contains, contains, hfields, get?, lookup_assign_of_ne hother]

end Json

/-- What the libraries do. -/
structure Library where
  /-- `json::from_msgpack`. -/
  fromMsgpack : List UInt8 → Except String Json
  /-- `json::to_msgpack`. -/
  toMsgpack : Json → List UInt8
  /-- The conversion of a `double` to an `int`. -/
  toInt : UInt64 → ℤ

/-- An object that has a field keeps it when it is encoded and decoded. -/
def Library.Keeps (L : Library) (key : String) : Prop :=
  ∀ j : Json, j.contains key = true →
    ∃ j', L.fromMsgpack (L.toMsgpack j) = .ok j' ∧ j'.contains key = true

/-- A message, with the address of the peer if it came over TCP. -/
structure Message where
  body : List UInt8
  peer : Option (String × ℕ)
  deriving DecidableEq, Repr

/-- The content of a message has the field. -/
def Message.Has (L : Library) (key : String) (m : Message) : Prop :=
  ∃ j, L.fromMsgpack m.body = .ok j ∧ j.contains key = true

/-- `HKU_ASSERT(msg != nullptr)`. -/
def nullMessage : Exn := .std "HKU_ASSERT(msg != nullptr)"

/-- `decodeMsg`. -/
def decodeMsg (L : Library) : Option Message → Except Exn Json
  | none => .error nullMessage
  | some m =>
    match L.fromMsgpack m.body with
    | .ok j => .ok j
    | .error what => .error (.std what)

/-- `encodeMsg`, where the message can be appended to. -/
def encodeMsg (L : Library) (j : Json) : Option Message → Except Exn Message
  | none => .error nullMessage
  | some m => .ok { m with body := L.toMsgpack j }

end HkuUtils.Node
