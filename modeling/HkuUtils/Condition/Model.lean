import HkuUtils.ResultSet.Model

set_option relaxedAutoImplicit false
set_option autoImplicit false

/-!
# Conditions put together from texts

`DBCondition` is the text after `WHERE`: comparisons of a field with a value, connected by `&` and
`|`, and followed by orderings and a limit. Every operator changes the object on its left.

## Main definitions

* `HkuUtils.Condition.DBCondition`, `Field` — the two classes.
* `HkuUtils.Condition.Field.eq`, …, `like`, `in_`, `notIn` — comparisons with strings.
* `HkuUtils.Condition.Operation` — one of these comparisons with its values.
* `HkuUtils.Condition.DBCondition.and`, `or`, `asc`, `desc`, `limit` — the operators.
* `HkuUtils.Condition.load`, `batchLoad` — the statements made from a condition.

## Design

Texts are lists of bytes. What the operators return is the object that they have changed, so a
definition returns the new content of that object. The comparisons with strings all write the same
text but for the operator; they are one definition with parameters.
-/

namespace HkuUtils.Condition

open Search (text)

/-- `DBCondition`. -/
structure DBCondition where
  /-- `m_condition`. -/
  condition : List UInt8
  deriving DecidableEq, Repr

/-- `Field`. -/
structure Field where
  /-- `name`. -/
  name : List UInt8
  deriving DecidableEq, Repr

/-! ## Comparisons with strings -/

/-- A value between double quotes. -/
def quoted (val : List UInt8) : List UInt8 := text "\"" ++ val ++ text "\""

/-- The values of a list, the last one apart. -/
def literals (init : List (List UInt8)) (last : List UInt8) : List UInt8 :=
  (init.flatMap fun val => quoted val ++ text ",") ++ quoted last

/-- A comparison in parentheses. -/
def formatted (name : List UInt8) (op : String) (init : List (List UInt8)) (last : List UInt8)
    (close : String) : List UInt8 :=
  text "(" ++ name ++ text op ++ literals init last ++ text close

namespace Field

variable (field : Field)

/-- A comparison with one string. -/
def compared (op : String) (val : List UInt8) : DBCondition :=
  ⟨formatted field.name op [] val ")"⟩

/-- `operator==`. -/
def eq (val : List UInt8) : DBCondition := field.compared "=" val

/-- `operator!=`. -/
def ne (val : List UInt8) : DBCondition := field.compared "<>" val

/-- `operator>`. -/
def gt (val : List UInt8) : DBCondition := field.compared ">" val

/-- `operator<`. -/
def lt (val : List UInt8) : DBCondition := field.compared "<" val

/-- `operator>=`. -/
def ge (val : List UInt8) : DBCondition := field.compared ">=" val

/-- `operator<=`. -/
def le (val : List UInt8) : DBCondition := field.compared "<=" val

/-- `like`. -/
def like (pattern : List UInt8) : DBCondition := field.compared " like " pattern

/-- A comparison with a list of strings. -/
def listed (op : String) (vals : List (List UInt8)) : Except String DBCondition :=
  match vals.getLast? with
  | none => .error "HKU_CHECK(!vals.empty()) input vals can't be empty!"
  | some last => .ok ⟨formatted field.name op vals.dropLast last "))"⟩

/-- `in`. -/
def in_ (vals : List (List UInt8)) : Except String DBCondition := field.listed " in (" vals

/-- `not_in`. -/
def notIn (vals : List (List UInt8)) : Except String DBCondition := field.listed " not in (" vals

end Field

/-- A comparison of a field with strings: the operators of `Field` and the macros for lists. -/
inductive Operation where
  | eq (val : List UInt8)
  | ne (val : List UInt8)
  | gt (val : List UInt8)
  | lt (val : List UInt8)
  | ge (val : List UInt8)
  | le (val : List UInt8)
  | like (pattern : List UInt8)
  | in_ (vals : List (List UInt8))
  | notIn (vals : List (List UInt8))
  deriving DecidableEq, Repr

namespace Operation

/-- The condition, or the exception that `in` and `not_in` throw for a list without values. -/
def apply (field : Field) : Operation → Except String DBCondition
  | eq val => .ok (field.eq val)
  | ne val => .ok (field.ne val)
  | gt val => .ok (field.gt val)
  | lt val => .ok (field.lt val)
  | ge val => .ok (field.ge val)
  | le val => .ok (field.le val)
  | like pattern => .ok (field.like pattern)
  | in_ vals => field.in_ vals
  | notIn vals => field.notIn vals

/-- The strings that the field is compared with. -/
def values : Operation → List (List UInt8)
  | eq val | ne val | gt val | lt val | ge val | le val | like val => [val]
  | in_ vals | notIn vals => vals

end Operation

/-! ## Operators -/

namespace DBCondition

/-- `DBCondition()`. -/
def empty : DBCondition := ⟨[]⟩

/-- `operator&` and `operator|`; `same` tells whether both operands are one object. -/
def connect (word : String) (same : Bool) (self other : DBCondition) : DBCondition :=
  if same then self
  else if self.condition = [] then other
  else ⟨text "(" ++ self.condition ++ text word ++ other.condition ++ text ")"⟩

/-- `operator&`. -/
def and (same : Bool) (self other : DBCondition) : DBCondition := connect " and " same self other

/-- `operator|`. -/
def or (same : Bool) (self other : DBCondition) : DBCondition := connect " or " same self other

/-- `ORDERBY`. -/
inductive OrderBy where
  | orderAsc
  | orderDesc
  deriving DecidableEq, Repr

/-- `orderBy`. -/
def orderBy (self : DBCondition) (field : List UInt8) : OrderBy → DBCondition
  | .orderAsc => ⟨self.condition ++ text " order by " ++ field ++ text " ASC"⟩
  | .orderDesc => ⟨self.condition ++ text " order by " ++ field ++ text " DESC"⟩

/-- `operator+` with `ASC(name)`. -/
def asc (self : DBCondition) (name : List UInt8) : DBCondition := self.orderBy name .orderAsc

/-- `operator+` with `DESC(name)`. -/
def desc (self : DBCondition) (name : List UInt8) : DBCondition := self.orderBy name .orderDesc

/-- An `int` in decimal. -/
def decimal (n : ℤ) : List UInt8 :=
  if n < 0 then text "-" ++ Http.decimal n.natAbs else Http.decimal n.natAbs

/-- `operator+` with `LIMIT(limit)`. -/
def limit (self : DBCondition) (limit : ℤ) : DBCondition :=
  ⟨self.condition ++ text " limit " ++ decimal limit⟩

end DBCondition

/-! ## Statements -/

section Statements

variable (R : Type) [ResultSet.Table R] (cond : DBCondition)

/-- The statement of `DBConnectBase::load` with a condition. -/
def load : List UInt8 :=
  if cond.condition = [] then ResultSet.Table.selectSQL R ++ text " limit 1"
  else ResultSet.Table.selectSQL R ++ text " where " ++ cond.condition ++ text " limit 1"

/-- The statement of `DBConnectBase::batchLoad` with a condition. -/
def batchLoad : List UInt8 := ResultSet.loadStatement R cond.condition

end Statements

end HkuUtils.Condition
