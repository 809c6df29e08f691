import Mathlib.Data.BitVec

set_option relaxedAutoImplicit false
set_option autoImplicit false

/-!
# What the resource pools share

The two headers `ResourcePool.h` and `ResourceAsioPool.h` define four classes: a pool with and a
pool without resource versions, each for threads and for coroutines. This file has what the
four have in common.

## Main definitions

* `HkuUtils.Resource`, `HkuUtils.Handle` — a resource, and the `ResourcePtr` that a caller holds
  together with the `ResourceCloser` in it.
* `HkuUtils.Kind` — whether a class has versions.
* `HkuUtils.Construction` — how `new ResourceType(param)` ends.
* `HkuUtils.ParameterOps`, `HkuUtils.changeParam` — the use that `setParam` makes of `Parameter`.
-/

namespace HkuUtils

/-- A pool without versions (`ResourcePool`, `ResourceAsioPool`) or with versions
(`ResourceVersionPool`, `ResourceAsioVersionPool`). -/
inductive Kind where
  | plain
  | versioned
  deriving DecidableEq, Repr

/-- A resource behind a `ResourceType *`. -/
structure Resource (P : Type) where
  /-- The address; resources are numbered in the order of their construction. -/
  ptr : ℕ
  /-- `m_version`, an `int`, in two's complement. -/
  version : BitVec 32
  /-- The parameters that the constructor was given. -/
  param : P
  deriving DecidableEq, Repr

/-- A `ResourcePtr` held by a caller, with the `ResourceCloser` in its control block. -/
structure Handle (P : Type) where
  /-- The address of the closer; closers are numbered by the call of `get` that made them. -/
  closer : ℕ
  /-- The resource. -/
  res : Resource P
  /-- `m_pool != nullptr`: the closer is bound to its pool. -/
  bound : Bool
  deriving DecidableEq, Repr

/-- The comparison of `getVersion()` with the version of the pool, made only by the classes
that have versions. -/
def Kind.stale {P : Type} (k : Kind) (version : BitVec 32) (p : Resource P) : Bool :=
  k == .versioned && p.version != version

/-- Without versions no resource is stale. -/
@[simp]
lemma Kind.stale_plain {P : Type} (version : BitVec 32) (p : Resource P) :
    Kind.stale .plain version p = false := rfl

/-- How the constructor call `new ResourceType(param)` ends: it returns, throws a
`std::exception` with a text, or throws something else. -/
inductive Construction where
  | ok
  | throws (what : String)
  | throwsUnknown
  deriving DecidableEq, Repr

/-- The text of the `CreateResourceException` that a failed construction is turned into. -/
def Construction.message : Construction → Option String
  | .ok => none
  | .throws what => some ("Failed create a new Resource! " ++ what)
  | .throwsUnknown => some "Failed create a new Resource! Unknown error!"

/-- What the pools use of `Parameter`: `have`, `get<ValueType>` and `set<ValueType>`, a thrown
exception being an error. -/
class ParameterOps (P : Type) (N V : outParam Type) where
  /-- `Parameter::have`. -/
  haveParam : P → N → Bool
  /-- `Parameter::get`. -/
  getParam : P → N → Except String V
  /-- `Parameter::set`. -/
  setParam : P → N → V → Except String P

/-- The body of `setParam` up to the change of the version: the parameters it stores, or `none`
where it returns at once because the value is the one already there. -/
def changeParam {P N V : Type} [ParameterOps P N V] [BEq V] (param : P) (name : N) (value : V) :
    Except String (Option P) := do
  if ParameterOps.haveParam param name then
    let old ← ParameterOps.getParam param name
    if value == old then
      return none
  return some (← ParameterOps.setParam param name value)

/-- Parameters whose values are all integers, in the order of their first `set`. -/
abbrev IntParams := List (String × ℤ)

instance : ParameterOps IntParams String ℤ where
  haveParam param name := (param.lookup name).isSome
  getParam param name :=
    match param.lookup name with
    | some value => .ok value
    | none => .error ("out_of_range in Parameter::get : " ++ name)
  setParam param name value :=
    .ok (if (param.lookup name).isSome then
      param.map fun nv => if nv.1 = name then (name, value) else nv
    else param ++ [(name, value)])

end HkuUtils
