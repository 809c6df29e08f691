import Mathlib.Data.Int.Notation
import HkuUtils.Fallible

set_option relaxedAutoImplicit false
set_option autoImplicit false

/-!
# A connection to a MySQL server

`MySQLConnect` from `MySQLConnect.cpp`: `exec` with its retry after `ping`, and the three commands
that are texts for `exec`. The client library, the connection and the server are the world that
these functions run on.

## Main definitions

* `HkuUtils.MySQL.Server` — what the server has stored, and what it holds for the open transaction.
* `HkuUtils.MySQL.World` — the handle `m_mysql` and its connection, and the server.
* `HkuUtils.MySQL.Env` — what the network and the server do at each call of the client library.
* `HkuUtils.MySQL.World.query`, `World.ping`, `World.read` — the calls of the client library.
* `HkuUtils.MySQL.exec`, `ping`, `tryConnect`, `transaction`, `commit`, `rollback` — the functions.

## Design

A text is a list of statements, and a statement is a command or a change, of which only the name
matters. The server executes the statements of a text one after the other up to the first that
fails. Outside of a transaction a change is stored at once; such changes are listed. A lost
connection ends the transaction without a trace of it. `mysql_next_result` returns `0` for a further
result, `-1` for none and `1` for an error in the next statement. A call of the client library with
a null handle is counted; `mysql_query` and `mysql_ping` do not come back from it, and `mysql_error`
returns some text. The texts of exceptions are without the source position and the prefix
that the macros `SQL_THROW` and `HKU_CHECK` add. What a result set contains, and the parameters of
`connect`, are left out.
-/

namespace HkuUtils.MySQL

open Fallible

variable {W : Type}

/-- `m_mysql`: a null pointer, a handle that has lost its connection, or one that has it. -/
inductive Link where
  | null
  | down
  | up
  deriving DecidableEq, Repr

/-- The statements. -/
inductive Stmt (W : Type) where
  | start
  | commit
  | rollback
  | write (x : W)
  deriving DecidableEq, Repr

/-- A text with the statements in it. -/
structure Script (W : Type) where
  sql : String
  statements : List (Stmt W)

/-- What the server has stored. -/
structure Server (W : Type) where
  /-- The changes that are stored. -/
  durable : List W
  /-- The changes of the open transaction, if one is open. -/
  pending : Option (List W)
  /-- The changes that were executed outside of a transaction. -/
  strays : List W

/-- The connection and the server. -/
structure World (W : Type) where
  link : Link
  server : Server W
  /-- The statements that the server has executed, for each text it has received. -/
  served : List (List (Stmt W))
  /-- The number of the next call of the client library. -/
  clock : ℕ
  /-- The number of calls with a null handle. -/
  nullCalls : ℕ

/-- What happens at a call of `mysql_query`: an answer arrives, or the connection is lost before the
server has received the text, or after. -/
inductive QueryFate where
  | answered
  | lostBefore
  | lostAfter
  deriving DecidableEq, Repr

/-- What happens at a call of `mysql_ping`: nothing, or the connection is replaced, or it is
lost. -/
inductive PingFate where
  | quiet
  | reconnected
  | gone
  deriving DecidableEq, Repr

/-- What `mysql_store_result` finds: a result set, a statement without one, a result set that
cannot be read, or no connection any more. -/
inductive ReadFate where
  | set
  | empty
  | unreadable
  | lost
  deriving DecidableEq, Repr

/-- What happens at each call of the client library. The calls are numbered, and each may have its
own outcome. -/
structure Env where
  query : ℕ → QueryFate
  /-- The statement of the text fails. -/
  fails : ℕ → ℕ → Bool
  ping : ℕ → PingFate
  /-- `connect` succeeds. -/
  connects : ℕ → Bool
  read : ℕ → ReadFate
  /-- What `mysql_affected_rows` returns. -/
  affected : ℕ → ℤ
  /-- What `mysql_error` returns. -/
  error : ℕ → String

/-- How a function ends that does not return: with an exception, or it does not come back from the
client library. -/
inductive Failure where
  | sql (errcode : ℤ) (what : String)
  | std (what : String)
  | crash
  deriving DecidableEq, Repr

/-- Programs on the world. -/
abbrev OnWorld (W α : Type) := Fallible (World W) Failure α

/-! ## The server -/

/-- A statement is executed. -/
def Server.apply (s : Server W) : Stmt W → Server W
  | .start => { s with durable := s.durable ++ s.pending.getD [], pending := some [] }
  | .commit => { s with durable := s.durable ++ s.pending.getD [], pending := none }
  | .rollback => { s with pending := none }
  | .write x =>
    match s.pending with
    | some p => { s with pending := some (p ++ [x]) }
    | none => { s with durable := s.durable ++ [x], strays := s.strays ++ [x] }

/-- The connection ends, and its transaction with it. -/
def Server.abandon (s : Server W) : Server W := { s with pending := none }

namespace World

/-- The statements of a text are executed. -/
def serve (w : World W) (sts : List (Stmt W)) : World W :=
  { w with server := sts.foldl Server.apply w.server, served := w.served ++ [sts] }

/-- The connection is lost. -/
def lose (w : World W) : World W := { w with link := .down, server := w.server.abandon }

/-- A call of the client library is over. -/
def tick (w : World W) : World W := { w with clock := w.clock + 1 }

/-- A null handle is handed to the client library. -/
def misuse (w : World W) : World W := { w with nullCalls := w.nullCalls + 1 }

end World

/-- A connection in some state, to a server with some changes and no open transaction. -/
def idleWorld (link : Link) (durable : List W) (clock : ℕ) : World W :=
  ⟨link, ⟨durable, none, []⟩, [], clock, 0⟩

/-- A network and a server where nothing fails. -/
def quietEnv : Env where
  query _ := .answered
  fails _ _ := false
  ping _ := .quiet
  connects _ := true
  read _ := .empty
  affected _ := 0
  error _ := ""

/-- The statements before the first one that fails. -/
def executed (fails : ℕ → Bool) : List (Stmt W) → List (Stmt W)
  | [] => []
  | st :: sts => if fails 0 then [] else st :: executed (fun i => fails (i + 1)) sts

/-! ## The client library -/

/-- The answer to a text: what `mysql_query` returns, what `mysql_affected_rows` will, the
statements whose results can be fetched, and whether an error follows them. -/
structure Answer (W : Type) where
  ret : ℤ
  affected : ℤ
  results : List (Stmt W)
  failing : Bool

/-- No answer. -/
def Answer.error : Answer W := ⟨1, -1, [], false⟩

variable (E : Env)

/-- `mysql_query` with a handle. -/
def World.query (w : World W) (q : Script W) : Answer W × World W :=
  let sts := executed (E.fails w.clock) q.statements
  match w.link, E.query w.clock with
  | .up, .answered =>
    (⟨if sts.isEmpty then 1 else 0, E.affected w.clock, sts, sts.length < q.statements.length⟩,
      (w.serve sts).tick)
  | .up, .lostBefore => (.error, w.lose.tick)
  | .up, .lostAfter => (.error, (w.serve sts).lose.tick)
  | _, _ => (.error, w.tick)

/-- `mysql_ping` with a handle. -/
def World.ping (w : World W) : ℤ × World W :=
  match w.link, E.ping w.clock with
  | .up, .quiet => (0, w.tick)
  | _, .reconnected => (0, { w.lose.tick with link := .up })
  | _, _ => (1, w.lose.tick)

/-- `mysql_store_result` and `mysql_field_count` after the statement `st`: whether there is a result
set, and the number of its columns. Commands have none. -/
def World.read (w : World W) (st : Stmt W) : (Bool × ℕ) × World W :=
  match st, E.read w.clock with
  | .write _, .set => ((true, 1), w.tick)
  | .write _, .unreadable => ((false, 1), w.tick)
  | .write _, .lost => ((false, 1), w.lose.tick)
  | _, _ => ((false, 0), w.tick)

/-- `mysql_query`. -/
def mysqlQuery (q : Script W) : OnWorld W (Answer W) := do
  let w ← get
  if w.link = .null then
    modify World.misuse
    throw .crash
  else
    modify fun w => (w.query E q).2
    return (w.query E q).1

/-- `mysql_ping`. -/
def mysqlPing : OnWorld W ℤ := do
  let w ← get
  if w.link = .null then
    modify World.misuse
    throw .crash
  else
    modify fun w => (w.ping E).2
    return (w.ping E).1

/-- `mysql_error`. -/
def mysqlError : OnWorld W String := do
  let w ← get
  modify fun w => if w.link = .null then w.misuse else w
  return E.error w.clock

/-- `mysql_next_result`, with the statements whose results follow. -/
def mysqlNextResult (results : List (Stmt W)) (failing : Bool) : ℤ :=
  if results.isEmpty then if failing then 1 else -1 else 0

/-! ## The connection -/

/-- `close`. -/
def close : OnWorld W Unit := modify fun w => { w with link := .null, server := w.server.abandon }

/-- `connect`. -/
def connect : OnWorld W Unit := do
  let w ← get
  modify World.tick
  if E.connects w.clock then modify fun w => { w with link := .up }
  else
    close
    throw (.std ("Failed create MySQLConnect! " ++ E.error w.clock))

/-- `tryConnect`. -/
def tryConnect : OnWorld W Bool :=
  tryCatch (do close; connect E; return true) fun _ => return false

/-- `ping`: `mysql_ping` on the handle that there is, and a new connection if that fails. -/
def ping : OnWorld W Bool := do
  let w ← get
  let connected ← (if w.link = .null then tryConnect E else pure true : OnWorld W Bool)
  if connected then
    let ret ← mysqlPing E
    if ret = 0 then return true
    else
      let success ← tryConnect E
      if success then return true
      else
        let _ ← mysqlError E
        return false
  else return false

/-! ## The functions -/

/-- `if (!m_mysql) HKU_CHECK(!tryConnect(), "Failed connect to mysql!")`. -/
def checkHandle : OnWorld W Unit := do
  let w ← get
  if w.link = .null then
    let success ← tryConnect E
    if success then throw (.std "Failed connect to mysql!")

/-- The text of an exception of `exec`. -/
def sqlError (q : Script W) (msg : String) : String :=
  "SQL error: " ++ q.sql ++ "! error msg: " ++ msg

/-- `mysql_query`, and once more if it fails and `ping` succeeds. -/
def queryTwice (q : Script W) : OnWorld W (Answer W) := do
  let answer ← mysqlQuery E q
  if answer.ret = 0 then return answer
  else
    let success ← ping E
    if success then mysqlQuery E q
    else
      let msg ← mysqlError E
      throw (.sql answer.ret (sqlError q msg))

/-- The loop over the results: `do … while (!mysql_next_result(m_mysql))`. -/
def readResults (q : Script W) (ret : ℤ) (failing : Bool) : List (Stmt W) → OnWorld W Unit
  | [] => return ()
  | st :: results => do
    let w ← get
    modify fun w => (w.read E st).2
    if (w.read E st).1.1 = false ∧ (w.read E st).1.2 ≠ 0 then
      let msg ← mysqlError E
      throw (.sql ret ("mysql_field_count error：" ++ q.sql ++ "! error msg: " ++ msg))
    else if mysqlNextResult results failing = 0 then readResults q ret failing results
    else return ()

/-- `exec`: the text is sent, a second time if the first fails and the connection is found again,
and the results are read. -/
def exec (q : Script W) : OnWorld W ℤ := do
  checkHandle E
  let answer ← queryTwice E q
  if answer.ret = 0 then
    let affectRows := if answer.affected = -1 then 0 else answer.affected
    readResults E q answer.ret answer.failing answer.results
    return affectRows
  else
    let msg ← mysqlError E
    throw (.sql answer.ret (sqlError q msg))

/-- `transaction`. -/
def transaction : OnWorld W Unit := do
  let _ ← exec E ⟨"BEGIN", [.start]⟩
  return ()

/-- `commit`. -/
def commit : OnWorld W Unit := do
  let _ ← exec E ⟨"COMMIT", [.commit]⟩
  return ()

/-- `rollback`: no exception leaves it. -/
def rollback : OnWorld W Unit :=
  tryCatch (do let _ ← exec E ⟨"ROLLBACK", [.rollback]⟩) fun
    | .crash => throw .crash
    | _ => return ()

end HkuUtils.MySQL
