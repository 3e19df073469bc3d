import Mathlib.Logic.Function.Basic

namespace StoolapMariadb.Session

/-! A session on the engine. Its one storage transaction is installed in the
executor while a transaction is open, and is the statement's own otherwise. -/

abbrev TxId := Nat

inductive IsolationLevel where
  | readCommitted
  | snapshotIsolation
deriving DecidableEq

inductive Error where
  | internal (message : String)
  | transactionEnded
  | notSupported (message : String)
  | invalidArgument (message : String)
  | tableNotFound (table : String)
  | engine (message : String)
deriving DecidableEq

/-- A parsed statement, as far as it matters what may run where. -/
inductive Statement where
  | select
  | insert
  | update
  | delete
  | savepoint
  | releaseSavepoint
  | rollback (savepointName : Option String)
  | other
deriving DecidableEq

/-- A foreign key of table `child`, on columns of `parent`. -/
structure ForeignKey where
  child : String
  parent : String
deriving DecidableEq

/-- The engine: the writes made durable, in order, and those each transaction
holds back. -/
structure Database (Write : Type) where
  tables : List String
  foreignKeys : List ForeignKey
  committed : List Write
  pending : TxId → List Write
  nextTx : TxId
  ended : List TxId

/-- What the executor makes of one statement: the count of rows or an error,
the writes, and how many pending ones a savepoint keeps. -/
structure Execution (Write : Type) where
  result : Except Error Int64
  writes : List Write
  keep : Nat

/-- What the engine answers in one operation of the session. -/
structure Calls (Write : Type) where
  planFault : Option Error
  execution : Execution Write
  isolationLevel : IsolationLevel
  beginFault : Option Error
  commitFault : Option Error
  rollbackFault : Option Error
  tableFault : Option Error

/-- A table handle: its transaction, and the view it reads through. -/
structure Handle (Write : Type) where
  tx : TxId
  view : Option (List Write)

variable {Write : Type}

/-- A foreign key names `table`, as child or parent. -/
def Database.namesTable (db : Database Write) (table : String) : Bool :=
  db.foreignKeys.any fun key => key.child = table || key.parent = table

def Database.begin (db : Database Write) : Database Write :=
  { db with nextTx := db.nextTx + 1 }

def Database.setPending (tx : TxId) (writes : List Write) (db : Database Write) : Database Write :=
  { db with pending := Function.update db.pending tx writes }

def Database.write (tx : TxId) (writes : List Write) (db : Database Write) : Database Write :=
  db.setPending tx (db.pending tx ++ writes)

/-- Takes back all but the first `count` writes of a transaction. -/
def Database.keep (tx : TxId) (count : Nat) (db : Database Write) : Database Write :=
  db.setPending tx ((db.pending tx).take count)

def Database.publish (writes : List Write) (db : Database Write) : Database Write :=
  { db with committed := db.committed ++ writes }

/-- The transaction ends; what it still holds is gone. -/
def Database.finish (tx : TxId) (db : Database Write) : Database Write :=
  { db.setPending tx [] with ended := tx :: db.ended }

/-- `tx.commit`, and `tx.rollback` when it fails. -/
def Database.commit (tx : TxId) (calls : Calls Write) (db : Database Write) :
    Except Error Unit × Database Write :=
  match calls.commitFault with
  | none => (.ok (), (db.publish (db.pending tx)).finish tx)
  | some error => (.error error, db.finish tx)

def Database.rollback (tx : TxId) (calls : Calls Write) (db : Database Write) :
    Except Error Unit × Database Write :=
  match calls.rollbackFault with
  | none => (.ok (), db.finish tx)
  | some error => (.error error, db.finish tx)

def Statement.mayWrite : Statement → Bool
  | .insert | .update | .delete | .other => true
  | .select | .savepoint | .releaseSavepoint | .rollback _ => false

/-- The executor runs a statement, in the transaction installed in it or else
in one of its own that the statement commits or leaves no trace of. -/
def Database.execute (installed : Option TxId) (statement : Statement) (execution : Execution Write)
    (db : Database Write) : Except Error Int64 × Database Write :=
  match installed with
  | some tx =>
      match statement with
      | .rollback _ => (execution.result, db.keep tx execution.keep)
      | statement =>
          (execution.result, if statement.mayWrite then db.write tx execution.writes else db)
  | none =>
      match execution.result with
      | .error error => (.error error, db)
      | .ok count => (.ok count, if statement.mayWrite then db.publish execution.writes else db)

/-- What may run inside an open transaction: DML and savepoints. -/
def runsInTransaction : Statement → Except Error Unit
  | .select | .insert | .update | .delete | .savepoint | .releaseSavepoint | .rollback (some _) =>
      .ok ()
  | _ => .error (.notSupported "Only DML statements are supported in transactions")

end StoolapMariadb.Session

namespace StoolapMariadb

/-- A session: the transaction installed in the executor, whether one is open,
the statement's own transaction and whether a direct write went to it, the
open transaction's level, and the statement's table handles and view. -/
structure Session (Write : Type) where
  db : Session.Database Write
  exec : Option Session.TxId
  isOpen : Bool
  stmtTx : Option Session.TxId
  stmtWrote : Bool
  level : Session.IsolationLevel
  tables : List (String × Session.Handle Write)
  writeTables : List (String × Session.Handle Write)
  view : Option (List Write)

namespace Session

variable {Write : Type}

def new (db : Database Write) : Session Write where
  db
  exec := none
  isOpen := false
  stmtTx := none
  stmtWrote := false
  level := .readCommitted
  tables := []
  writeTables := []
  view := none

def inTransaction (session : Session Write) : Bool := session.isOpen

/-- `execute` and `execute_with_cached_plan` of the session's executor. -/
def execute (statement : Statement) (calls : Calls Write) (session : Session Write) :
    Except Error Int64 × Session Write :=
  let (result, db) := session.db.execute session.exec statement calls.execution
  (result, { session with db })

/-- Runs a prepared plan, in the open transaction when there is one. -/
def runPlan (statement : Statement) (calls : Calls Write) (session : Session Write) :
    Except Error Int64 × Session Write :=
  if session.inTransaction then
    match runsInTransaction statement with
    | .error error => (.error error, session)
    | .ok () => session.execute statement calls
  else session.execute statement calls

/-- Runs a plan in the statement's own transaction, lent to the executor for
the call. -/
def runInStmtTx (statement : Statement) (calls : Calls Write) (session : Session Write) :
    Except Error Int64 × Session Write :=
  match session.stmtTx with
  | none => (.error .transactionEnded, session)
  | some tx =>
      let lent := { session with stmtTx := none, exec := some tx }
      let (result, after) := lent.execute statement calls
      (result, { after with stmtTx := after.exec, exec := none })

/-- Runs SQL, in the open transaction when there is one. Outside one only a
SELECT joins the statement's own; other SQL stays autocommit. -/
def run (statement : Statement) (calls : Calls Write) (session : Session Write) :
    Except Error Int64 × Session Write :=
  match calls.planFault with
  | some error => (.error error, session)
  | none =>
      if session.inTransaction then session.runPlan statement calls
      else
        match session.stmtTx, statement with
        | some _, .select => session.runInStmtTx .select calls
        | _, statement => session.execute statement calls

/-- Ends the statement's direct access, and its own transaction if it has one:
one that only read rolls back cheaper. -/
def endStatement (commit : Bool) (calls : Calls Write) (session : Session Write) :
    Except Error Unit × Session Write :=
  let closed := { session with tables := [], writeTables := [], view := none }
  match session.stmtTx with
  | none => (.ok (), closed)
  | some tx =>
      let taken := { closed with stmtTx := none, stmtWrote := false }
      if !commit || !session.stmtWrote then
        let (result, db) := session.db.rollback tx calls
        (result, { taken with db })
      else
        let (result, db) := session.db.commit tx calls
        (result, { taken with db })

def begin (level : IsolationLevel) (calls : Calls Write) (session : Session Write) :
    Except Error Unit × Session Write :=
  if session.inTransaction then (.error (.internal "a transaction is already open"), session)
  else
    match session.endStatement true calls with
    | (.error error, session) => (.error error, session)
    | (.ok (), session) =>
        match calls.beginFault with
        | some error => (.error error, session)
        | none =>
            (.ok (), { session with db := session.db.begin, exec := some session.db.nextTx, level,
                                    isOpen := true })

/-- Takes the open transaction out of the executor, to end it. -/
def take (session : Session Write) : Except Error TxId × Session Write :=
  let closed := { session with isOpen := false, tables := [], writeTables := [], exec := none }
  match session.exec with
  | none => (.error .transactionEnded, closed)
  | some tx => (.ok tx, closed)

def commit (calls : Calls Write) (session : Session Write) : Except Error Unit × Session Write :=
  match session.take with
  | (.error error, session) => (.error error, session)
  | (.ok tx, session) =>
      let (result, db) := session.db.commit tx calls
      (result, { session with db })

def rollback (calls : Calls Write) (session : Session Write) : Except Error Unit × Session Write :=
  match session.take with
  | (.error error, session) => (.error error, session)
  | (.ok tx, session) =>
      let (result, db) := session.db.rollback tx calls
      (result, { session with db })

/-- A transaction's handle on `table`, through the statement's view when
`withView`. -/
def openTable (tx : TxId) (withView : Bool) (table : String) (calls : Calls Write)
    (session : Session Write) : Except Error (Handle Write) × Session Write :=
  let viewed :=
    if withView && session.view.isNone then { session with view := some session.db.committed }
    else session
  match calls.tableFault with
  | some error => (.error error, viewed)
  | none =>
      if session.db.tables.contains table then
        (.ok { tx, view := if withView then viewed.view else none }, viewed)
      else (.error (.tableNotFound table), viewed)

/-- The transaction direct access goes through: the open one, else the
statement's own, which it begins. -/
def accessTx (calls : Calls Write) (session : Session Write) : Except Error TxId × Session Write :=
  if session.inTransaction then
    match session.exec with
    | none => (.error .transactionEnded, session)
    | some tx => (.ok tx, session)
  else
    match session.stmtTx with
    | some tx => (.ok tx, session)
    | none =>
        match calls.beginFault with
        | some error => (.error error, session)
        | none =>
            (.ok session.db.nextTx,
              { session with db := session.db.begin, stmtTx := some session.db.nextTx })

/-- The read or write handle on `table`, opened when the statement has none. -/
def withHandle (read : Bool) (table : String) (calls : Calls Write) (session : Session Write) :
    Except Error (Handle Write) × Session Write :=
  match (if read then session.tables else session.writeTables).lookup table with
  | some handle => (.ok handle, session)
  | none =>
      match session.accessTx calls with
      | (.error error, session) => (.error error, session)
      | (.ok tx, session) =>
          let level := if session.inTransaction then session.level else calls.isolationLevel
          match session.openTable tx (read && level = .readCommitted) table calls with
          | (.error error, session) => (.error error, session)
          | (.ok handle, session) =>
              (.ok handle,
                if read then { session with tables := (table, handle) :: session.tables }
                else { session with writeTables := (table, handle) :: session.writeTables })

/-- Reads through a handle on `table`: `f` is what the read returns. A table
the statement wrote is read through its write handle. -/
def withTable (table : String) (f : Except Error Int64) (calls : Calls Write)
    (session : Session Write) : Except Error Int64 × Session Write :=
  match session.writeTables.lookup table with
  | some _ => (f, session)
  | none =>
      match session.withHandle true table calls with
      | (.error error, session) => (.error error, session)
      | (.ok _, session) => (f, session)

/-- A direct write outside a transaction makes the statement's own need a
commit. -/
def noteWrite (session : Session Write) : Session Write :=
  if session.inTransaction then session else { session with stmtWrote := true }

/-- Writes through the write handle on `table`: `f` is what the write returns
and the rows it wrote. Nothing for a table a foreign key names. -/
def withWriteTable (table : String) (f : Except Error Int64 × List Write) (calls : Calls Write)
    (session : Session Write) : Except Error (Option Int64) × Session Write :=
  match session.noteWrite.withHandle false table calls with
  | (.error error, session) => (.error error, session)
  | (.ok handle, session) =>
      if session.db.namesTable table then (.ok none, session)
      else (f.1.map some, { session with db := session.db.write handle.tx f.2 })

/-- Whether writes to `table` go through SQL, where the executor checks the
foreign keys. -/
def writesThroughSql (table : String) (session : Session Write) : Except Error Bool :=
  if session.db.tables.contains table then .ok (session.db.namesTable table)
  else .error (.tableNotFound table)

end Session

end StoolapMariadb
