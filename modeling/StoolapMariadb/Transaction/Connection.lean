import StoolapMariadb.SqlWrite
import StoolapMariadb.Lib.Checkpoints

namespace StoolapMariadb.Transaction

/-! What MariaDB's calls of the plugin do to the transaction of their
connection, and connections on one engine. -/

open StoolapMariadb.Session

variable {Write : Type}

/-- `thd_tx_isolation`. -/
inductive TxIsolation where
  | readUncommitted
  | readCommitted
  | repeatableRead
  | serializable

def stoolapIsolation : TxIsolation → IsolationLevel
  | .repeatableRead | .serializable => .snapshotIsolation
  | .readUncommitted | .readCommitted => .readCommitted

/-- `StoolapSavepointSlot`, the chunk MariaDB keeps of a savepoint. -/
structure SavepointSlot where
  id : UInt64
  name : List Char

/-- `name[24]` takes 23 characters and a NUL. -/
def formatSavepointSlot (id : UInt64) : SavepointSlot where
  id := id
  name := ("sp" ++ toString id.toNat).toList.take 23

inductive Verb where
  | savepoint
  | releaseSavepoint
  | rollbackToSavepoint

def Verb.text : Verb → String
  | .savepoint => "SAVEPOINT"
  | .releaseSavepoint => "RELEASE SAVEPOINT"
  | .rollbackToSavepoint => "ROLLBACK TO SAVEPOINT"

/-- `sql[64]` takes 63. -/
def savepointSql (verb : Verb) (slot : SavepointSlot) : List Char :=
  (verb.text.toList ++ ' ' :: slot.name).take 63

/-- What the engine reads there. -/
def readSavepoint (sql : List Char) : Option (Verb × List Char) :=
  [Verb.savepoint, .releaseSavepoint, .rollbackToSavepoint].findSome? fun verb =>
    ((verb.text.toList ++ [' ']).isPrefixOf? sql).map (verb, ·)

def Verb.statement (name : List Char) : Verb → Statement
  | .savepoint => .savepoint
  | .releaseSavepoint => .releaseSavepoint
  | .rollbackToSavepoint => .rollback (some (String.ofList name))

/-- The engine's savepoints of a transaction. Whether a RELEASE keeps the newer
ones is its own. -/
def Verb.run (newerStay : Bool) (name : List Char) (log : Checkpoints.Log (List Char) Write) :
    Verb → Option (Checkpoints.Log (List Char) Write)
  | .savepoint => some (log.mark name)
  | .releaseSavepoint => log.release newerStay name
  | .rollbackToSavepoint => log.restore name

/-- `ThdContext` with its session. `hasTx` is its `StoolapTx`; `marks` are the
engine's savepoints of the open transaction. -/
structure ThdContext (Write : Type) where
  session : Session Write
  hasTx : Bool
  nextSavepointId : UInt64
  marks : List (List Char × Nat)

namespace ThdContext

def new (db : Database Write) : ThdContext Write where
  session := .new db
  hasTx := false
  nextSavepointId := 0
  marks := []

/-- Where others have made `committed` durable. -/
def onto (committed : List Write) (context : ThdContext Write) : ThdContext Write :=
  { context with session := { context.session with db := { context.session.db with committed } } }

def log (context : ThdContext Write) : Checkpoints.Log (List Char) Write where
  writes := context.session.openWrites
  marks := context.marks

def begin (level : IsolationLevel) (calls : Calls Write) (context : ThdContext Write) :
    Except Error Unit × ThdContext Write :=
  if context.hasTx then (.ok (), context)
  else
    match context.session.begin level calls with
    | (.error error, session) => (.error error, { context with session })
    | (.ok (), session) => (.ok (), { context with session, hasTx := true, marks := [] })

/-- `stoolap_tx_commit` frees the handle whatever comes of it. -/
def commit (calls : Calls Write) (context : ThdContext Write) : Except Error Unit × ThdContext Write :=
  if !context.hasTx then (.ok (), context)
  else
    let (result, session) := context.session.commit calls
    (result, { context with session, hasTx := false, marks := [] })

def rollback (calls : Calls Write) (context : ThdContext Write) : Except Error Unit × ThdContext Write :=
  if !context.hasTx then (.ok (), context)
  else
    let (result, session) := context.session.rollback calls
    (result, { context with session, hasTx := false, marks := [] })

/-- `on_tx`. -/
def onTx {α : Type} (f : ThdContext Write → Except Error α × ThdContext Write) (context : ThdContext Write) :
    Except Error α × ThdContext Write :=
  if context.session.inTransaction then f context else (.error .transactionEnded, context)

def runSql (statement : Statement) (calls : Calls Write) (context : ThdContext Write) :
    Except Error Int64 × ThdContext Write :=
  let (result, session) := context.session.run statement calls
  (result, { context with session })

/-- `query_via`. -/
def queryVia (statement : Statement) (calls : Calls Write) (context : ThdContext Write) :
    Except Error Int64 × ThdContext Write :=
  if context.hasTx then context.onTx (runSql statement calls) else context.runSql statement calls

/-- The engine runs a savepoint statement it reads: the savepoints and writes it
leaves, unless it refuses. -/
def savepointAnswer (newerStay : Bool) (verb : Verb) (name : List Char) (result : Except Error Int64)
    (log : Checkpoints.Log (List Char) Write) : Except Error (Checkpoints.Log (List Char) Write) := do
  let _ ← result
  match verb.run newerStay name log with
  | none => .error (.engine "savepoint does not exist")
  | some left => .ok left

def runSavepoint (newerStay : Bool) (verb : Verb) (name : List Char) (calls : Calls Write)
    (context : ThdContext Write) : Except Error Unit × ThdContext Write :=
  let answer := savepointAnswer newerStay verb name calls.execution.result context.log
  let left := answer.toOption.getD context.log
  let execution := { result := answer.map fun _ => (0 : Int64), writes := [], keep := left.writes.length }
  let (result, session) := context.session.run (verb.statement name) { calls with execution }
  (result.map fun _ => (), { context with session, marks := if result.isOk then left.marks else context.marks })

def execSavepointSql (newerStay : Bool) (verb : Verb) (slot : SavepointSlot) (calls : Calls Write) :
    ThdContext Write → Except Error Unit × ThdContext Write :=
  onTx fun context =>
    match readSavepoint (savepointSql verb slot) with
    | none => (.error (.engine "syntax error"), context)
    | some (verb, name) => context.runSavepoint newerStay verb name calls

/-- `register_trx`; `explicit` is OPTION_NOT_AUTOCOMMIT or OPTION_BEGIN. -/
def registerTrx (explicit : Bool) (isolation : TxIsolation) (calls : Calls Write) (context : ThdContext Write) :
    Except Error Unit × ThdContext Write :=
  if explicit && !context.hasTx then context.begin (stoolapIsolation isolation) calls else (.ok (), context)

def startConsistentSnapshotCb (calls : Calls Write) (context : ThdContext Write) :
    Except Error Unit × ThdContext Write :=
  if context.hasTx then (.ok (), context) else context.begin .snapshotIsolation calls

def commitCb (all explicit : Bool) (statement tx : Calls Write) (context : ThdContext Write) :
    Except Error Unit × ThdContext Write :=
  match context.session.endStatement true statement with
  | (.error error, session) => (.error error, { context with session })
  | (.ok (), session) =>
      if !(all || !explicit) || !context.hasTx then (.ok (), { context with session })
      else { context with session }.commit tx

/-- A failed end of the statement is only logged. -/
def rollbackCb (all explicit : Bool) (statement tx : Calls Write) (context : ThdContext Write) :
    Except Error Unit × ThdContext Write :=
  let (_, session) := context.session.endStatement false statement
  if !(all || !explicit) || !context.hasTx then (.ok (), { context with session })
  else { context with session }.rollback tx

def savepointSetCb (newerStay : Bool) (calls : Calls Write) (context : ThdContext Write) :
    Except Error Unit × ThdContext Write :=
  if !context.hasTx then (.error (.internal "SAVEPOINT without an active tx"), context)
  else
    let id := context.nextSavepointId + 1
    { context with nextSavepointId := id }.execSavepointSql newerStay .savepoint (formatSavepointSlot id) calls

/-- A savepoint is gone with its transaction. -/
def savepointReleaseCb (newerStay : Bool) (slot : SavepointSlot) (calls : Calls Write) (context : ThdContext Write) :
    Except Error Unit × ThdContext Write :=
  if !context.hasTx then (.ok (), context) else context.execSavepointSql newerStay .releaseSavepoint slot calls

def savepointRollbackCb (newerStay : Bool) (slot : SavepointSlot) (calls : Calls Write) (context : ThdContext Write) :
    Except Error Unit × ThdContext Write :=
  if !context.hasTx then (.ok (), context) else context.execSavepointSql newerStay .rollbackToSavepoint slot calls

/-- `~ThdContext`, which drops the session last. -/
def drop (statement tx : Calls Write) (context : ThdContext Write) : Database Write :=
  let (_, context) := context.rollback tx
  let (_, session) := context.session.endStatement false statement
  match session.exec with
  | none => session.db
  | some left => (session.db.rollback left tx).2

end ThdContext

/-- SQL the plugin runs beside savepoints. -/
inductive Dml where
  | select
  | insert
  | update
  | delete

def Dml.statement : Dml → Statement
  | .select => .select
  | .insert => .insert
  | .update => .update
  | .delete => .delete

/-- What MariaDB calls on an open connection, and what its handlers' calls do to
the session; with what the engine answers. `bulkBegin` and `bulkRollback` are
of a bulk INSERT through SQL. -/
inductive Event (Write : Type) where
  | externalLock (explicit : Bool) (isolation : TxIsolation) (calls : Calls Write)
  | startConsistentSnapshot (calls : Calls Write)
  | query (dml : Dml) (calls : Calls Write)
  | read (table : String) (f : Except Error Int64) (calls : Calls Write)
  | write (table : String) (f : Except Error Int64 × List Write) (calls : Calls Write)
  | bulkBegin (calls : Calls Write)
  | bulkRollback (calls : Calls Write)
  | commit (all explicit : Bool) (statement tx : Calls Write)
  | rollback (all explicit : Bool) (statement tx : Calls Write)
  | savepointSet (calls : Calls Write)
  | savepointRelease (slot : SavepointSlot) (calls : Calls Write)
  | savepointRollback (slot : SavepointSlot) (calls : Calls Write)

inductive Call (Write : Type) where
  | on (event : Event Write)
  | closeConnection (statement tx : Calls Write)

/-- Without a context COMMIT and ROLLBACK have nothing to do. -/
def Event.makesContext : Event Write → Bool
  | .commit .. | .rollback .. => false
  | _ => true

def Event.run (newerStay : Bool) (context : ThdContext Write) : Event Write → Except Error Unit × ThdContext Write
  | .externalLock explicit isolation calls => context.registerTrx explicit isolation calls
  | .startConsistentSnapshot calls => context.startConsistentSnapshotCb calls
  | .query dml calls =>
      let (result, context) := context.queryVia dml.statement calls
      (result.map fun _ => (), context)
  | .read table f calls =>
      let (result, session) := context.session.withTable table f calls
      (result.map fun _ => (), { context with session })
  | .write table f calls =>
      let (result, session) := context.session.withWriteTable table f calls
      (result.map fun _ => (), { context with session })
  | .bulkBegin calls => if context.hasTx then (.ok (), context) else context.begin .readCommitted calls
  | .bulkRollback calls => if context.hasTx then context.rollback calls else (.ok (), context)
  | .commit all explicit statement tx => context.commitCb all explicit statement tx
  | .rollback all explicit statement tx => context.rollbackCb all explicit statement tx
  | .savepointSet calls => context.savepointSetCb newerStay calls
  | .savepointRelease slot calls => context.savepointReleaseCb newerStay slot calls
  | .savepointRollback slot calls => context.savepointRollbackCb newerStay slot calls

/-- Connections on one engine. What is durable is the same for all; the
transactions a session has begun are its own. -/
structure World (Write : Type) where
  tables : List String
  foreignKeys : List ForeignKey
  committed : List Write
  contexts : Nat → Option (ThdContext Write)

namespace World

def database (world : World Write) : Database Write where
  tables := world.tables
  foreignKeys := world.foreignKeys
  committed := world.committed
  pending _ := []
  nextTx := 0
  ended := []

/-- `get_thd_ctx`, on what is durable now. -/
def context (world : World Write) (connection : Nat) : ThdContext Write :=
  ((world.contexts connection).getD (.new world.database)).onto world.committed

def run (newerStay : Bool) (world : World Write) (connection : Nat) : Call Write → Except Error Unit × World Write
  | .on event =>
      if !event.makesContext && (world.contexts connection).isNone then (.ok (), world)
      else
        let (result, context) := event.run newerStay (world.context connection)
        (result, { world with
          committed := context.session.db.committed
          contexts := Function.update world.contexts connection (some context) })
  | .closeConnection statement tx =>
      if (world.contexts connection).isNone then (.ok (), world)
      else
        (.ok (), { world with
          committed := ((world.context connection).drop statement tx).committed
          contexts := Function.update world.contexts connection none })

def step (newerStay : Bool) (world : World Write) (call : Nat × Call Write) : World Write :=
  (world.run newerStay call.1 call.2).2

end World

end StoolapMariadb.Transaction
