import StoolapMariadb.Transaction.Connection

namespace StoolapMariadb.Transaction

/-! What the transactions of connections come to: a ledger of what is durable
and what each connection still holds. The plugin's callbacks are its entries. -/

open StoolapMariadb.Session Checkpoints

variable {Write : Type}

/-- What a statement wrote outside a transaction, what the open transaction
holds with its savepoints, and the last savepoint's id. -/
structure Account (Write : Type) where
  own : List Write
  held : Option (Stack Nat Write)
  lastSavepoint : Nat

def Account.empty : Account Write := ⟨[], none, 0⟩

inductive Action (Write : Type) where
  | statementEnds (kept : Bool)
  | begins
  | commits (done : Bool)
  | discards
  | writes (writes : List Write)
  | autocommits (writes : List Write)
  | saves (done : Bool)
  | restores (id : Nat)
  | releases (id : Nat)
  | leaves

/-- An account and what is durable for all. -/
def act (newerStay : Bool) : List Write × Account Write → Action Write → List Write × Account Write
  | (durable, account), .statementEnds kept =>
      (durable ++ if kept then account.own else [], { account with own := [] })
  | (durable, account), .begins => (durable, { account with held := some ⟨[], []⟩ })
  | (durable, account), .commits done =>
      (durable ++ if done then (account.held.map Stack.writes).getD [] else [], { account with held := none })
  | (durable, account), .discards => (durable, { account with held := none })
  | (durable, account), .writes writes =>
      match account.held with
      | none => (durable, { account with own := account.own ++ writes })
      | some stack => (durable, { account with held := some (stack.write writes) })
  | (durable, account), .autocommits writes => (durable ++ writes, account)
  | (durable, account), .saves done =>
      let id := account.lastSavepoint + 1
      (durable, { account with
        lastSavepoint := id
        held := account.held.map fun stack => if done then stack.save id else stack })
  | (durable, account), .restores id =>
      (durable, { account with held := account.held.map fun stack => (stack.restore id).getD stack })
  | (durable, account), .releases id =>
      (durable, { account with held := account.held.map fun stack => (stack.release newerStay id).getD stack })
  | (durable, _), .leaves => (durable, .empty)

structure Ledger (Write : Type) where
  durable : List Write
  accounts : Nat → Account Write

def Ledger.step (newerStay : Bool) (ledger : Ledger Write) (entry : Nat × List (Action Write)) : Ledger Write :=
  let (durable, account) := entry.2.foldl (act newerStay) (ledger.durable, ledger.accounts entry.1)
  { durable, accounts := Function.update ledger.accounts entry.1 account }

section Actions

/-- The engine took a savepoint statement. -/
def accepted (calls : Calls Write) : Bool := calls.planFault.isNone && calls.execution.result.isOk

/-- BEGIN ends the statement's own transaction first. -/
def ThdContext.begins (level : IsolationLevel) (calls : Calls Write) (context : ThdContext Write) :
    List (Action Write) :=
  if context.hasTx then []
  else
    .statementEnds calls.commitFault.isNone :: if (context.begin level calls).1.isOk then [.begins] else []

/-- What a call amounts to. COMMIT and ROLLBACK are real for a transaction of
several statements only with `all`; a ROLLBACK of one of its statements alone
takes nothing back. -/
def Event.actions (context : ThdContext Write) : Event Write → List (Action Write)
  | .externalLock explicit isolation calls =>
      if explicit then context.begins (stoolapIsolation isolation) calls else []
  | .startConsistentSnapshot calls => context.begins .snapshotIsolation calls
  | .query dml calls =>
      if !dml.statement.mayWrite || calls.planFault.isSome then []
      else if context.hasTx then [.writes calls.execution.writes]
      else [.autocommits (writtenBy calls.execution.result calls.execution.writes)]
  | .read _ _ _ => []
  | .write table f calls => [.writes (made context.session (.withWriteTable table f, calls))]
  | .bulkBegin calls => context.begins .readCommitted calls
  | .bulkRollback _ => if context.hasTx then [.discards] else []
  | .commit all explicit statement tx =>
      .statementEnds statement.commitFault.isNone ::
        if (all || !explicit) && context.hasTx then [.commits tx.commitFault.isNone] else []
  | .rollback all explicit _ _ =>
      .statementEnds false :: if (all || !explicit) && context.hasTx then [.discards] else []
  | .savepointSet calls => if context.hasTx then [.saves (accepted calls)] else []
  | .savepointRelease slot calls => if context.hasTx && accepted calls then [.releases slot.id.toNat] else []
  | .savepointRollback slot calls => if context.hasTx && accepted calls then [.restores slot.id.toNat] else []

def Call.actions (context : ThdContext Write) : Call Write → List (Action Write)
  | .on event => event.actions context
  | .closeConnection _ _ => [.leaves]

/-- The entries of a run of calls, of all connections in the order of the
calls. -/
def World.entries (newerStay : Bool) : World Write → List (Nat × Call Write) → List (Nat × List (Action Write))
  | _, [] => []
  | world, (connection, call) :: calls =>
      (connection, call.actions (world.context connection)) ::
        (world.step newerStay (connection, call)).entries newerStay calls

end Actions

end StoolapMariadb.Transaction
