import Mathlib.Algebra.Group.Int.Defs
import Mathlib.Logic.Function.Basic

namespace StoolapMariadb.RecordCount

/-! The record counts of one table: each handler keeps one, each connection
one for its transaction, and the engine one for all connections. -/

abbrev SessionId := Nat

abbrev HandlerId := Nat

/-- A transaction as far as none of it is rolled back: what follows a rollback
to a savepoint is another span. -/
abbrev Span := Nat

/-- Rows inserted (`delta` positive) or deleted by a session. -/
structure Write where
  session : SessionId
  serial : Nat
  delta : Int64
deriving DecidableEq

/-- `n > 0 ? n : 0` of the rows the writes leave. -/
def rowCount (writes : List Write) : UInt64 :=
  UInt64.ofNat (writes.foldr (fun (write : Write) rows => write.delta.toInt + rows) 0).toNat

/-- A count adjusted by `delta`, unless it runs out of its range. -/
def adjustValue (value : UInt64) (delta : Int64) : Option UInt64 :=
  if delta < 0 then
    let dec := (-(delta + 1)).toUInt64 + 1
    if dec > value then none else some (value - dec)
  else
    let inc := delta.toUInt64
    if inc > 0xffffffffffffffff - value then none else some (value + inc)

/-- How a count came about. What the caches hold is its `value`, which the
constructor's arguments make up. -/
inductive Count where
  /-- Of no row: a new handler's, an emptied table's, `info`'s placeholder. -/
  | known (value : UInt64)
  /-- `COUNT(*)` over what is committed and what the transaction at hand wrote. -/
  | live (committed : List Write) (span : Option Span) (pending : List Write)
  /-- A count with a write of the open transaction added in. -/
  | adjusted (count : Count) (span : Option Span) (write : Write)

def Count.value : Count → UInt64
  | known value => value
  | live committed _ pending => rowCount (committed ++ pending)
  | adjusted count _ write => (adjustValue count.value write.delta).getD 0

/-- The writes counted after their commit. -/
def Count.committed : Count → List Write
  | known _ => []
  | live committed _ _ => committed
  | adjusted count _ _ => count.committed

/-- The writes counted before it, with the transaction they were counted in. -/
def Count.taken : Count → List (Option Span × Write)
  | known _ => []
  | live _ span pending => pending.map fun write => (span, write)
  | adjusted count span write => count.taken ++ [(span, write)]

def Count.adjust (count : Count) (span : Option Span) (write : Write) : Option Count :=
  (adjustValue count.value write.delta).map fun _ => .adjusted count span write

structure Handler where
  cached : Count
  cachedValid : Bool
  stats : Count

/-- A connection: whether a transaction is open, what the session's live
transaction (the open one or the statement's own) wrote and reads, and
`record_counts_` and `dirty_record_tables_`. -/
structure Connection where
  hasTx : Bool
  span : Option Span
  pending : List Write
  snapshot : Option (List Write)
  counts : Option Count
  dirty : Bool

/-- `committed` is what the table holds, `history` every write committed since
the start; `ended` are the spans that ended in a commit. -/
structure State where
  committed : List Write
  history : List Write
  rolledBack : List Write
  ended : List (Span × SessionId)
  connections : SessionId → Connection
  handlers : HandlerId → Handler
  records : Option Count
  nextSpan : Span
  nextWrite : Nat

def newHandler : Handler := { cached := .known 0, cachedValid := false, stats := .known 0 }

def newConnection : Connection :=
  { hasTx := false, span := none, pending := [], snapshot := none, counts := none, dirty := false }

def initial : State :=
  { committed := [], history := [], rolledBack := [], ended := [], connections := fun _ => newConnection,
    handlers := fun _ => newHandler, records := none, nextSpan := 0, nextWrite := 0 }

def State.setConnection (state : State) (s : SessionId) (connection : Connection) : State :=
  { state with connections := Function.update state.connections s connection }

def State.setHandler (state : State) (h : HandlerId) (handler : Handler) : State :=
  { state with handlers := Function.update state.handlers h handler }

/-- The session's live transaction ends. -/
def State.finish (state : State) (s : SessionId) (commit : Bool) : State :=
  let connection := state.connections s
  let closed := { connection with hasTx := false, span := none, pending := [], snapshot := none }
  if commit then
    { state.setConnection s closed with
      committed := state.committed ++ connection.pending
      history := state.history ++ connection.pending
      ended := connection.span.toList.map (fun span => (span, s)) ++ state.ended }
  else
    { state.setConnection s closed with rolledBack := state.rolledBack ++ connection.pending }

/-- `ThdContext::end_statement`. -/
def State.endStatement (state : State) (s : SessionId) (commit fault : Bool) : Bool × State :=
  if (state.connections s).hasTx || (state.connections s).span.isNone then (true, state)
  else (!fault, state.finish s (commit && !fault))

/-- The session's transaction goes on in a span of its own. -/
def State.opened (state : State) (s : SessionId) (connection : Connection) : State :=
  { state.setConnection s { connection with span := some state.nextSpan } with nextSpan := state.nextSpan + 1 }

/-- `ThdContext::begin`: BEGIN ends the statement's own transaction. -/
def State.begin (state : State) (s : SessionId) (snapshot endFault beginFault : Bool) : Bool × State :=
  if (state.connections s).hasTx then (true, state)
  else
    match state.endStatement s true endFault with
    | (false, state) => (false, state)
    | (true, state) =>
        if beginFault then (false, state)
        else
          (true,
            state.opened s
              { state.connections s with
                hasTx := true, snapshot := if snapshot then some state.committed else none, counts := none })

def State.invalidateDirtyRecords (state : State) (s : SessionId) : State :=
  let connection := state.connections s
  let cleared := state.setConnection s { connection with dirty := false }
  if connection.dirty then { cleared with records := none } else cleared

/-- `ThdContext::commit` and `rollback`. -/
def State.endTx (state : State) (s : SessionId) (commit : Bool) : State :=
  if (state.connections s).hasTx then
    let ended := (state.finish s commit).invalidateDirtyRecords s
    ended.setConnection s { ended.connections s with counts := none }
  else state

/-- The commit and rollback callbacks, `real` at the end of the transaction. -/
def State.endCallback (state : State) (s : SessionId) (commit real fault : Bool) : State :=
  match state.endStatement s commit fault with
  | (false, state) => if commit then state else if real then state.endTx s false else state
  | (true, state) => if real then state.endTx s (commit && !fault) else state

/-- The savepoint rollback callback: the engine keeps the first `keep` writes. -/
def State.rollbackTo (state : State) (s : SessionId) (keep : Nat) (fault : Bool) : State :=
  let connection := state.connections s
  if !connection.hasTx || fault then state
  else
    { state.opened s { connection with pending := connection.pending.take keep } with
      rolledBack := state.rolledBack ++ connection.pending.drop keep }.invalidateDirtyRecords s

/-- `invalidate_records_cache`. -/
def State.invalidateRecordsCache (state : State) (s : SessionId) (h : HandlerId) : State :=
  let dropped := state.setHandler h { state.handlers h with cachedValid := false }
  if (state.connections s).hasTx then
    dropped.setConnection s { state.connections s with dirty := true, counts := none }
  else { dropped with records := none }

/-- `adjust_records_cache` for a write of the session's. -/
def State.adjustRecordsCache (state : State) (s : SessionId) (h : HandlerId) (write : Write) : State :=
  let connection := state.connections s
  let handler := state.handlers h
  if connection.hasTx then
    let adjusted := connection.counts.bind fun count =>
      if write.delta = 0 then some count else count.adjust connection.span write
    if handler.cachedValid then
      match handler.cached.adjust connection.span write with
      | none =>
          (state.setHandler h { handler with cachedValid := false }).setConnection s
            { connection with dirty := true, counts := none }
      | some count =>
          (state.setHandler h { handler with cached := count, stats := count }).setConnection s
            { connection with dirty := true, counts := adjusted }
    else state.setConnection s { connection with dirty := true, counts := adjusted }
  else { state.setHandler h { handler with cachedValid := false } with records := none }

/-- The session's live transaction, begun if there is none, holds the write. -/
def State.hold (state : State) (write : Write) : State :=
  let connection := state.connections write.session
  { state.setConnection write.session
      { connection with
        pending := connection.pending ++ [write], span := some (connection.span.getD state.nextSpan) } with
    nextSpan := state.nextSpan + 1
    nextWrite := state.nextWrite + 1 }

/-- A write goes to the session's live transaction, or with none open and
`atOnce`, through SQL, is durable by itself. -/
def State.store (state : State) (write : Write) (atOnce : Bool) : State :=
  let connection := state.connections write.session
  if atOnce && !connection.hasTx then
    { state with
      committed := state.committed ++ [write]
      history := state.history ++ [write]
      nextWrite := state.nextWrite + 1 }
  else state.hold write

/-- An insert or delete that the engine takes, and `apply_count_delta`. -/
def State.write (state : State) (s : SessionId) (h : HandlerId) (delta : Int64) (atOnce : Bool) : State :=
  let write := { session := s, serial := state.nextWrite, delta }
  (state.store write atOnce).adjustRecordsCache s h write

/-- A count becomes the handler's own. -/
def State.keep (state : State) (h : HandlerId) (count : Count) : State :=
  state.setHandler h { cached := count, cachedValid := true, stats := count }

/-- `set_count_exact(0)` after a TRUNCATE, which runs outside a transaction. -/
def State.truncate (state : State) (h : HandlerId) : State :=
  { state.keep h (.known 0) with committed := [], records := some (.known 0) }

/-- The count the caches hold beside the handler's: the transaction's inside
one, the engine's outside. -/
def State.shared (state : State) (s : SessionId) : Option Count :=
  if (state.connections s).hasTx then (state.connections s).counts else state.records

/-- What the engine answers in one `cached_records`. -/
structure Faults where
  endFault : Bool
  beginFault : Bool
  countFault : Bool

/-- `register_trx` as `cached_records` runs it: in autocommit mode it begins
nothing. -/
def State.registerTrx (state : State) (s : SessionId) (explicit snapshot : Bool) (faults : Faults) :
    Bool × State :=
  if explicit then state.begin s snapshot faults.endFault faults.beginFault else (true, state)

/-- The live COUNT, which a transaction keeps too. -/
def State.countRows (state : State) (s : SessionId) (h : HandlerId) : Count × State :=
  let connection := state.connections s
  let count := .live (connection.snapshot.getD state.committed) connection.span connection.pending
  let kept := state.keep h count
  (count, if connection.hasTx then kept.setConnection s { connection with counts := some count } else kept)

/-- `cached_records`. -/
def State.cachedRecords (state : State) (s : SessionId) (h : HandlerId) (explicit snapshot : Bool)
    (faults : Faults) : Count × State :=
  if (state.handlers h).cachedValid then ((state.handlers h).cached, state)
  else
    match state.registerTrx s explicit snapshot faults with
    | (false, state) => ((state.handlers h).stats, state)
    | (true, state) =>
        match state.shared s with
        | some count => (count, state.keep h count)
        | none =>
            if faults.countFault then ((state.handlers h).stats, state) else state.countRows s h

/-- `info` refreshes `stats.records` from the caches alone. -/
def State.refreshed (state : State) (s : SessionId) (h : HandlerId) : State :=
  if (state.handlers h).cachedValid then
    state.setHandler h { state.handlers h with stats := (state.handlers h).cached }
  else
    match state.shared s with
    | some count => state.keep h count
    | none => state

/-- `info` with `HA_STATUS_VARIABLE`. -/
def State.info (state : State) (s : SessionId) (h : HandlerId) : State :=
  let refreshed := state.refreshed s h
  if (refreshed.handlers h).stats.value = 0 then
    refreshed.setHandler h { refreshed.handlers h with stats := .known 1000 }
  else refreshed

/-- A connection closed: its transaction is rolled back. -/
def State.disconnect (state : State) (s : SessionId) : State :=
  ((state.finish s false).invalidateDirtyRecords s).setConnection s newConnection

inductive Op where
  | begin (s : SessionId) (snapshot endFault beginFault : Bool)
  | write (s : SessionId) (h : HandlerId) (delta : Int64) (atOnce : Bool)
  | writeFailed (s : SessionId) (h : HandlerId)
  | count (s : SessionId) (h : HandlerId) (explicit snapshot : Bool) (faults : Faults)
  | info (s : SessionId) (h : HandlerId)
  | endTx (s : SessionId) (commit real fault : Bool)
  | rollbackTo (s : SessionId) (keep : Nat) (fault : Bool)
  | truncate (h : HandlerId)
  | reset (h : HandlerId)
  | reopen (h : HandlerId)
  | disconnect (s : SessionId)

/-- `reset` keeps the handler's count; a handler opened anew has none. -/
def step (state : State) : Op → State
  | .begin s snapshot endFault beginFault => (state.begin s snapshot endFault beginFault).2
  | .write s h delta atOnce => state.write s h delta atOnce
  | .writeFailed s h => state.invalidateRecordsCache s h
  | .count s h explicit snapshot faults => (state.cachedRecords s h explicit snapshot faults).2
  | .info s h => state.info s h
  | .endTx s commit real fault => state.endCallback s commit real fault
  | .rollbackTo s keep fault => state.rollbackTo s keep fault
  | .truncate h => state.truncate h
  | .reset _ => state
  | .reopen h => state.setHandler h newHandler
  | .disconnect s => state.disconnect s

end StoolapMariadb.RecordCount
