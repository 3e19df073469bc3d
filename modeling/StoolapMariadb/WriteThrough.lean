import StoolapMariadb.SqlWrite
import Mathlib.Data.List.Perm.Basic

namespace StoolapMariadb.WriteThrough

/-! The row pump's UPDATE and DELETE. A row goes through the table's write
handle, into the statement's own transaction, or through SQL, which
autocommits. -/

open StoolapMariadb.Session

variable {Write : Type}

/-- `direct` on the write handle, or `sql` for a table a foreign key names or
a row named by its key. -/
def writeThrough (table : String) (byKey : Bool) (direct : Except Error Int64 × List Write)
    (sql : Session Write → Except Error Int64 × Session Write) (calls : Calls Write)
    (session : Session Write) : Except Error Int64 × Session Write :=
  if byKey then sql session
  else
    match session.withWriteTable table direct calls with
    | (.error error, session) => (.error error, session)
    | (.ok (some count), session) => (.ok count, session)
    | (.ok none, session) => sql session

/-- What a row write finds in the record and the engine: the change of the row,
whether the row's id is known, the errors of encoding its values for either
way, what the direct write returns and what it leaves behind when it fails. -/
structure RowWrite (Write : Type) where
  change : Write
  rowIdValid : Bool
  directEncode : Option Error
  sqlEncode : Option Error
  key : List String
  direct : Except Error Int64
  directLeft : List Write
  calls : Calls Write

/-- The change is made when the write says it touched a row. -/
def rowWrites (result : Except Error Int64) (change : Write) : List Write :=
  match result with
  | .ok count => if count = 0 then [] else [change]
  | .error _ => []

/-- `write::update` and `write::delete` on the handle. -/
def RowWrite.directWrite (write : RowWrite Write) : Except Error Int64 × List Write :=
  match write.direct with
  | .ok count => (.ok count, rowWrites (.ok count) write.change)
  | .error error => (.error error, write.directLeft)

/-- The engine's answers to the write's SQL statement. -/
def RowWrite.sqlCalls (write : RowWrite Write) : Calls Write :=
  let execution := write.calls.execution
  { write.calls with execution := { execution with writes := rowWrites execution.result write.change } }

/-- `update_row` and `delete_row` calls; `changed` when a written column's
value differs. -/
inductive RowCall (Write : Type) where
  | update (changed : Bool) (write : RowWrite Write)
  | delete (write : RowWrite Write)

inductive HandlerError where
  | recordDeleted
  | failed (error : Error)
deriving DecidableEq

/-- A step that needs the record's values first. -/
def encoded {α : Type} (fault : Option Error) (state : α) (next : Except Error Int64 × α) :
    Except Error Int64 × α :=
  match fault with
  | some error => (.error error, state)
  | none => next

/-- `stoolap_update_record`. -/
def updateRecord (table : String) (changed : Bool) (write : RowWrite Write) (session : Session Write) :
    Except Error Int64 × Session Write :=
  if !changed then (.ok 1, session)
  else
    writeThrough table (!write.rowIdValid) (encoded write.directEncode [] write.directWrite)
      (fun session => encoded write.sqlEncode session (SqlWrite.update write.key write.sqlCalls session))
      write.calls session

/-- `stoolap_delete_record`. -/
def deleteRecord (table : String) (write : RowWrite Write) (session : Session Write) :
    Except Error Int64 × Session Write :=
  writeThrough table (!write.rowIdValid) write.directWrite
    (fun session => encoded write.sqlEncode session (SqlWrite.delete write.key write.sqlCalls session))
    write.calls session

/-- The handler's answer to a count of rows: a row that is gone fails. -/
def answer (result : Except Error Int64) : Except HandlerError Unit :=
  match result with
  | .error error => .error (.failed error)
  | .ok count => if count = 0 then .error .recordDeleted else .ok ()

/-- `ha_stoolap::update_row` and `delete_row`. -/
def rowCall (table : String) (call : RowCall Write) (session : Session Write) :
    Except HandlerError Unit × Session Write :=
  let (result, session) :=
    match call with
    | .update changed write => updateRecord table changed write session
    | .delete write => deleteRecord table write session
  (answer result, session)

/-- The calls of a statement; whether all succeeded. -/
def rowCalls (table : String) : List (RowCall Write) → Session Write → Bool × Session Write
  | [], session => (true, session)
  | call :: calls, session =>
      let (first, session) := rowCall table call session
      let (rest, session) := rowCalls table calls session
      (first.isOk && rest, session)

/-- An autocommit statement: its row calls and its end. -/
def statement (table : String) (calls : List (RowCall Write)) (finish : Calls Write)
    (session : Session Write) : Bool × Session Write :=
  let (succeeded, session) := rowCalls table calls session
  let (ended, session) := session.endStatement succeeded finish
  (succeeded && ended.isOk, session)

def RowCall.write : RowCall Write → RowWrite Write
  | .update _ write => write
  | .delete write => write

/-- The row change a call makes when it succeeds. -/
def RowCall.changes : RowCall Write → List Write
  | .update changed write => if changed then [write.change] else []
  | .delete write => [write.change]

/-- The call goes through SQL. -/
def RowCall.throughSql (table : String) (session : Session Write) (call : RowCall Write) : Bool :=
  !call.write.rowIdValid || session.db.namesTable table

section Answers

/-- A write that returns a count of rows that is not 0. -/
def counts : Except Error Int64 → Bool
  | .ok count => count ≠ 0
  | .error _ => false

/-- The row's values encode, its key names it, and the engine takes its SQL
statement. -/
def RowWrite.sqlTaken (write : RowWrite Write) : Bool :=
  write.sqlEncode.isNone && !write.key.isEmpty && write.calls.planFault.isNone && counts write.calls.execution.result

/-- The engine takes its direct write. -/
def RowCall.directTaken : RowCall Write → Bool
  | .update _ write => write.directEncode.isNone && counts write.direct
  | .delete write => counts write.direct

/-- There is nothing to write. -/
def RowCall.idle : RowCall Write → Bool
  | .update changed _ => !changed
  | .delete _ => false

/-- What the statement has by now: a transaction of its own, the table's write
handle, and whether it asked for one. -/
structure Access where
  begun : Bool
  opened : Bool
  wrote : Bool

def access (table : String) (session : Session Write) : Access where
  begun := session.stmtTx.isSome
  opened := (session.writeTables.lookup table).isSome
  wrote := session.stmtWrote

/-- The write handle is asked for; `stored` when the engine has the table. -/
def Access.ask (stored : Bool) (calls : Calls Write) (access : Access) : Access :=
  if access.opened || (!access.begun && calls.beginFault.isSome) then { access with wrote := true }
  else { begun := true, opened := stored && calls.tableFault.isNone, wrote := true }

/-- The end of a statement whose calls all succeeded goes well. -/
def Access.ends (finish : Calls Write) (access : Access) : Bool :=
  !access.begun || (if access.wrote then finish.commitFault.isNone else finish.rollbackFault.isNone)

def RowCall.next (stored : Bool) (call : RowCall Write) (access : Access) : Access :=
  if call.idle || !call.write.rowIdValid then access else access.ask stored call.write.calls

/-- The engine takes the call's change, by the way it goes; `named` when a
foreign key names the table. -/
def RowCall.taken (stored named : Bool) (call : RowCall Write) (access : Access) : Bool :=
  if call.idle then true
  else if !call.write.rowIdValid then call.write.sqlTaken
  else (access.ask stored call.write.calls).opened && if named then call.write.sqlTaken else call.directTaken

def allTaken (stored named : Bool) : List (RowCall Write) → Access → Bool
  | [], _ => true
  | call :: calls, access => call.taken stored named access && allTaken stored named calls (call.next stored access)

/-- The changes the engine takes through SQL. -/
def takenBySql (stored named : Bool) : List (RowCall Write) → Access → List Write
  | [], _ => []
  | call :: calls, access =>
      (if call.taken stored named access && (!call.write.rowIdValid || named) then call.changes else []) ++
        takenBySql stored named calls (call.next stored access)

def lastAccess (stored : Bool) (calls : List (RowCall Write)) (access : Access) : Access :=
  calls.foldl (fun access call => call.next stored access) access

/-- Every call is taken and the end goes well, or no change is taken through
SQL. -/
def OneTransaction (table : String) (calls : List (RowCall Write)) (finish : Calls Write)
    (session : Session Write) : Prop :=
  let stored := session.db.tables.contains table
  let named := session.db.namesTable table
  (allTaken stored named calls (access table session) = true ∧
      (lastAccess stored calls (access table session)).ends finish = true) ∨
    takenBySql stored named calls (access table session) = []

end Answers

section Atomicity

variable {session : Session Write} {table : String} {change : Write}

/-- What a row write by SQL does: the change is durable when it counts a row. -/
structure SqlEffect (change : Write) (before : Session Write)
    (result : Except Error Int64 × Session Write) : Prop where
  outside : Outside result.2
  direct : result.2.directWrites = before.directWrites
  keys : result.2.db.foreignKeys = before.db.foreignKeys
  committed : result.2.db.committed = before.db.committed ++ rowWrites result.1 change

theorem SqlEffect.refused (outside : Outside session) (error : Error) :
    SqlEffect change session (.error error, session) :=
  ⟨outside, rfl, rfl, by simp [rowWrites]⟩

theorem run_sqlEffect (outside : Outside session) (statement : Statement)
    (writes : statement.mayWrite = true) (write : RowWrite Write) :
    SqlEffect write.change session (session.run statement write.sqlCalls) := by
  obtain ⟨after, direct, keys, committed, counted⟩ := run_outside outside statement writes write.sqlCalls
  refine ⟨after, direct, keys, committed.trans ?_⟩
  cases result : (session.run statement write.sqlCalls).1 with
  | error error => rfl
  | ok count =>
      have executed : write.calls.execution.result = .ok count := counted count result
      simp only [writtenBy, RowWrite.sqlCalls, executed]

theorem encoded_sqlEffect (outside : Outside session) (fault : Option Error)
    {result : Except Error Int64 × Session Write} (effect : SqlEffect change session result) :
    SqlEffect change session (encoded fault session result) := by
  cases fault with
  | none => exact effect
  | some error => exact .refused outside error

theorem update_sqlEffect (outside : Outside session) (write : RowWrite Write) :
    SqlEffect write.change session (SqlWrite.update write.key write.sqlCalls session) := by
  unfold SqlWrite.update
  split
  · exact .refused outside _
  · exact run_sqlEffect outside _ rfl write

theorem delete_sqlEffect (outside : Outside session) (write : RowWrite Write) :
    SqlEffect write.change session (SqlWrite.delete write.key write.sqlCalls session) := by
  unfold SqlWrite.delete
  split
  · exact .refused outside _
  · exact run_sqlEffect outside _ rfl write

/-- A row write's effect, by the way it took: durable at once, or held with
the statement's direct writes. -/
structure RowEffect (bySql : Bool) (writes : List Write) (succeeded : Bool) (before after : Session Write)
    (direct : List Write) : Prop where
  outside : Outside after
  keys : after.db.foreignKeys = before.db.foreignKeys
  committed : after.db.committed =
    before.db.committed ++ if succeeded && bySql then writes else []
  held : after.directWrites = before.directWrites ++ direct
  whole : succeeded = true → (if bySql then writes else []) ++ direct = writes

/-- What a direct write comes to outside a transaction: it fails and may leave
writes with the statement's, it is done, or the table's writes go through
SQL. -/
theorem withWriteTable_cases (outside : Outside session) (table : String)
    (direct : Except Error Int64 × List Write) (calls : Calls Write) :
    ∃ after, Outside after ∧ after.db.foreignKeys = session.db.foreignKeys ∧
      after.db.committed = session.db.committed ∧
      ((∃ error left, session.withWriteTable table direct calls = (.error error, after) ∧
          after.directWrites = session.directWrites ++ left) ∨
        (∃ count, session.withWriteTable table direct calls = (.ok (some count), after) ∧
          session.db.namesTable table = false ∧ direct.1 = .ok count ∧
          after.directWrites = session.directWrites ++ direct.2) ∨
        session.withWriteTable table direct calls = (.ok none, after) ∧
          session.db.namesTable table = true ∧ after.directWrites = session.directWrites) := by
  obtain ⟨consistent, sameOpen, committed, written⟩ := withWriteTable_spec outside.consistent calls table direct
  obtain ⟨keys, returned⟩ := withWriteTable_result calls table direct outside.consistent
  have held := written outside.closed
  refine ⟨_, ⟨consistent, sameOpen.trans outside.closed⟩, keys, committed, ?_⟩
  have whole {result : Except Error (Option Int64)} (isResult : (session.withWriteTable table direct calls).1 = result) :
      session.withWriteTable table direct calls =
        (result, (session.withWriteTable table direct calls).2) := by rw [← isResult]
  simp only [made] at held
  cases handle : (session.noteWrite.withHandle false table calls).1 with
  | error error =>
      simp only [handle] at returned held
      exact .inl ⟨error, [], whole returned, held⟩
  | ok _ =>
      simp only [handle] at returned held
      cases named : session.db.namesTable table with
      | true =>
          simp only [named, if_true, List.append_nil] at returned held
          exact .inr (.inr ⟨whole returned, rfl, held⟩)
      | false =>
          simp only [named, Bool.false_eq_true, if_false] at returned held
          cases result : direct.1 with
          | error error =>
              rw [result] at returned
              exact .inl ⟨error, direct.2, whole returned, held⟩
          | ok count =>
              rw [result] at returned
              exact .inr (.inl ⟨count, whole returned, rfl, rfl, held⟩)

theorem SqlEffect.rowEffect {result : Except Error Int64 × Session Write}
    (effect : SqlEffect change session result) :
    RowEffect true (rowWrites result.1 change) result.1.isOk session result.2 [] := by
  refine ⟨effect.outside, effect.keys, ?_, by simpa using effect.direct, fun _ => by simp⟩
  rw [effect.committed]
  cases result.1 <;> rfl

theorem encoded_writes (write : RowWrite Write) (fault : Option Error) (count : Int64)
    (result : (encoded fault [] write.directWrite).1 = .ok count) :
    (encoded fault [] write.directWrite).2 =
      rowWrites (encoded fault [] write.directWrite).1 write.change := by
  cases fault with
  | some error => cases result
  | none =>
      simp only [encoded, RowWrite.directWrite] at result ⊢
      cases returned : write.direct with
      | error error => simp [returned] at result
      | ok other => rfl

theorem writeThrough_effect (outside : Outside session) (table : String) (byKey : Bool)
    {direct : Except Error Int64 × List Write} {sql : Session Write → Except Error Int64 × Session Write}
    (calls : Calls Write) (writes : ∀ count, direct.1 = .ok count → direct.2 = rowWrites direct.1 change)
    (effect : ∀ session, Outside session → SqlEffect change session (sql session)) :
    ∃ held, RowEffect (byKey || session.db.namesTable table)
      (rowWrites (writeThrough table byKey direct sql calls session).1 change)
      (writeThrough table byKey direct sql calls session).1.isOk session
      (writeThrough table byKey direct sql calls session).2 held := by
  cases byKey with
  | true => exact ⟨[], (effect session outside).rowEffect⟩
  | false =>
      obtain ⟨after, isOutside, keys, committed, way⟩ := withWriteTable_cases outside table direct calls
      rcases way with ⟨error, left, ran, held⟩ | ⟨count, ran, unnamed, isCount, held⟩ | ⟨ran, named, held⟩
      · simp only [writeThrough, ran, Bool.false_eq_true, if_false]
        exact ⟨left, isOutside, keys, by simpa [Except.isOk, Except.toBool] using committed, held,
          fun ok => by cases ok⟩
      · simp only [writeThrough, ran, unnamed, Bool.false_eq_true, if_false, Bool.or_self]
        refine ⟨direct.2, isOutside, keys, by simpa using committed, held, fun _ => ?_⟩
        rw [writes count isCount, isCount]
        rfl
      · simp only [writeThrough, ran, named, Bool.false_eq_true, if_false, Bool.or_true]
        obtain ⟨last, lastKeys, lastCommitted, lastHeld, whole⟩ := (effect after isOutside).rowEffect
        exact ⟨[], last, lastKeys.trans keys, lastCommitted.trans (by rw [committed]),
          lastHeld.trans (by rw [held]), whole⟩

/-- A call that counts no row fails and writes nothing. -/
theorem RowEffect.answered {bySql : Bool} {result : Except Error Int64} {after : Session Write}
    {held : List Write} (effect : RowEffect bySql (rowWrites result change) result.isOk session after held) :
    RowEffect bySql [change] (answer result).isOk session after held := by
  obtain ⟨outside, keys, committed, isHeld, whole⟩ := effect
  cases result with
  | error error => exact ⟨outside, keys, committed, isHeld, fun ok => by cases ok⟩
  | ok count =>
      by_cases gone : count = 0
      · simp only [rowWrites, gone, if_true, ite_self] at committed
        simp only [answer, gone, if_true]
        exact ⟨outside, keys, committed, isHeld, fun ok => by cases ok⟩
      · simp only [rowWrites, gone, if_false] at committed whole
        simp only [answer, gone, if_false]
        exact ⟨outside, keys, committed, isHeld, whole⟩

/-- One call's effect: its change is made when it succeeds. -/
theorem rowCall_effect (outside : Outside session) (table : String) (call : RowCall Write) :
    ∃ held, RowEffect (call.throughSql table session) call.changes (rowCall table call session).1.isOk
      session (rowCall table call session).2 held := by
  cases call with
  | update changed write =>
      cases changed with
      | false =>
          exact ⟨[], outside, rfl, by simp [rowCall, updateRecord, RowCall.changes],
            by simp [rowCall, updateRecord], fun _ => by simp [RowCall.changes]⟩
      | true =>
          obtain ⟨held, effect⟩ := writeThrough_effect outside table (!write.rowIdValid) write.calls
            (encoded_writes write write.directEncode) fun _ outside =>
              encoded_sqlEffect outside write.sqlEncode (update_sqlEffect outside write)
          exact ⟨held, effect.answered⟩
  | delete write =>
      obtain ⟨held, effect⟩ := writeThrough_effect outside table (!write.rowIdValid) write.calls
        (encoded_writes write none) fun _ outside =>
          encoded_sqlEffect outside write.sqlEncode (delete_sqlEffect outside write)
      exact ⟨held, effect.answered⟩

/-- The catalog, and what a statement that goes through SQL leaves of its
direct access. -/
structure SameAccess (table : String) (before after : Session Write) : Prop where
  tables : after.db.tables = before.db.tables
  keys : after.db.foreignKeys = before.db.foreignKeys
  access : access table after = access table before

theorem SameAccess.refl (session : Session Write) : SameAccess table session session := ⟨rfl, rfl, rfl⟩

theorem execute_access (outside : Outside session) (statement : Statement) (calls : Calls Write) :
    SameAccess table session (session.execute statement calls).2 := by
  simp only [execute, Database.execute, outside.idle]
  cases calls.execution.result with
  | error error => exact ⟨rfl, rfl, rfl⟩
  | ok count =>
      dsimp only
      split
      · exact ⟨rfl, rfl, rfl⟩
      · exact ⟨rfl, rfl, rfl⟩

theorem run_taken (outside : Outside session) (statement : Statement) (writes : statement.mayWrite = true)
    (calls : Calls Write) :
    counts (session.run statement calls).1 = (calls.planFault.isNone && counts calls.execution.result) ∧
      SameAccess table session (session.run statement calls).2 := by
  cases planned : calls.planFault with
  | some error =>
      rw [run_refused planned]
      exact ⟨rfl, .refl session⟩
  | none =>
      rw [run_write outside writes planned]
      refine ⟨?_, execute_access outside statement calls⟩
      simp only [execute, Database.execute, outside.idle]
      cases calls.execution.result <;> rfl

/-- The row's statement, once its values are encoded. -/
theorem sql_taken (outside : Outside session) (write : RowWrite Write) {statement : Statement}
    (writes : statement.mayWrite = true)
    {sql : List String → Calls Write → Session Write → Except Error Int64 × Session Write}
    (isSql : ∀ key calls session, sql key calls session =
      match SqlWrite.keyClause key with
      | .error error => (.error error, session)
      | .ok () => session.run statement calls) :
    counts (encoded write.sqlEncode session (sql write.key write.sqlCalls session)).1 = write.sqlTaken ∧
      SameAccess table session (encoded write.sqlEncode session (sql write.key write.sqlCalls session)).2 := by
  unfold encoded RowWrite.sqlTaken
  cases write.sqlEncode with
  | some error => exact ⟨rfl, .refl session⟩
  | none =>
      simp only [isSql, SqlWrite.keyClause]
      cases write.key.isEmpty with
      | true => exact ⟨rfl, .refl session⟩
      | false => exact @run_taken _ session table outside statement writes write.sqlCalls

/-- The write handle is asked for. -/
theorem withHandle_asked (closed : session.isOpen = false) (calls : Calls Write) :
    (session.withHandle false table calls).1.isOk =
        ((access table session).ask (session.db.tables.contains table) calls).opened ∧
      (session.withHandle false table calls).2.db.tables = session.db.tables ∧
      access table (session.withHandle false table calls).2 =
        { (access table session).ask (session.db.tables.contains table) calls with wrote := session.stmtWrote } := by
  cases cached : session.writeTables.lookup table with
  | some handle =>
      simp only [withHandle, cached, Bool.false_eq_true, if_false, access, Access.ask, Option.isSome_some, Bool.true_or,
        if_true]
      exact ⟨rfl, trivial, trivial⟩
  | none =>
      simp only [withHandle, cached, Bool.false_eq_true, if_false, accessTx, openTable, inTransaction, closed,
        Bool.false_and, access, Access.ask, Option.isSome_none, Bool.false_or]
      cases own : session.stmtTx with
      | some tx =>
          cases calls.tableFault with
          | some error => exact ⟨by simp [Except.isOk, Except.toBool], rfl, by simp [own, cached]⟩
          | none =>
              dsimp only
              cases session.db.tables.contains table with
              | false => exact ⟨rfl, rfl, by simp [own, cached]⟩
              | true => exact ⟨rfl, rfl, by simp [own]⟩
      | none =>
          cases calls.beginFault with
          | some error => exact ⟨rfl, rfl, by simp [own, cached]⟩
          | none =>
              cases calls.tableFault with
              | some error => exact ⟨by simp [Except.isOk, Except.toBool], rfl, by simp [cached]⟩
              | none =>
                  dsimp only [Database.begin]
                  cases session.db.tables.contains table with
                  | false => exact ⟨rfl, rfl, by simp [cached]⟩
                  | true => exact ⟨rfl, rfl, by simp⟩

theorem ask_wrote (stored : Bool) (calls : Calls Write) (access : Access) :
    ({ access with wrote := true } : Access).ask stored calls = access.ask stored calls ∧
      (access.ask stored calls).wrote = true := by
  unfold Access.ask
  dsimp only
  split
  · exact ⟨rfl, rfl⟩
  · exact ⟨rfl, rfl⟩

/-- A direct write: what comes of it, and that the handle was asked for. -/
theorem withWriteTable_asked (outside : Outside session) (table : String) (direct : Except Error Int64 × List Write)
    (calls : Calls Write) :
    ((session.withWriteTable table direct calls).1.isOk = true →
        ((access table session).ask (session.db.tables.contains table) calls).opened = true) ∧
      ((session.withWriteTable table direct calls).1.isOk = false →
        ((access table session).ask (session.db.tables.contains table) calls).opened = false ∨
          session.db.namesTable table = false ∧ direct.1.isOk = false) ∧
      (session.withWriteTable table direct calls).2.db.tables = session.db.tables ∧
      access table (session.withWriteTable table direct calls).2 =
        (access table session).ask (session.db.tables.contains table) calls := by
  have noted : session.noteWrite = { session with stmtWrote := true } := by
    simp only [noteWrite, inTransaction, outside.closed, Bool.false_eq_true, if_false]
  obtain ⟨gave, tables, asked⟩ := @withHandle_asked _ session.noteWrite table (by rw [noted]; exact outside.closed) calls
  have start : (access table session.noteWrite).ask (session.noteWrite.db.tables.contains table) calls =
      (access table session).ask (session.db.tables.contains table) calls := by
    rw [noted]
    exact (ask_wrote _ calls (access table session)).1
  have whole : ({ (access table session).ask (session.db.tables.contains table) calls with
      wrote := session.noteWrite.stmtWrote } : Access) =
      (access table session).ask (session.db.tables.contains table) calls := by
    rw [noted]
    exact congrArg (Access.mk _ _) (ask_wrote _ calls (access table session)).2.symm
  obtain ⟨-, returned⟩ := withWriteTable_result calls table direct outside.consistent
  rw [start] at gave asked
  rw [whole] at asked
  have sameTables : session.noteWrite.db.tables = session.db.tables := by rw [noted]
  rw [sameTables] at tables
  refine ⟨fun ok => ?_, fun failed => ?_, ?_, ?_⟩
  · rw [← gave]
    rw [returned] at ok
    split at ok
    · cases ok
    · rename_i ran
      rw [ran]
      rfl
  · rw [← gave]
    rw [returned] at failed
    split at failed
    · rename_i ran
      exact .inl (by rw [ran]; rfl)
    · split at failed
      · cases failed
      · rename_i unnamed
        refine .inr ⟨by simpa using unnamed, ?_⟩
        cases result : direct.1 with
        | error error => rfl
        | ok count =>
            rw [result] at failed
            cases failed
  · unfold withWriteTable
    split
    · rename_i ran
      rw [ran] at tables
      exact tables
    · rename_i ran
      rw [ran] at tables
      split
      · exact tables
      · exact tables
  · unfold withWriteTable
    split
    · rename_i ran
      rw [ran] at asked
      exact asked
    · rename_i ran
      rw [ran] at asked
      split
      · exact asked
      · exact asked

/-- A row write, by the way it goes. -/
theorem writeThrough_taken (outside : Outside session) (table : String) (byKey : Bool)
    {direct : Except Error Int64 × List Write} {sql : Session Write → Except Error Int64 × Session Write}
    (calls : Calls Write) {sqlTaken : Bool} (taken : ∀ session, Outside session →
      counts (sql session).1 = sqlTaken ∧ SameAccess table session (sql session).2) :
    counts (writeThrough table byKey direct sql calls session).1 =
        (if byKey then sqlTaken
          else ((access table session).ask (session.db.tables.contains table) calls).opened &&
            if session.db.namesTable table then sqlTaken else counts direct.1) ∧
      (writeThrough table byKey direct sql calls session).2.db.tables = session.db.tables ∧
      access table (writeThrough table byKey direct sql calls session).2 =
        if byKey then access table session
        else (access table session).ask (session.db.tables.contains table) calls := by
  cases byKey with
  | true =>
      obtain ⟨counted, same⟩ := taken session outside
      exact ⟨counted, same.tables, same.access⟩
  | false =>
      obtain ⟨opened, refused, tables, asked⟩ := withWriteTable_asked outside table direct calls
      obtain ⟨after, isOutside, keys, committed, way⟩ := withWriteTable_cases outside table direct calls
      rcases way with ⟨error, left, ran, held⟩ | ⟨count, ran, unnamed, isCount, held⟩ | ⟨ran, named, held⟩
      · rw [ran] at refused tables asked
        simp only [writeThrough, ran, Bool.false_eq_true, if_false]
        refine ⟨?_, tables, asked⟩
        rcases refused rfl with noHandle | ⟨unnamed, failed⟩
        · rw [noHandle]
          rfl
        · rw [unnamed]
          cases result : direct.1 with
          | error error => simp [counts]
          | ok count =>
              rw [result] at failed
              cases failed
      · rw [ran] at opened tables asked
        simp only [writeThrough, ran, unnamed, Bool.false_eq_true, if_false]
        exact ⟨by rw [opened rfl, isCount, Bool.true_and], tables, asked⟩
      · rw [ran] at opened tables asked
        simp only [writeThrough, ran, named, Bool.false_eq_true, if_false, if_true]
        obtain ⟨counted, same⟩ := taken after isOutside
        exact ⟨by rw [opened rfl, counted, Bool.true_and], same.tables.trans tables, same.access.trans asked⟩

theorem answer_isOk (result : Except Error Int64) : (answer result).isOk = counts result := by
  cases result with
  | error error => rfl
  | ok count =>
      by_cases gone : count = 0
      · simp [answer, counts, gone, Except.isOk, Except.toBool]
      · simp [answer, counts, gone, Except.isOk, Except.toBool]

/-- One call succeeds when the engine takes it. -/
theorem rowCall_taken (outside : Outside session) (table : String) (call : RowCall Write) :
    (rowCall table call session).1.isOk =
        call.taken (session.db.tables.contains table) (session.db.namesTable table) (access table session) ∧
      (rowCall table call session).2.db.tables = session.db.tables ∧
      access table (rowCall table call session).2 =
        call.next (session.db.tables.contains table) (access table session) := by
  cases call with
  | update changed write =>
      cases changed with
      | false => exact ⟨rfl, rfl, rfl⟩
      | true =>
          obtain ⟨taken, tables, asked⟩ := @writeThrough_taken _ session outside table (!write.rowIdValid)
            (encoded write.directEncode [] write.directWrite) _ write.calls write.sqlTaken fun session outside =>
              @sql_taken _ session table outside write .update rfl SqlWrite.update fun _ _ _ => rfl
          have direct : counts (encoded write.directEncode [] write.directWrite).1 =
              (RowCall.update true write).directTaken := by
            simp only [encoded, RowWrite.directWrite, RowCall.directTaken]
            cases write.directEncode with
            | some error => rfl
            | none => cases write.direct <;> rfl
          rw [direct] at taken
          exact ⟨(answer_isOk _).trans taken, tables, asked⟩
  | delete write =>
      obtain ⟨taken, tables, asked⟩ := @writeThrough_taken _ session outside table (!write.rowIdValid)
        write.directWrite _ write.calls write.sqlTaken fun session outside =>
          @sql_taken _ session table outside write .delete rfl SqlWrite.delete fun _ _ _ => rfl
      have direct : counts write.directWrite.1 = (RowCall.delete write).directTaken := by
        simp only [RowWrite.directWrite, RowCall.directTaken]
        cases write.direct <;> rfl
      rw [direct] at taken
      exact ⟨(answer_isOk _).trans taken, tables, asked⟩

/-- The calls' effect: what was taken through SQL is durable, the rest is held
with the statement's direct writes, and no change of a call is lost. -/
theorem rowCalls_effect (outside : Outside session) (table : String) (calls : List (RowCall Write)) :
    ∃ held, Outside (rowCalls table calls session).2 ∧
      (rowCalls table calls session).1 = allTaken (session.db.tables.contains table) (session.db.namesTable table) calls
        (access table session) ∧
      access table (rowCalls table calls session).2 =
        lastAccess (session.db.tables.contains table) calls (access table session) ∧
      (rowCalls table calls session).2.db.committed = session.db.committed ++
        takenBySql (session.db.tables.contains table) (session.db.namesTable table) calls (access table session) ∧
      (rowCalls table calls session).2.directWrites = session.directWrites ++ held ∧
      ((rowCalls table calls session).1 = true →
        (takenBySql (session.db.tables.contains table) (session.db.namesTable table) calls (access table session) ++
          held).Perm (calls.flatMap RowCall.changes)) := by
  induction calls generalizing session with
  | nil =>
      exact ⟨[], outside, rfl, rfl, by simp [rowCalls, takenBySql], by simp [rowCalls], fun _ => by simp [takenBySql]⟩
  | cons call calls ih =>
      obtain ⟨first, afterFirst, keys, committed, firstHeld, whole⟩ := rowCall_effect outside table call
      obtain ⟨taken, tables, asked⟩ := rowCall_taken outside table call
      have named : (rowCall table call session).2.db.namesTable table = session.db.namesTable table := by
        rw [Database.namesTable, Database.namesTable, keys]
      obtain ⟨rest, afterRest, restTaken, restAsked, restCommitted, restHeld, restWhole⟩ := ih afterFirst
      rw [tables, asked] at restAsked
      rw [tables, asked, named] at restTaken restCommitted restWhole
      rw [taken] at committed whole
      refine ⟨first ++ rest, afterRest, ?_, restAsked, ?_, ?_, fun succeeded => ?_⟩
      · simp only [rowCalls, allTaken, taken, restTaken]
      · simp only [rowCalls, takenBySql, restCommitted, committed, List.append_assoc]
        rfl
      · simp only [rowCalls, restHeld, firstHeld, List.append_assoc]
      · obtain ⟨first', callsOk⟩ := Bool.and_eq_true_iff.mp succeeded
        have callOk : call.taken (session.db.tables.contains table) (session.db.namesTable table)
            (access table session) = true := taken.symm.trans first'
        have mine := whole callOk
        simp only [takenBySql, callOk, Bool.true_and, List.flatMap_cons, List.append_assoc]
        have swapped := (List.perm_append_comm_assoc (takenBySql (session.db.tables.contains table)
          (session.db.namesTable table) calls (call.next (session.db.tables.contains table) (access table session)))
          first rest).append_left (if call.throughSql table session then call.changes else [])
        refine swapped.trans ?_
        rw [← List.append_assoc, mine]
        exact (restWhole callsOk).append_left _

/-- The table's durable contents: the writes committed so far, applied. -/
def contents {α : Type} (apply : Write → α → α) (start : α) (session : Session Write) : α :=
  session.db.committed.foldl (fun contents write => apply write contents) start

/-- One transaction: a failed statement leaves the table's contents as they
were, one that succeeds holds every change. -/
def Atomic {α : Type} (apply : Write → α → α) (start : α) (changes : List Write) (before : Session Write)
    (result : Bool × Session Write) : Prop :=
  (result.1 = false → contents apply start result.2 = contents apply start before) ∧
    (result.1 = true → result.2.db.committed.Perm (before.db.committed ++ changes))

/-- The end of a statement keeps its direct writes when all went well. -/
theorem endStatement_settles (consistent : Consistent session) (succeeded : Bool) (finish : Calls Write) :
    (session.endStatement succeeded finish).2.db.committed = session.db.committed ++
      if succeeded && (session.endStatement succeeded finish).1.isOk then session.directWrites else [] := by
  obtain ⟨-, -, -, ended, -⟩ := endStatement_spec consistent finish succeeded
  rw [ended]
  cases succeeded with
  | false => rfl
  | true =>
      by_cases nothing : session.directWrites = []
      · simp [nothing]
      · rw [endStatement_isOk consistent nothing]

theorem endStatement_ends (table : String) (finish : Calls Write) :
    (session.endStatement true finish).1.isOk = (access table session).ends finish := by
  cases own : session.stmtTx with
  | none => simp [endStatement, own, access, Access.ends, Except.isOk, Except.toBool]
  | some tx =>
      simp only [endStatement, own, access, Access.ends, Option.isSome_some, Bool.not_true, Bool.false_or]
      cases session.stmtWrote with
      | true => cases fault : finish.commitFault <;> simp [Database.commit, fault, Except.isOk, Except.toBool]
      | false => cases fault : finish.rollbackFault <;> simp [Database.rollback, fault, Except.isOk, Except.toBool]

/-- What a statement comes to for one table: it succeeds, or what was taken
through SQL has no effect. -/
theorem statement_contents_iff {α : Type} (apply : Write → α → α) (start : α) (outside : Outside session)
    (unwritten : session.directWrites = []) (table : String) (calls : List (RowCall Write)) (finish : Calls Write) :
    Atomic apply start (calls.flatMap RowCall.changes) session (statement table calls finish session) ↔
      (allTaken (session.db.tables.contains table) (session.db.namesTable table) calls (access table session) = true ∧
          (lastAccess (session.db.tables.contains table) calls (access table session)).ends finish = true) ∨
        (takenBySql (session.db.tables.contains table) (session.db.namesTable table) calls
          (access table session)).foldl (fun contents write => apply write contents) (contents apply start session) =
            contents apply start session := by
  obtain ⟨held, ran, taken, asked, committed, isHeld, whole⟩ := rowCalls_effect outside table calls
  rw [unwritten, List.nil_append] at isHeld
  have succeeds : (statement table calls finish session).1 = true ↔
      allTaken (session.db.tables.contains table) (session.db.namesTable table) calls (access table session) = true ∧
        (lastAccess (session.db.tables.contains table) calls (access table session)).ends finish = true := by
    rw [← taken, ← asked, ← endStatement_ends table finish]
    have ends : (statement table calls finish session).1 = ((rowCalls table calls session).1 &&
        ((rowCalls table calls session).2.endStatement (rowCalls table calls session).1 finish).1.isOk) := rfl
    rw [ends, Bool.and_eq_true_iff]
    exact and_congr_right fun all => by rw [all]
  generalize takenBySql (session.db.tables.contains table) (session.db.namesTable table) calls (access table session) =
    bySql at committed whole ⊢
  rw [← succeeds]
  have settled : (statement table calls finish session).2.db.committed = session.db.committed ++
      (bySql ++ if (statement table calls finish session).1 then held else []) := by
    have ended := endStatement_settles ran.consistent (rowCalls table calls session).1 finish
    rw [isHeld, committed, List.append_assoc] at ended
    exact ended
  cases result : (statement table calls finish session).1 with
  | true =>
      have every : (rowCalls table calls session).1 = true := (Bool.and_eq_true_iff.mp result).1
      rw [result, if_pos rfl] at settled
      refine ⟨fun _ => .inl rfl, fun _ => ⟨fun failed => ?_, fun _ => ?_⟩⟩
      · rw [result] at failed
        cases failed
      · rw [settled]
        exact (whole every).append_left _
  | false =>
      rw [result, if_neg Bool.false_ne_true, List.append_nil] at settled
      have effect : contents apply start (statement table calls finish session).2 =
          bySql.foldl (fun contents write => apply write contents) (contents apply start session) := by
        simp only [contents, settled, List.foldl_append]
      rw [← effect]
      refine ⟨fun atomic => .inr (atomic.1 result), fun same => ⟨fun _ => ?_, fun succeeded => ?_⟩⟩
      · exact same.resolve_left Bool.false_ne_true
      · rw [result] at succeeded
        cases succeeded

/-- An autocommit row-pump statement is one transaction, whatever its changes do
to the table, exactly when the engine takes every call and its end, or none of
the changes that go through SQL. -/
theorem statement_atomic_iff (outside : Outside session) (unwritten : session.directWrites = []) (table : String)
    (calls : List (RowCall Write)) (finish : Calls Write) :
    (∀ (α : Type) (apply : Write → α → α) (start : α),
        Atomic apply start (calls.flatMap RowCall.changes) session (statement table calls finish session)) ↔
      OneTransaction table calls finish session := by
  refine ⟨fun atomic => ?_, fun one α apply start => ?_⟩
  · have logged := (statement_contents_iff List.cons [] outside unwritten table calls finish).mp (atomic _ _ _)
    refine logged.imp_right fun same => ?_
    have lengths := congrArg List.length same
    rw [List.foldl_flip_cons_eq_append] at lengths
    simpa using lengths
  · refine (statement_contents_iff apply start outside unwritten table calls finish).mpr (one.imp_right fun none => ?_)
    rw [none]
    rfl

end Atomicity

/-- Two rows updated, the second refused by the engine on either way. -/
def sampleRow (change : Nat) (result : Except Error Int64) : RowWrite Nat where
  change
  rowIdValid := true
  directEncode := none
  sqlEncode := none
  key := ["id"]
  direct := result
  directLeft := []
  calls := { willing with execution := { result, writes := [], keep := 0 } }

def sampleCalls : List (RowCall Nat) :=
  [.update true (sampleRow 7 (.ok 1)), .update true (sampleRow 8 (.error (.engine "constraint")))]

theorem sample_outside : Outside (new sampleDb) :=
  ⟨new_consistent ⟨rfl, rfl⟩ fun _ => rfl, rfl⟩

theorem statement_atomic_iff_sample :
    Atomic List.cons [] (sampleCalls.flatMap RowCall.changes) (new sampleDb)
      (statement "t" sampleCalls willing (new sampleDb)) :=
  (statement_atomic_iff sample_outside rfl "t" sampleCalls willing).mpr (.inr (by decide)) _ _ _

/-- In the child table `c` the first row's change stays. -/
theorem statement_not_atomic_sample :
    Outside (new sampleDb) ∧ (new sampleDb).directWrites = [] ∧
      ¬ Atomic List.cons [] (sampleCalls.flatMap RowCall.changes) (new sampleDb)
        (statement "c" sampleCalls willing (new sampleDb)) := by
  refine ⟨sample_outside, rfl, fun atomic => ?_⟩
  have same := atomic.1 (by decide)
  revert same
  decide

end StoolapMariadb.WriteThrough
