import StoolapMariadb.SessionState

namespace StoolapMariadb.Session

/-! What the operations do to a session outside a transaction and to one
inside, as their callers see it. -/

variable {Write : Type} {session : Session Write} {held : List Write}

/-- A session outside a transaction, in good order. -/
structure Outside (session : Session Write) : Prop where
  consistent : Consistent session
  closed : session.isOpen = false

/-- A session in an open transaction that holds the writes `held`. -/
structure Inside (session : Session Write) (held : List Write) : Prop where
  consistent : Consistent session
  isOpen : session.isOpen = true
  holds : session.openWrites = held

/-- Nothing durable changed, nor what the foreign keys name. -/
structure Kept (before after : Session Write) : Prop where
  committed : after.db.committed = before.db.committed
  keys : after.db.foreignKeys = before.db.foreignKeys

theorem Kept.refl (session : Session Write) : Kept session session := ⟨rfl, rfl⟩

theorem Kept.trans {first second third : Session Write} (one : Kept first second)
    (two : Kept second third) : Kept first third :=
  ⟨two.committed.trans one.committed, two.keys.trans one.keys⟩

theorem Kept.names {before after : Session Write} (kept : Kept before after) (table : String) :
    after.db.namesTable table = before.db.namesTable table := by
  rw [Database.namesTable, Database.namesTable, kept.keys]

theorem Outside.idle (outside : Outside session) : session.exec = none :=
  outside.consistent.exec_none outside.closed

theorem Inside.installed (inside : Inside session held) :
    ∃ tx, session.exec = some tx ∧ session.stmtTx = none ∧ session.db.pending tx = held := by
  have isSome := inside.consistent.installed
  rw [inTransaction, inside.isOpen] at isSome
  obtain ⟨tx, installed⟩ := Option.isSome_iff_exists.mp isSome.symm
  refine ⟨tx, installed, inside.consistent.alone inside.isOpen, ?_⟩
  have holds := inside.holds
  simpa only [openWrites, installed] using holds

theorem directWrites_nil (noStmtTx : session.stmtTx = none) : session.directWrites = [] := by
  simp only [directWrites, noStmtTx]

theorem Database.execute_keys (db : Database Write) (installed : Option TxId) (statement : Statement)
    (execution : Execution Write) :
    (db.execute installed statement execution).2.foreignKeys = db.foreignKeys := by
  rcases db.execute_cases installed statement execution with ⟨tx, writes, -, same⟩ | ⟨-, writes, same⟩
  · rw [same]
    rfl
  · rw [same]
    rfl

/-- The rows a statement wrote: all of them, or none when it failed. -/
def writtenBy (result : Except Error Int64) (writes : List Write) : List Write :=
  match result with
  | .ok _ => writes
  | .error _ => []

theorem run_write (outside : Outside session) {statement : Statement} (writes : statement.mayWrite = true)
    {calls : Calls Write} (planned : calls.planFault = none) :
    session.run statement calls = session.execute statement calls := by
  simp only [run, planned, inTransaction, outside.closed, Bool.false_eq_true, if_false]
  cases session.stmtTx <;> cases statement <;> first
    | rfl
    | cases writes

/-- Outside a transaction a write by SQL is durable at once. -/
theorem run_outside (outside : Outside session) (statement : Statement) (writes : statement.mayWrite = true)
    (calls : Calls Write) :
    Outside (session.run statement calls).2 ∧
      (session.run statement calls).2.directWrites = session.directWrites ∧
      (session.run statement calls).2.db.foreignKeys = session.db.foreignKeys ∧
      (session.run statement calls).2.db.committed = session.db.committed ++
        writtenBy (session.run statement calls).1 calls.execution.writes ∧
      ∀ count, (session.run statement calls).1 = .ok count → calls.execution.result = .ok count := by
  cases planned : calls.planFault with
  | some error =>
      have refused : session.run statement calls = (.error error, session) := by simp only [run, planned]
      rw [refused]
      exact ⟨outside, rfl, rfl, by simp [writtenBy], fun count ok => by cases ok⟩
  | none =>
      have idle := outside.idle
      obtain ⟨closed, direct⟩ := execute_outside idle calls statement
      rw [run_write outside writes planned]
      refine ⟨⟨execute_consistent outside.consistent statement, closed.trans outside.closed⟩, direct,
        Database.execute_keys _ _ _ _, ?_, fun count ok => ?_⟩
      · simp only [execute, Database.execute, idle, writes, if_true]
        cases calls.execution.result with
        | error error => simp [writtenBy]
        | ok count => rfl
      · simp only [execute, Database.execute, idle] at ok
        cases result : calls.execution.result with
        | error error => simp [result] at ok
        | ok other => simpa [result] using ok

/-- Inside one the transaction holds it; a statement that fails may leave
some of its writes there. -/
theorem execute_inside (inside : Inside session held) (statement : Statement)
    (writes : statement.mayWrite = true) (calls : Calls Write) :
    Inside (session.execute statement calls).2 (held ++ calls.execution.writes) ∧
      Kept session (session.execute statement calls).2 ∧
      (session.execute statement calls).1 = calls.execution.result := by
  obtain ⟨tx, installed, -, holds⟩ := inside.installed
  have run : session.db.execute session.exec statement calls.execution =
      (calls.execution.result, session.db.write tx calls.execution.writes) := by
    rw [installed]
    cases statement <;> first
      | rfl
      | cases writes
  have after : Consistent (session.execute statement calls).2 := execute_consistent inside.consistent statement
  simp only [execute, run] at after ⊢
  refine ⟨⟨after, inside.isOpen, ?_⟩, ⟨rfl, rfl⟩, trivial⟩
  simp only [openWrites, installed, Database.write, Database.setPending, Function.update_self, holds]

/-- A statement ends no transaction. -/
theorem execute_sameTx (session : Session Write) (statement : Statement) (calls : Calls Write) :
    (session.execute statement calls).2.exec = session.exec ∧
      (session.execute statement calls).2.db.ended = session.db.ended := by
  rcases session.db.execute_cases session.exec statement calls.execution with
    ⟨tx, writes, -, same⟩ | ⟨-, writes, same⟩
  · simp only [execute, same, Database.setPending, and_self]
  · simp only [execute, same, Database.publish, and_self]

theorem run_insert_sameTx (isOpen : session.isOpen = true) (calls : Calls Write) :
    (session.run .insert calls).2.exec = session.exec ∧
      (session.run .insert calls).2.db.ended = session.db.ended := by
  unfold run
  split
  · exact ⟨rfl, rfl⟩
  · simp only [inTransaction, isOpen, if_true, runPlan, runsInTransaction]
    exact execute_sameTx session .insert calls

theorem runPlan_insert_inside (inside : Inside session held) (calls : Calls Write) :
    ∃ left, Inside (session.runPlan .insert calls).2 (held ++ left) ∧
      Kept session (session.runPlan .insert calls).2 ∧
      ∀ count, (session.runPlan .insert calls).1 = .ok count → left = calls.execution.writes := by
  obtain ⟨after, kept, -⟩ := execute_inside inside .insert rfl calls
  simp only [runPlan, inTransaction, inside.isOpen, if_true, runsInTransaction]
  exact ⟨_, after, kept, fun _ _ => rfl⟩

theorem run_insert_inside (inside : Inside session held) (calls : Calls Write) :
    ∃ left, Inside (session.run .insert calls).2 (held ++ left) ∧
      Kept session (session.run .insert calls).2 ∧
      ∀ count, (session.run .insert calls).1 = .ok count → left = calls.execution.writes := by
  unfold run
  split
  · exact ⟨[], by simpa using inside, .refl session, fun count ok => by cases ok⟩
  · simp only [inTransaction, inside.isOpen, if_true]
    exact runPlan_insert_inside inside calls

/-- BEGIN ends the statement's own transaction first; the one it opens starts
empty. -/
theorem begin_ends (outside : Outside session) (level : IsolationLevel) (calls : Calls Write) :
    (session.begin level calls).2.db.committed = session.db.committed ++
        (if calls.commitFault.isNone then session.directWrites else []) ∧
      (session.begin level calls).2.db.foreignKeys = session.db.foreignKeys ∧
      match (session.begin level calls).1 with
      | .ok () => Inside (session.begin level calls).2 []
      | .error _ => Outside (session.begin level calls).2 ∧
          (session.begin level calls).2.directWrites = [] := by
  have consistent : Consistent (session.begin level calls).2 := begin_consistent outside.consistent level
  obtain ⟨ended, noStmtTx, sameExec, committed, -⟩ := endStatement_spec outside.consistent calls true
  have keys := endStatement_keys session calls true
  have closed := endStatement_isOpen session calls true
  rw [Bool.true_and] at committed
  unfold begin at consistent ⊢
  simp only [inTransaction, outside.closed, Bool.false_eq_true, if_false] at consistent ⊢
  split
  · rename_i after ran
    rw [ran] at ended noStmtTx committed keys closed
    exact ⟨committed, keys, ⟨ended, closed.trans outside.closed⟩, directWrites_nil noStmtTx⟩
  · rename_i after ran
    rw [ran] at ended noStmtTx committed keys closed
    simp only [ran] at consistent
    split
    · exact ⟨committed, keys, ⟨ended, closed.trans outside.closed⟩, directWrites_nil noStmtTx⟩
    · rename_i began
      simp only [began] at consistent
      exact ⟨committed, keys, consistent, rfl, ended.unused _ (Nat.le_refl _)⟩

theorem begin_outside (outside : Outside session) (unwritten : session.directWrites = [])
    (level : IsolationLevel) (calls : Calls Write) :
    Kept session (session.begin level calls).2 ∧
      match (session.begin level calls).1 with
      | .ok () => Inside (session.begin level calls).2 []
      | .error _ => Outside (session.begin level calls).2 ∧
          (session.begin level calls).2.directWrites = [] := by
  obtain ⟨committed, keys, begun⟩ := begin_ends outside level calls
  rw [unwritten, ite_self, List.append_nil] at committed
  exact ⟨⟨committed, keys⟩, begun⟩

/-- The open transaction's writes are durable when its commit says so. -/
theorem commit_inside (inside : Inside session held) (calls : Calls Write) :
    Outside (session.commit calls).2 ∧ (session.commit calls).2.directWrites = [] ∧
      (session.commit calls).2.db.foreignKeys = session.db.foreignKeys ∧
      (session.commit calls).2.db.committed = session.db.committed ++
        (if (session.commit calls).1.isOk then held else []) := by
  obtain ⟨tx, installed, noStmtTx, holds⟩ := inside.installed
  have consistent : Consistent (session.commit calls).2 := commit_consistent inside.consistent
  simp only [commit, take_some installed] at consistent ⊢
  refine ⟨⟨consistent, rfl⟩, directWrites_nil noStmtTx, ?_, ?_⟩
  · unfold Database.commit
    split <;> rfl
  · rw [Database.commit_committed, holds]
    cases fault : calls.commitFault <;> simp [Database.commit, fault, Except.isOk, Except.toBool]

theorem rollback_inside (inside : Inside session held) (calls : Calls Write) :
    Outside (session.rollback calls).2 ∧ (session.rollback calls).2.directWrites = [] ∧
      Kept session (session.rollback calls).2 := by
  obtain ⟨tx, installed, noStmtTx, -⟩ := inside.installed
  have consistent : Consistent (session.rollback calls).2 := rollback_consistent inside.consistent
  simp only [rollback, take_some installed] at consistent ⊢
  refine ⟨⟨consistent, rfl⟩, directWrites_nil noStmtTx, ?_⟩
  rw [Database.rollback_eq]
  exact ⟨rfl, rfl⟩

/-- The end of a statement outside a transaction. -/
theorem endStatement_outside (outside : Outside session) (calls : Calls Write) (commit : Bool) :
    Outside (session.endStatement commit calls).2 ∧
      (session.endStatement commit calls).2.db.committed = session.db.committed ++
        (if commit && calls.commitFault.isNone then session.directWrites else []) := by
  obtain ⟨consistent, -, -, committed, -⟩ := endStatement_spec outside.consistent calls commit
  exact ⟨⟨consistent, (endStatement_isOpen session calls commit).trans outside.closed⟩, committed⟩

/-- Inside one there is no transaction of the statement's to end. -/
theorem endStatement_inside (inside : Inside session held) (calls : Calls Write) (commit : Bool) :
    ∃ after, session.endStatement commit calls = (.ok (), after) ∧ Inside after held ∧ Kept session after := by
  obtain ⟨tx, installed, noStmtTx, holds⟩ := inside.installed
  refine ⟨{ session with tables := [], writeTables := [], view := none }, ?_, ?_, ⟨rfl, rfl⟩⟩
  · simp only [endStatement, noStmtTx]
  · exact ⟨inside.consistent.closed, inside.isOpen, inside.holds⟩

/-- A table a foreign key names gives no write handle and changes nothing. -/
theorem withWriteTable_named (consistent : Consistent session) {table : String}
    (named : session.db.namesTable table = true) (f : Except Error Int64 × List Write) (calls : Calls Write) :
    Accessed session.noteWrite (session.withWriteTable table f calls).2 ∧
      ∀ count, (session.withWriteTable table f calls).1 ≠ .ok (some count) := by
  obtain ⟨notedConsistent, -, sameDb, -, -⟩ := noteWrite_spec consistent
  obtain ⟨accessed, -⟩ := withHandle_accessed notedConsistent calls false table
  unfold withWriteTable
  split
  · rename_i ran
    rw [ran] at accessed
    exact ⟨accessed, fun count ok => by cases ok⟩
  · rename_i after ran
    rw [ran] at accessed
    have sameKeys : after.db.foreignKeys = session.db.foreignKeys := accessed.keys.trans (by rw [sameDb])
    have stillNamed : after.db.namesTable table = true := by
      rw [← named, Database.namesTable, Database.namesTable, sameKeys]
    rw [if_pos stillNamed]
    exact ⟨accessed, fun count ok => by cases ok⟩

theorem noteWrite_outside (outside : Outside session) {after : Session Write}
    (accessed : Accessed session.noteWrite after) :
    Outside after ∧ after.directWrites = session.directWrites ∧ Kept session after := by
  obtain ⟨-, sameOpen, sameDb, sameWrites, -⟩ := noteWrite_spec outside.consistent
  exact ⟨⟨accessed.consistent, (accessed.isOpen.trans sameOpen).trans outside.closed⟩,
    accessed.directWrites.trans sameWrites,
    accessed.committed.trans (by rw [sameDb]), accessed.keys.trans (by rw [sameDb])⟩

theorem noteWrite_inside (inside : Inside session held) {after : Session Write}
    (accessed : Accessed session.noteWrite after) : Inside after held ∧ Kept session after := by
  have same : session.noteWrite = session := if_pos inside.isOpen
  rw [same] at accessed
  exact ⟨⟨accessed.consistent, accessed.isOpen.trans inside.isOpen, accessed.openWrites.trans inside.holds⟩,
    accessed.committed, accessed.keys⟩

/-- What an INSERT answers: the error of preparing it, or the executor's
answer. -/
def insertAnswer (calls : Calls Write) : Except Error Int64 :=
  match calls.planFault with
  | some error => .error error
  | none => calls.execution.result

theorem execute_insert_answer (session : Session Write) (calls : Calls Write) :
    (session.execute .insert calls).1 = calls.execution.result := by
  simp only [execute, Database.execute]
  cases session.exec with
  | some tx => rfl
  | none => cases result : calls.execution.result <;> rfl

theorem runPlan_insert_answer (session : Session Write) (calls : Calls Write) :
    (session.runPlan .insert calls).1 = calls.execution.result := by
  simp only [runPlan, runsInTransaction]
  split <;> exact execute_insert_answer session calls

theorem run_insert_answer (session : Session Write) (calls : Calls Write) :
    (session.run .insert calls).1 = insertAnswer calls := by
  unfold run insertAnswer
  cases calls.planFault with
  | some error => rfl
  | none =>
      dsimp only
      split
      · exact runPlan_insert_answer session calls
      · cases session.stmtTx <;> exact execute_insert_answer session calls

theorem endStatement_answer {tx : TxId} (own : session.stmtTx = some tx) (wrote : session.stmtWrote = true)
    (calls : Calls Write) : (session.endStatement true calls).1.isOk = calls.commitFault.isNone := by
  simp only [endStatement, own, wrote, Bool.not_true, Bool.or_self, Bool.false_eq_true, if_false,
    Database.commit]
  cases calls.commitFault <;> rfl

theorem begin_answer (outside : Outside session) {tx : TxId} (own : session.stmtTx = some tx)
    (wrote : session.stmtWrote = true) (level : IsolationLevel) (calls : Calls Write) :
    (session.begin level calls).1.isOk = (calls.commitFault.isNone && calls.beginFault.isNone) := by
  have ended := endStatement_answer own wrote calls
  simp only [begin, inTransaction, outside.closed, Bool.false_eq_true, if_false]
  split
  · rename_i ran
    rw [ran] at ended
    rw [← ended]
    rfl
  · rename_i ran
    rw [ran] at ended
    rw [← ended]
    cases calls.beginFault <;> rfl

theorem commit_answer (inside : Inside session held) (calls : Calls Write) :
    (session.commit calls).1.isOk = calls.commitFault.isNone := by
  obtain ⟨tx, installed, -, -⟩ := inside.installed
  simp only [commit, take_some installed, Database.commit]
  cases calls.commitFault <;> rfl

/-- The engine refuses the statement's write handle on `table`. -/
def handleRefused (table : String) (calls : Calls Write) (session : Session Write) : Bool :=
  (session.writeTables.lookup table).isNone &&
    ((session.stmtTx.isNone && calls.beginFault.isSome) || calls.tableFault.isSome)

/-- The statement has its own transaction and a write handle on `table`. -/
structure HoldsHandle (table : String) (session : Session Write) : Prop where
  own : ∃ tx, session.stmtTx = some tx
  cached : (session.writeTables.lookup table).isSome

theorem HoldsHandle.of_cached (outside : Outside session) {table : String} {handle : Handle Write}
    (cached : session.writeTables.lookup table = some handle) : HoldsHandle table session := by
  have isLive := outside.consistent.handles (table, handle)
    (List.mem_append.mpr (.inr (Lookup.mem_of_lookup cached)))
  rw [live, outside.idle] at isLive
  exact ⟨⟨handle.tx, isLive⟩, by rw [cached]; rfl⟩

theorem HoldsHandle.not_refused {table : String} (holds : HoldsHandle table session) (calls : Calls Write) :
    session.handleRefused table calls = false := by
  obtain ⟨handle, cached⟩ := Option.isSome_iff_exists.mp holds.cached
  simp only [handleRefused, cached, Option.isNone_some, Bool.false_and]

/-- The engine has the table, or the statement a write handle on it. -/
def Openable (table : String) (session : Session Write) : Prop :=
  session.db.tables.contains table = true ∨ (session.writeTables.lookup table).isSome = true

theorem withHandle_answer (outside : Outside session) {table : String} (openable : session.Openable table)
    (calls : Calls Write) :
    (session.withHandle false table calls).1.isOk = !session.handleRefused table calls ∧
      ((session.withHandle false table calls).1.isOk →
        HoldsHandle table (session.withHandle false table calls).2) := by
  cases cached : session.writeTables.lookup table with
  | some handle =>
      simp only [withHandle, Bool.false_eq_true, if_false, cached]
      have holds := HoldsHandle.of_cached outside cached
      exact ⟨by rw [holds.not_refused calls]; rfl, fun _ => holds⟩
  | none =>
      have stored : session.db.tables.contains table = true := by
        simpa only [Openable, cached, Option.isSome_none, Bool.false_eq_true, or_false] using openable
      simp only [withHandle, handleRefused, cached, Bool.false_eq_true, if_false, accessTx, openTable,
        inTransaction, outside.closed, Bool.false_and, Option.isNone_none, Bool.true_and]
      cases own : session.stmtTx with
      | some tx =>
          cases calls.tableFault with
          | some error => exact ⟨rfl, fun ok => by cases ok⟩
          | none =>
              simp only [stored, if_true]
              exact ⟨rfl, fun _ => ⟨⟨tx, own⟩, by simp⟩⟩
      | none =>
          cases calls.beginFault with
          | some error => exact ⟨rfl, fun ok => by cases ok⟩
          | none =>
              cases calls.tableFault with
              | some error => exact ⟨rfl, fun ok => by cases ok⟩
              | none =>
                  simp only [Database.begin, stored, if_true]
                  exact ⟨rfl, fun _ => ⟨⟨_, rfl⟩, by simp⟩⟩

/-- A table a foreign key names: only its write handle can be refused. -/
theorem withWriteTable_answer (outside : Outside session) {table : String}
    (openable : session.Openable table) (named : session.db.namesTable table = true)
    (f : Except Error Int64 × List Write) (calls : Calls Write) :
    (session.withWriteTable table f calls).1.isOk = !session.handleRefused table calls ∧
      ((session.withWriteTable table f calls).1.isOk →
        HoldsHandle table (session.withWriteTable table f calls).2 ∧
          (session.withWriteTable table f calls).2.stmtWrote = true) := by
  obtain ⟨notedConsistent, sameOpen, sameDb, -, wrote⟩ := noteWrite_spec outside.consistent
  have notedOutside : Outside session.noteWrite := ⟨notedConsistent, sameOpen.trans outside.closed⟩
  have same : session.noteWrite.handleRefused table calls = session.handleRefused table calls := by
    simp only [noteWrite, inTransaction, outside.closed, Bool.false_eq_true, if_false, handleRefused]
  have sameOpenable : session.noteWrite.Openable table := by
    simp only [noteWrite, inTransaction, outside.closed, Bool.false_eq_true, if_false]
    exact openable
  obtain ⟨answer, holds⟩ := withHandle_answer notedOutside sameOpenable calls
  obtain ⟨accessed, -⟩ := withHandle_accessed notedConsistent calls false table
  rw [same] at answer
  unfold withWriteTable
  split
  · rename_i ran
    rw [ran] at answer
    exact ⟨answer, fun ok => by cases ok⟩
  · rename_i handle after ran
    rw [ran] at answer holds accessed
    have stillNamed : after.db.namesTable table = true := by
      have sameKeys : after.db.foreignKeys = session.db.foreignKeys := accessed.keys.trans (by rw [sameDb])
      rw [← named, Database.namesTable, Database.namesTable, sameKeys]
    rw [if_pos stillNamed]
    exact ⟨answer, fun _ => ⟨holds rfl, accessed.stmtWrote.trans (wrote outside.closed)⟩⟩

section Statements

variable {statement : Statement} {calls : Calls Write}

theorem run_refused {error : Error} (refused : calls.planFault = some error) :
    session.run statement calls = (.error error, session) := by
  simp only [run, refused]

theorem run_executes (isOpen : session.isOpen = true) (planned : calls.planFault = none)
    (allowed : runsInTransaction statement = .ok ()) :
    session.run statement calls = session.execute statement calls := by
  simp only [run, planned, inTransaction, isOpen, if_true, runPlan, allowed]

/-- A SELECT changes nothing, whichever transaction it reads in. -/
theorem run_select (consistent : Consistent session) : (session.run .select calls).2 = session := by
  have same : (session.db.execute session.exec .select calls.execution).2 = session.db := by
    cases session.exec with
    | some tx => rfl
    | none =>
        unfold Database.execute
        cases calls.execution.result <;> rfl
  have read : (session.execute .select calls).2 = session := by
    change { session with db := (session.db.execute session.exec .select calls.execution).2 } = session
    rw [same]
  cases planned : calls.planFault with
  | some error => rw [run_refused planned]
  | none =>
      cases isOpen : session.isOpen with
      | true => rw [run_executes isOpen planned rfl, read]
      | false =>
          simp only [run, planned, inTransaction, isOpen, Bool.false_eq_true, if_false]
          cases own : session.stmtTx with
          | none => exact read
          | some tx => exact runInStmtTx_select consistent

/-- A savepoint statement keeps as much of what the transaction holds as the
engine says. -/
theorem run_savepoint (inside : Inside session held) (planned : calls.planFault = none)
    (savepoint : runsInTransaction statement = .ok () ∧ statement.mayWrite = false)
    (whole : (∀ name, statement ≠ .rollback name) → held.take calls.execution.keep = held) :
    (session.run statement calls).1 = calls.execution.result ∧
      Inside (session.run statement calls).2 (held.take calls.execution.keep) ∧
      (session.run statement calls).2.db.committed = session.db.committed := by
  obtain ⟨tx, installed, -, holds⟩ := inside.installed
  have after : Consistent (session.execute statement calls).2 := execute_consistent inside.consistent statement
  rw [run_executes inside.isOpen planned savepoint.1]
  have kept : session.db.execute session.exec statement calls.execution =
      (calls.execution.result, session.db.keep tx calls.execution.keep) ∨
      (session.db.execute session.exec statement calls.execution = (calls.execution.result, session.db) ∧
        held.take calls.execution.keep = held) := by
    rw [installed]
    cases statement with
    | rollback name => exact .inl rfl
    | select => exact .inr ⟨rfl, whole fun _ other => by cases other⟩
    | savepoint => exact .inr ⟨rfl, whole fun _ other => by cases other⟩
    | releaseSavepoint => exact .inr ⟨rfl, whole fun _ other => by cases other⟩
    | insert => cases savepoint.2
    | update => cases savepoint.2
    | delete => cases savepoint.2
    | other => cases savepoint.2
  rcases kept with ran | ⟨ran, same⟩
  · simp only [execute, ran] at after ⊢
    refine ⟨trivial, ⟨after, inside.isOpen, ?_⟩, rfl⟩
    simp only [openWrites, installed, Database.keep, Database.setPending, Function.update_self, holds]
  · simp only [execute, ran] at after ⊢
    rw [same]
    exact ⟨trivial, ⟨after, inside.isOpen, inside.holds⟩, trivial⟩

/-- Inside a transaction a direct write is one of its own. -/
theorem withWriteTable_inside (inside : Inside session held) (table : String) (f : Except Error Int64 × List Write)
    (calls : Calls Write) : Inside (session.withWriteTable table f calls).2
      (held ++ made session (.withWriteTable table f, calls)) := by
  obtain ⟨consistent, sameOpen, -, -⟩ := withWriteTable_spec inside.consistent calls table f
  have isOpen := sameOpen.trans inside.isOpen
  refine ⟨consistent, isOpen, ?_⟩
  have same : session.noteWrite = session := if_pos inside.isOpen
  obtain ⟨accessed, isLive⟩ := withHandle_accessed inside.consistent calls false table
  unfold withWriteTable
  simp only [made, same]
  split
  · rename_i error after ran
    rw [ran] at accessed
    rw [ran]
    exact (accessed.openWrites.trans inside.holds).trans (List.append_nil _).symm
  · rename_i handle after ran
    rw [ran] at accessed isLive
    have sameKeys : after.db.namesTable table = session.db.namesTable table := by
      rw [Database.namesTable, Database.namesTable, accessed.keys]
    rw [ran, sameKeys]
    dsimp only
    split
    · exact (accessed.openWrites.trans inside.holds).trans (List.append_nil _).symm
    · obtain ⟨tx, installed, -, holds⟩ := inside.installed
      have sameTx : after.exec = some tx := accessed.exec.trans installed
      have ofTx : handle.tx = tx := by simpa [live, sameTx, eq_comm] using isLive handle rfl
      have before : after.db.pending tx = held := by
        have stays := accessed.openWrites.trans inside.holds
        simpa only [openWrites, sameTx] using stays
      simp only [openWrites, sameTx, ofTx, Database.write, Database.setPending, Function.update_self, before]

end Statements

end StoolapMariadb.Session
