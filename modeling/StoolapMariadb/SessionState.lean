import StoolapMariadb.Session
import StoolapMariadb.Lib.Lookup
import StoolapMariadb.Lib.Runs
import Mathlib.Data.List.Basic

namespace StoolapMariadb.Session

/-! Over any run of a session's operations its transaction is in one place,
the flags and the caches follow it, and no direct write is lost. -/

variable {Write : Type} {session : Session Write} {calls : Calls Write} {tx : TxId}

inductive Op (Write : Type) where
  | run (statement : Statement)
  | runPlan (statement : Statement)
  | begin (level : IsolationLevel)
  | commit
  | rollback
  | withTable (table : String) (f : Except Error Int64)
  | withWriteTable (table : String) (f : Except Error Int64 × List Write)
  | endStatement (commit : Bool)

/-- One operation, with what the engine answers during it. -/
def step (session : Session Write) : Op Write × Calls Write → Session Write
  | (.run statement, calls) => (session.run statement calls).2
  | (.runPlan statement, calls) => (session.runPlan statement calls).2
  | (.begin level, calls) => (session.begin level calls).2
  | (.commit, calls) => (session.commit calls).2
  | (.rollback, calls) => (session.rollback calls).2
  | (.withTable table f, calls) => (session.withTable table f calls).2
  | (.withWriteTable table f, calls) => (session.withWriteTable table f calls).2
  | (.endStatement commit, calls) => (session.endStatement commit calls).2

/-- The transaction that is live now. -/
def live (session : Session Write) : Option TxId :=
  match session.exec with
  | some tx => some tx
  | none => session.stmtTx

/-- The direct writes the statement's own transaction holds. -/
def directWrites (session : Session Write) : List Write :=
  match session.stmtTx with
  | some tx => session.db.pending tx
  | none => []

/-- The writes the open transaction holds. -/
def openWrites (session : Session Write) : List Write :=
  match session.exec with
  | some tx => session.db.pending tx
  | none => []

/-- In how many places a transaction is: the executor, the statement's slot,
among the ended ones. -/
def places (session : Session Write) (tx : TxId) : Nat :=
  (if session.exec = some tx then 1 else 0) + (if session.stmtTx = some tx then 1 else 0) +
    session.db.ended.count tx

/-- The operation ends the statement's own transaction. -/
def Op.ends : Op Write → Bool
  | .begin _ | .endStatement _ => true
  | _ => false

/-- Whether the operation commits the statement's own transaction. -/
def Op.commits : Op Write → Bool
  | .begin _ => true
  | .endStatement wanted => wanted
  | _ => false

/-- The rows an operation writes directly, outside a transaction. -/
def made (session : Session Write) : Op Write × Calls Write → List Write
  | (.withWriteTable table f, calls) =>
      match (session.noteWrite.withHandle false table calls).1 with
      | .error _ => []
      | .ok _ => if session.db.namesTable table then [] else f.2
  | _ => []

structure Consistent (session : Session Write) : Prop where
  installed : session.inTransaction = session.exec.isSome
  alone : session.inTransaction = true → session.stmtTx = none
  handles : ∀ entry ∈ session.tables ++ session.writeTables, session.live = some entry.2.tx
  wrote : session.directWrites ≠ [] → session.stmtWrote = true
  accounted : ∀ tx, session.places tx = if tx < session.db.nextTx then 1 else 0
  unused : ∀ tx, session.db.nextTx ≤ tx → session.db.pending tx = []

section Consistency

theorem new_consistent {db : Database Write} (fresh : db.nextTx = 0 ∧ db.ended = [])
    (empty : ∀ tx, db.pending tx = []) : Consistent (new db) where
  installed := rfl
  alone := fun _ => rfl
  handles := fun entry member => by simp [new] at member
  wrote := fun some' => absurd rfl some'
  accounted := fun tx => by simp [places, new, fresh.1, fresh.2]
  unused := fun tx _ => empty tx

theorem Consistent.exec_none (consistent : Consistent session) (closed : session.inTransaction = false) :
    session.exec = none := by
  have installed := consistent.installed
  rw [closed] at installed
  simpa using installed.symm

theorem Consistent.stmtTx_none (consistent : Consistent session) (installed : session.exec = some tx) :
    session.stmtTx = none :=
  consistent.alone (by rw [consistent.installed, installed]; rfl)

/-- A live transaction is one of those begun, and not ended. -/
theorem Consistent.live_lt (consistent : Consistent session) (isLive : session.live = some tx) :
    tx < session.db.nextTx := by
  by_contra beyond
  have placed := consistent.accounted tx
  rw [if_neg beyond] at placed
  cases installed : session.exec with
  | some other =>
      simp only [live, installed, Option.some.injEq] at isLive
      simp [places, installed, isLive] at placed
  | none =>
      simp only [live, installed] at isLive
      simp [places, installed, isLive] at placed

/-- What a change of the database alone has to keep. -/
theorem Consistent.setDb (consistent : Consistent session) {db : Database Write}
    (sameTx : db.nextTx = session.db.nextTx ∧ db.ended = session.db.ended)
    (unused : ∀ tx, session.db.nextTx ≤ tx → db.pending tx = [])
    (wrote : { session with db }.directWrites ≠ [] → session.stmtWrote = true) :
    Consistent { session with db } where
  installed := consistent.installed
  alone := consistent.alone
  handles := consistent.handles
  wrote := wrote
  accounted := fun tx => by
    have placed := consistent.accounted tx
    simpa only [places, sameTx.1, sameTx.2] using placed
  unused := fun tx beyond => unused tx (sameTx.1 ▸ beyond)

/-- A change of what one live transaction holds. -/
theorem Consistent.setPending (consistent : Consistent session) (isLive : session.live = some tx)
    (writes : List Write) (noted : session.stmtTx = some tx → writes ≠ [] → session.stmtWrote = true) :
    Consistent { session with db := session.db.setPending tx writes } := by
  refine consistent.setDb ⟨rfl, rfl⟩ (fun other beyond => ?_) (fun some' => ?_)
  · have apart : other ≠ tx := Nat.ne_of_gt (Nat.lt_of_lt_of_le (consistent.live_lt isLive) beyond)
    simp only [Database.setPending, Function.update_of_ne apart]
    exact consistent.unused other beyond
  · cases own : session.stmtTx with
    | none => simp [directWrites, own] at some'
    | some other =>
        simp only [directWrites, own, Database.setPending] at some'
        by_cases same : other = tx
        · subst same
          rw [Function.update_self] at some'
          exact noted own some'
        · rw [Function.update_of_ne same] at some'
          exact consistent.wrote (by simpa [directWrites, own] using some')

theorem Consistent.publish (consistent : Consistent session) (writes : List Write) :
    Consistent { session with db := session.db.publish writes } :=
  consistent.setDb ⟨rfl, rfl⟩ consistent.unused consistent.wrote

/-- The end of the live transaction, all handles closed before. -/
theorem Consistent.finish (consistent : Consistent session) (isLive : session.live = some tx)
    {after : Session Write} (out : after.exec = none ∧ after.stmtTx = none ∧ after.isOpen = false)
    (closed : after.tables = [] ∧ after.writeTables = [])
    (nextTx : after.db.nextTx = session.db.nextTx) (ended : after.db.ended = tx :: session.db.ended)
    (pending : after.db.pending = Function.update session.db.pending tx []) : Consistent after where
  installed := by simp [inTransaction, out]
  alone := fun _ => out.2.1
  handles := fun entry member => by simp [closed] at member
  wrote := fun some' => by simp [directWrites, out] at some'
  accounted := fun other => by
    have placed := consistent.accounted other
    simp only [places, out.1, out.2.1, reduceCtorEq, if_false, nextTx, ended, List.count_cons]
    simp only [places] at placed
    cases installed : session.exec with
    | some held =>
        obtain rfl : held = tx := by simpa [live, installed] using isLive
        simp only [installed, consistent.stmtTx_none installed, Option.some.injEq, reduceCtorEq,
          if_false] at placed
        by_cases same : held = other <;> simp [same] at placed ⊢ <;> omega
    | none =>
        have own : session.stmtTx = some tx := by simpa [live, installed] using isLive
        simp only [installed, own, Option.some.injEq, reduceCtorEq, if_false] at placed
        by_cases same : tx = other <;> simp [same] at placed ⊢ <;> omega
  unused := fun other beyond => by
    rw [pending]
    by_cases same : other = tx
    · rw [same, Function.update_self]
    · rw [Function.update_of_ne same]
      exact consistent.unused other (nextTx ▸ beyond)

theorem Database.commit_nextTx (db : Database Write) : (db.commit tx calls).2.nextTx = db.nextTx := by
  unfold Database.commit
  split <;> rfl

theorem Database.commit_ended (db : Database Write) :
    (db.commit tx calls).2.ended = tx :: db.ended := by
  unfold Database.commit
  split <;> rfl

theorem Database.commit_pending (db : Database Write) :
    (db.commit tx calls).2.pending = Function.update db.pending tx [] := by
  unfold Database.commit
  split <;> rfl

theorem Database.commit_committed (db : Database Write) :
    (db.commit tx calls).2.committed =
      db.committed ++ if calls.commitFault.isNone then db.pending tx else [] := by
  unfold Database.commit
  split <;> rename_i fault <;> simp [fault, Database.publish, Database.finish, Database.setPending]

theorem Database.rollback_eq (db : Database Write) : (db.rollback tx calls).2 = db.finish tx := by
  unfold Database.rollback
  split <;> rfl

/-- A statement changes what the transaction it runs in holds, or else only
what is durable. -/
theorem Database.execute_cases (db : Database Write) (installed : Option TxId) (statement : Statement)
    (execution : Execution Write) :
    (∃ tx writes, installed = some tx ∧
        (db.execute installed statement execution).2 = db.setPending tx writes) ∨
      installed = none ∧ ∃ writes, (db.execute installed statement execution).2 = db.publish writes := by
  have kept (tx : TxId) : db = db.setPending tx (db.pending tx) := by
    simp only [Database.setPending, Function.update_eq_self]
  have nothing : db = db.publish [] := by simp [Database.publish]
  cases installed with
  | some tx =>
      refine .inl ⟨tx, ?_⟩
      cases statement <;> first
        | exact ⟨_, rfl, rfl⟩
        | exact ⟨_, rfl, kept tx⟩
  | none =>
      refine .inr ⟨rfl, ?_⟩
      simp only [Database.execute]
      cases execution.result with
      | error error => exact ⟨[], nothing⟩
      | ok count =>
          dsimp only
          split
          · exact ⟨_, rfl⟩
          · exact ⟨[], nothing⟩

theorem execute_consistent (consistent : Consistent session) (statement : Statement) :
    Consistent (session.execute statement calls).2 := by
  change Consistent { session with db := (session.db.execute session.exec statement calls.execution).2 }
  rcases session.db.execute_cases session.exec statement calls.execution with
    ⟨tx, writes, installed, same⟩ | ⟨_, writes, same⟩
  · rw [same]
    have isLive : session.live = some tx := by simp [live, installed]
    exact consistent.setPending isLive writes (by simp [consistent.stmtTx_none installed])
  · rw [same]
    exact consistent.publish writes

theorem runPlan_consistent (consistent : Consistent session) (statement : Statement) :
    Consistent (session.runPlan statement calls).2 := by
  unfold runPlan
  split
  · split
    · exact consistent
    · exact execute_consistent consistent statement
  · exact execute_consistent consistent statement

/-- The transaction lent for a SELECT comes back as it was. -/
theorem runInStmtTx_select (consistent : Consistent session) :
    (session.runInStmtTx .select calls).2 = session := by
  unfold runInStmtTx
  cases own : session.stmtTx with
  | none => rfl
  | some tx =>
      have closed : session.exec = none := by
        cases installed : session.exec with
        | none => rfl
        | some other =>
            rw [consistent.stmtTx_none installed] at own
            cases own
      simp only [execute, Database.execute, Statement.mayWrite]
      cases session
      simp_all

/-- A SELECT in the statement's own transaction leaves everything as it was,
other SQL is a plan run outside it. -/
theorem run_consistent (consistent : Consistent session) (statement : Statement) :
    Consistent (session.run statement calls).2 := by
  unfold run
  split
  · exact consistent
  · split
    · exact runPlan_consistent consistent statement
    · split
      · rw [runInStmtTx_select consistent]
        exact consistent
      · exact execute_consistent consistent _

/-- The statement's caches go. -/
theorem Consistent.closed (consistent : Consistent session) :
    Consistent { session with tables := [], writeTables := [], view := none } where
  installed := consistent.installed
  alone := consistent.alone
  handles := fun entry member => by simp at member
  wrote := consistent.wrote
  accounted := consistent.accounted
  unused := consistent.unused

theorem endStatement_none (own : session.stmtTx = none) (commit : Bool) :
    (session.endStatement commit calls).2 =
      { session with tables := [], writeTables := [], view := none } := by
  simp only [endStatement, own]

theorem endStatement_some (own : session.stmtTx = some tx) (commit : Bool) :
    (session.endStatement commit calls).2 =
      { session with
        db := if commit && session.stmtWrote then (session.db.commit tx calls).2 else session.db.finish tx,
        stmtTx := none, stmtWrote := false, tables := [], writeTables := [], view := none } := by
  simp only [endStatement, own]
  cases commit <;> cases session.stmtWrote <;> simp [Database.rollback_eq]

/-- What the end of a statement does: no transaction of its own is left, and
its direct writes are durable or gone. -/
theorem endStatement_spec (consistent : Consistent session) (calls : Calls Write) (commit : Bool) :
    Consistent (session.endStatement commit calls).2 ∧
      (session.endStatement commit calls).2.stmtTx = none ∧
      (session.endStatement commit calls).2.exec = session.exec ∧
      (session.endStatement commit calls).2.db.committed = session.db.committed ++
        (if commit && calls.commitFault.isNone then session.directWrites else []) ∧
      ∀ tx, session.stmtTx = some tx → tx ∈ (session.endStatement commit calls).2.db.ended := by
  cases own : session.stmtTx with
  | none =>
      rw [endStatement_none own]
      exact ⟨consistent.closed, own, rfl, by simp [directWrites, own], fun tx isOwn => by cases isOwn⟩
  | some tx =>
      have idle : session.exec = none := by
        cases installed : session.exec with
        | none => rfl
        | some other =>
            rw [consistent.stmtTx_none installed] at own
            cases own
      have outside : session.isOpen = false := by
        have installed := consistent.installed
        rw [idle] at installed
        exact installed
      have isLive : session.live = some tx := by simp [live, idle, own]
      rw [endStatement_some own]
      cases settled : commit && session.stmtWrote with
      | true =>
          obtain ⟨rfl, -⟩ := Bool.and_eq_true_iff.mp settled
          simp only [if_true]
          refine ⟨consistent.finish isLive ⟨idle, rfl, outside⟩ ⟨rfl, rfl⟩ (Database.commit_nextTx _)
            (Database.commit_ended _) (Database.commit_pending _), trivial, trivial, ?_, ?_⟩
          · simp only [Database.commit_committed, directWrites, own, Bool.true_and]
          · intro other isOther
            cases isOther
            rw [Database.commit_ended]
            exact List.mem_cons_self
      | false =>
          simp only [Bool.false_eq_true, if_false]
          refine ⟨consistent.finish isLive ⟨idle, rfl, outside⟩ ⟨rfl, rfl⟩ rfl rfl rfl, trivial, trivial, ?_, ?_⟩
          · have lost : commit = false ∨ session.directWrites = [] := by
              by_contra held
              obtain ⟨wanted, some'⟩ := not_or.mp held
              simp [consistent.wrote some', wanted] at settled
            rcases lost with discarded | nothing
            · simp [discarded, Database.finish, Database.setPending]
            · simp [nothing, Database.finish, Database.setPending]
          · intro other isOther
            cases isOther
            exact List.mem_cons_self

omit tx in
theorem places_begin (tx nextTx : TxId) :
    (if nextTx = tx then 1 else 0) + (if tx < nextTx then 1 else 0) = if tx < nextTx + 1 then 1 else 0 := by
  rcases Nat.lt_trichotomy tx nextTx with less | same | more
  · simp [less, Nat.ne_of_gt less, Nat.lt_succ_of_lt less]
  · simp [same]
  · simp [Nat.not_lt.mpr (Nat.le_of_lt more), Nat.ne_of_lt more, Nat.not_lt.mpr (Nat.succ_le_of_lt more)]

theorem endStatement_keys (session : Session Write) (calls : Calls Write) (commit : Bool) :
    (session.endStatement commit calls).2.db.foreignKeys = session.db.foreignKeys := by
  cases own : session.stmtTx with
  | none => rw [endStatement_none own]
  | some tx =>
      rw [endStatement_some own]
      simp only [Database.commit]
      split
      · split <;> rfl
      · rfl

theorem endStatement_isOpen (session : Session Write) (calls : Calls Write) (commit : Bool) :
    (session.endStatement commit calls).2.isOpen = session.isOpen := by
  cases own : session.stmtTx with
  | none => rw [endStatement_none own]
  | some tx => rw [endStatement_some own]

/-- The end of a statement that wrote reports whether its commit failed. -/
theorem endStatement_isOk (consistent : Consistent session) (held : session.directWrites ≠ []) :
    (session.endStatement true calls).1.isOk = calls.commitFault.isNone := by
  have wrote := consistent.wrote held
  cases own : session.stmtTx with
  | none => simp [directWrites, own] at held
  | some tx =>
      simp only [endStatement, own, wrote, Bool.not_true, Bool.or_self, Bool.false_eq_true, if_false,
        Database.commit]
      cases calls.commitFault <;> rfl

/-- A transaction begun when none is live, held by the executor. -/
theorem Consistent.begun (consistent : Consistent session) (idle : session.exec = none)
    (noStmtTx : session.stmtTx = none) (level : IsolationLevel) :
    Consistent { session with db := session.db.begin, exec := some session.db.nextTx, level,
                              isOpen := true } where
  installed := rfl
  alone := fun _ => noStmtTx
  handles := fun entry member => by
    have held := consistent.handles entry member
    simp [live, idle, noStmtTx] at held
  wrote := fun some' => by simp [directWrites, noStmtTx] at some'
  accounted := fun tx => by
    have placed := consistent.accounted tx
    simp only [places, idle, noStmtTx, reduceCtorEq, if_false, Nat.zero_add] at placed
    simp only [places, noStmtTx, Database.begin, Option.some.injEq, reduceCtorEq, if_false, Nat.add_zero, placed]
    exact places_begin tx session.db.nextTx
  unused := fun tx beyond => consistent.unused tx (Nat.le_of_succ_le beyond)

/-- The same for the statement's own transaction. -/
theorem Consistent.begunForStatement (consistent : Consistent session) (idle : session.exec = none)
    (noStmtTx : session.stmtTx = none) :
    Consistent { session with db := session.db.begin, stmtTx := some session.db.nextTx } where
  installed := consistent.installed
  alone := fun inside => by
    have installed := consistent.installed
    rw [idle] at installed
    exact absurd (installed.symm.trans inside) Bool.false_ne_true
  handles := fun entry member => by
    have held := consistent.handles entry member
    simp [live, idle, noStmtTx] at held
  wrote := fun some' => by simp [directWrites, Database.begin, consistent.unused] at some'
  accounted := fun tx => by
    have placed := consistent.accounted tx
    simp only [places, idle, noStmtTx, reduceCtorEq, if_false, Nat.zero_add] at placed
    simp only [places, idle, Database.begin, Option.some.injEq, reduceCtorEq, if_false, Nat.zero_add, placed]
    exact places_begin tx session.db.nextTx
  unused := fun tx beyond => consistent.unused tx (Nat.le_of_succ_le beyond)

theorem begin_consistent (consistent : Consistent session) (level : IsolationLevel) :
    Consistent (session.begin level calls).2 := by
  unfold begin
  split
  · exact consistent
  · rename_i outside
    have idle : session.exec = none := consistent.exec_none (by simpa using outside)
    obtain ⟨after, noStmtTx, sameExec, _, _⟩ := endStatement_spec consistent calls true
    split
    · rename_i ended
      rw [ended] at after
      exact after
    · rename_i ended
      rw [ended] at after noStmtTx sameExec
      split
      · exact after
      · exact after.begun (sameExec.trans idle) noStmtTx level

theorem take_some (installed : session.exec = some tx) :
    session.take =
      (.ok tx, { session with isOpen := false, tables := [], writeTables := [], exec := none }) := by
  simp only [take, installed]

theorem take_none (consistent : Consistent session) (idle : session.exec = none) :
    Consistent session.take.2 := by
  have outside := consistent.installed
  rw [idle] at outside
  have same : session.take.2 = { session with tables := [], writeTables := [] } := by
    simp only [inTransaction] at outside
    cases session
    simp_all [take]
  rw [same]
  exact { consistent.closed with }

theorem commit_consistent (consistent : Consistent session) : Consistent (session.commit calls).2 := by
  unfold commit
  cases installed : session.exec with
  | none =>
      have after := take_none consistent installed
      simp only [take, installed] at after ⊢
      exact after
  | some tx =>
      have isLive : session.live = some tx := by simp [live, installed]
      rw [take_some installed]
      exact consistent.finish isLive ⟨rfl, consistent.stmtTx_none installed, rfl⟩ ⟨rfl, rfl⟩
        (Database.commit_nextTx _) (Database.commit_ended _) (Database.commit_pending _)

theorem rollback_consistent (consistent : Consistent session) :
    Consistent (session.rollback calls).2 := by
  unfold rollback
  cases installed : session.exec with
  | none =>
      have after := take_none consistent installed
      simp only [take, installed] at after ⊢
      exact after
  | some tx =>
      have isLive : session.live = some tx := by simp [live, installed]
      rw [take_some installed]
      simp only [Database.rollback_eq]
      exact consistent.finish isLive ⟨rfl, consistent.stmtTx_none installed, rfl⟩ ⟨rfl, rfl⟩ rfl rfl rfl

/-- What direct access needs of the session it starts from and leaves: the
same but for caches, view and a transaction of the statement begun. -/
structure Accessed (before after : Session Write) : Prop where
  consistent : Consistent after
  exec : after.exec = before.exec
  isOpen : after.isOpen = before.isOpen
  committed : after.db.committed = before.db.committed
  keys : after.db.foreignKeys = before.db.foreignKeys
  own : ∀ tx, before.stmtTx = some tx → after.stmtTx = some tx
  directWrites : after.directWrites = before.directWrites
  openWrites : after.openWrites = before.openWrites
  stmtWrote : after.stmtWrote = before.stmtWrote

theorem Accessed.refl (consistent : Consistent session) : Accessed session session :=
  ⟨consistent, rfl, rfl, rfl, rfl, fun _ own => own, rfl, rfl, rfl⟩

theorem Accessed.trans {first second third : Session Write} (one : Accessed first second)
    (two : Accessed second third) : Accessed first third where
  consistent := two.consistent
  exec := two.exec.trans one.exec
  isOpen := two.isOpen.trans one.isOpen
  committed := two.committed.trans one.committed
  keys := two.keys.trans one.keys
  own := fun tx own => two.own tx (one.own tx own)
  directWrites := two.directWrites.trans one.directWrites
  openWrites := two.openWrites.trans one.openWrites
  stmtWrote := two.stmtWrote.trans one.stmtWrote

/-- The transaction found is the live one. -/
theorem accessTx_accessed (consistent : Consistent session) (calls : Calls Write) :
    Accessed session (session.accessTx calls).2 ∧
      ∀ tx, (session.accessTx calls).1 = .ok tx → (session.accessTx calls).2.live = some tx := by
  have same := Accessed.refl consistent
  unfold accessTx
  split
  · cases installed : session.exec with
    | none => exact ⟨same, fun tx ok => by cases ok⟩
    | some tx =>
        refine ⟨same, fun other ok => ?_⟩
        cases ok
        simp [live, installed]
  · rename_i outside
    have idle : session.exec = none := consistent.exec_none (by simpa using outside)
    cases own : session.stmtTx with
    | some tx =>
        refine ⟨same, fun other ok => ?_⟩
        cases ok
        simp [live, idle, own]
    | none =>
        dsimp only
        split
        · exact ⟨same, fun tx ok => by cases ok⟩
        · refine ⟨?_, fun tx ok => ?_⟩
          · exact ⟨consistent.begunForStatement idle own, rfl, rfl, rfl, rfl, fun tx isOwn => by simp [own] at isOwn,
              by simp [directWrites, own, Database.begin, consistent.unused],
              by simp [openWrites, idle], rfl⟩
          · cases ok
            simp [live, idle]

theorem Consistent.cache (consistent : Consistent session) (entry : String × Handle Write)
    (isLive : session.live = some entry.2.tx) :
    Consistent { session with tables := entry :: session.tables } ∧
      Consistent { session with writeTables := entry :: session.writeTables } := by
  constructor
  · refine { consistent with handles := fun other member => ?_ }
    rcases List.mem_cons.mp member with rfl | old
    · exact isLive
    · exact consistent.handles other old
  · refine { consistent with handles := fun other member => ?_ }
    rcases List.mem_append.mp member with old | written
    · exact consistent.handles other (List.mem_append_left _ old)
    · rcases List.mem_cons.mp written with rfl | old
      · exact isLive
      · exact consistent.handles other (List.mem_append_right _ old)

theorem openTable_accessed (consistent : Consistent session) (tx : TxId) (calls : Calls Write)
    (withView : Bool) (table : String) :
    Accessed session (session.openTable tx withView table calls).2 ∧
      (session.openTable tx withView table calls).2.stmtTx = session.stmtTx ∧
      ∀ handle, (session.openTable tx withView table calls).1 = .ok handle → handle.tx = tx := by
  have viewed (view : Option (List Write)) : Accessed session { session with view } :=
    ⟨{ consistent with }, rfl, rfl, rfl, rfl, fun _ own => own, rfl, rfl, rfl⟩
  have viewTaken : (session.openTable tx withView table calls).2 =
      if withView && session.view.isNone then { session with view := some session.db.committed }
      else session := by
    unfold openTable
    dsimp only
    split
    · rfl
    · split <;> rfl
  have opened : ∃ view, (session.openTable tx withView table calls).2 = { session with view } := by
    rw [viewTaken]
    split
    · exact ⟨_, rfl⟩
    · exact ⟨session.view, rfl⟩
  obtain ⟨view, same⟩ := opened
  rw [same]
  refine ⟨viewed view, rfl, fun handle ok => ?_⟩
  unfold openTable at ok
  dsimp only at ok
  split at ok
  · cases ok
  · split at ok
    · cases ok
      rfl
    · cases ok

/-- The handle returned, cached or new, is one of the live transaction. -/
theorem withHandle_accessed (consistent : Consistent session) (calls : Calls Write) (read : Bool)
    (table : String) :
    Accessed session (session.withHandle read table calls).2 ∧
      ∀ handle, (session.withHandle read table calls).1 = .ok handle →
        (session.withHandle read table calls).2.live = some handle.tx := by
  unfold withHandle
  split
  · rename_i handle cached
    refine ⟨Accessed.refl consistent, fun other ok => ?_⟩
    cases ok
    refine consistent.handles (table, handle) (List.mem_append.mpr ?_)
    cases read with
    | true => exact .inl (Lookup.mem_of_lookup cached)
    | false => exact .inr (Lookup.mem_of_lookup cached)
  · obtain ⟨accessed, found⟩ := accessTx_accessed consistent calls
    split
    · rename_i ran
      rw [ran] at accessed
      exact ⟨accessed, fun handle ok => by cases ok⟩
    · rename_i tx after ran
      rw [ran] at accessed found
      have isLive : after.live = some tx := found tx rfl
      dsimp only
      obtain ⟨opened, sameTx, ofTx⟩ := openTable_accessed accessed.consistent tx calls
        (read && decide ((if after.inTransaction then after.level else calls.isolationLevel) =
          IsolationLevel.readCommitted)) table
      split
      · rename_i failed
        rw [failed] at opened
        exact ⟨accessed.trans opened, fun handle ok => by cases ok⟩
      · rename_i handle last gave
        rw [gave] at opened sameTx ofTx
        have stillLive : last.live = some tx := by
          have sameExec : last.exec = after.exec := opened.exec
          have sameOwn : last.stmtTx = after.stmtTx := sameTx
          simpa only [live, sameExec, sameOwn] using isLive
        have own : handle.tx = tx := ofTx handle rfl
        have kept := opened.consistent.cache (table, handle) (own ▸ stillLive)
        refine ⟨accessed.trans (opened.trans ?_), fun other ok => ?_⟩
        · cases read with
          | true => exact ⟨kept.1, rfl, rfl, rfl, rfl, fun _ isOwn => isOwn, rfl, rfl, rfl⟩
          | false => exact ⟨kept.2, rfl, rfl, rfl, rfl, fun _ isOwn => isOwn, rfl, rfl, rfl⟩
        · cases ok
          cases read <;> exact own ▸ stillLive

theorem withTable_accessed (consistent : Consistent session) (calls : Calls Write) (table : String)
    (f : Except Error Int64) :
    Accessed session (session.withTable table f calls).2 := by
  unfold withTable
  split
  · exact Accessed.refl consistent
  · have accessed := (withHandle_accessed consistent calls true table).1
    split
    · rename_i ran
      rw [ran] at accessed
      exact accessed
    · rename_i ran
      rw [ran] at accessed
      exact accessed

omit tx in
theorem noteWrite_spec (consistent : Consistent session) :
    Consistent session.noteWrite ∧ session.noteWrite.isOpen = session.isOpen ∧
      session.noteWrite.db = session.db ∧ session.noteWrite.directWrites = session.directWrites ∧
      (session.isOpen = false → session.noteWrite.stmtWrote = true) := by
  unfold noteWrite
  split
  · rename_i inside
    exact ⟨consistent, rfl, rfl, rfl, fun outside => absurd (inside.symm.trans outside) Bool.noConfusion⟩
  · exact ⟨{ consistent with wrote := fun _ => rfl }, rfl, rfl, rfl, fun _ => rfl⟩

/-- A direct write goes to the live transaction; outside an open one that is
the statement's own. -/
theorem withWriteTable_spec (consistent : Consistent session) (calls : Calls Write) (table : String)
    (f : Except Error Int64 × List Write) :
    Consistent (session.withWriteTable table f calls).2 ∧
      (session.withWriteTable table f calls).2.isOpen = session.isOpen ∧
      (session.withWriteTable table f calls).2.db.committed = session.db.committed ∧
      (session.isOpen = false → (session.withWriteTable table f calls).2.directWrites =
        session.directWrites ++ made session (.withWriteTable table f, calls)) := by
  obtain ⟨notedConsistent, sameOpen, sameDb, sameWrites, flagged⟩ := noteWrite_spec consistent
  obtain ⟨accessed, isLive⟩ := withHandle_accessed notedConsistent calls false table
  unfold withWriteTable
  simp only [made]
  split
  · rename_i error after ran
    rw [ran] at accessed
    simp only [ran, List.append_nil]
    exact ⟨accessed.consistent, accessed.isOpen.trans sameOpen, by rw [accessed.committed, sameDb],
      fun _ => accessed.directWrites.trans sameWrites⟩
  · rename_i handle after ran
    rw [ran] at accessed isLive
    have handleLive : after.live = some handle.tx := isLive handle rfl
    have stillOpen : after.isOpen = session.isOpen := accessed.isOpen.trans sameOpen
    have sameCommitted : after.db.committed = session.db.committed := by
      have same : after.db.committed = session.noteWrite.db.committed := accessed.committed
      rw [same, sameDb]
    have sameDirect : after.directWrites = session.directWrites := accessed.directWrites.trans sameWrites
    have sameKeys : after.db.namesTable table = session.db.namesTable table := by
      have keys : after.db.foreignKeys = session.noteWrite.db.foreignKeys := accessed.keys
      rw [Database.namesTable, Database.namesTable, keys, sameDb]
    simp only [ran, sameKeys]
    split
    · simp only [List.append_nil]
      exact ⟨accessed.consistent, stillOpen, sameCommitted, fun _ => sameDirect⟩
    · refine ⟨accessed.consistent.setPending handleLive _ fun own _ => ?_, stillOpen, sameCommitted,
        fun outside => ?_⟩
      · have flag : after.stmtWrote = session.noteWrite.stmtWrote := accessed.stmtWrote
        refine flag.trans (flagged (stillOpen.symm.trans ?_))
        cases isOpen : after.isOpen with
        | false => rfl
        | true =>
            have alone := accessed.consistent.alone isOpen
            rw [own] at alone
            cases alone
      · have idle : after.exec = none := accessed.consistent.exec_none (stillOpen.trans outside)
        have own : after.stmtTx = some handle.tx := by simpa [live, idle] using handleLive
        have held : after.db.pending handle.tx = session.directWrites := by
          simpa only [directWrites, own] using sameDirect
        simp only [directWrites, own, Database.write, Database.setPending, Function.update_self, held]

theorem withWriteTable_result (calls : Calls Write) (table : String)
    (f : Except Error Int64 × List Write) (consistent : Consistent session) :
    (session.withWriteTable table f calls).2.db.foreignKeys = session.db.foreignKeys ∧
      (session.withWriteTable table f calls).1 =
        match (session.noteWrite.withHandle false table calls).1 with
        | .error error => .error error
        | .ok _ => if session.db.namesTable table then .ok none else f.1.map some := by
  obtain ⟨notedConsistent, -, sameDb, -, -⟩ := noteWrite_spec consistent
  obtain ⟨accessed, -⟩ := withHandle_accessed notedConsistent calls false table
  unfold withWriteTable
  split
  · rename_i ran
    rw [ran] at accessed
    exact ⟨accessed.keys.trans (by rw [sameDb]), by rw [ran]⟩
  · rename_i after ran
    rw [ran] at accessed
    have sameKeys : after.db.foreignKeys = session.db.foreignKeys := accessed.keys.trans (by rw [sameDb])
    simp only [ran, Database.namesTable, sameKeys]
    split
    · rename_i named
      exact ⟨sameKeys, (if_pos named).symm⟩
    · rename_i unnamed
      exact ⟨sameKeys, (if_neg unnamed).symm⟩

theorem step_consistent (consistent : Consistent session) (op : Op Write × Calls Write) :
    Consistent (step session op) := by
  obtain ⟨op, calls⟩ := op
  cases op with
  | run statement => exact run_consistent consistent statement
  | runPlan statement => exact runPlan_consistent consistent statement
  | begin level => exact begin_consistent consistent level
  | commit => exact commit_consistent consistent
  | rollback => exact rollback_consistent consistent
  | withTable table f => exact (withTable_accessed consistent calls table f).consistent
  | withWriteTable table f => exact (withWriteTable_spec consistent calls table f).1
  | endStatement commit => exact (endStatement_spec consistent calls commit).1

/-- Outside a transaction a statement leaves the statement's own alone. -/
theorem execute_outside (idle : session.exec = none) (calls : Calls Write) (statement : Statement) :
    (session.execute statement calls).2.isOpen = session.isOpen ∧
      (session.execute statement calls).2.directWrites = session.directWrites := by
  rcases session.db.execute_cases session.exec statement calls.execution with
    ⟨tx, writes, installed, -⟩ | ⟨-, writes, same⟩
  · rw [idle] at installed
    cases installed
  · simp only [execute, same, directWrites, Database.publish, true_and]

theorem take_outside (idle : session.exec = none) :
    session.take = (.error .transactionEnded, session.take.2) ∧ session.take.2.isOpen = false ∧
      session.take.2.directWrites = session.directWrites := by
  simp [take, idle, directWrites]

/-- An operation outside a transaction that does not end the statement's own
keeps its direct writes and adds those it makes. -/
theorem step_outside (consistent : Consistent session) (outside : session.isOpen = false)
    (op : Op Write × Calls Write) (going : op.1.ends = false) :
    (step session op).isOpen = false ∧
      (step session op).directWrites = session.directWrites ++ made session op := by
  have idle : session.exec = none := consistent.exec_none outside
  obtain ⟨op, calls⟩ := op
  cases op with
  | run statement =>
      simp only [step, made, List.append_nil, run, inTransaction, outside, Bool.false_eq_true, if_false]
      split
      · exact ⟨outside, rfl⟩
      · split
        · rw [runInStmtTx_select consistent]
          exact ⟨outside, rfl⟩
        · exact ⟨(execute_outside idle calls _).1.trans outside, (execute_outside idle calls _).2⟩
  | runPlan statement =>
      simp only [step, made, List.append_nil, runPlan, inTransaction, outside, Bool.false_eq_true, if_false]
      obtain ⟨sameOpen, sameWrites⟩ := execute_outside idle calls statement
      exact ⟨sameOpen.trans outside, sameWrites⟩
  | begin level => cases going
  | commit =>
      obtain ⟨taken, closed, sameWrites⟩ := take_outside idle
      simp only [step, made, List.append_nil, commit]
      rw [taken]
      exact ⟨closed, sameWrites⟩
  | rollback =>
      obtain ⟨taken, closed, sameWrites⟩ := take_outside idle
      simp only [step, made, List.append_nil, rollback]
      rw [taken]
      exact ⟨closed, sameWrites⟩
  | withTable table f =>
      have accessed := withTable_accessed consistent calls table f
      simp only [step, made, List.append_nil]
      exact ⟨accessed.isOpen.trans outside, accessed.directWrites⟩
  | withWriteTable table f =>
      obtain ⟨-, sameOpen, -, written⟩ := withWriteTable_spec consistent calls table f
      exact ⟨sameOpen.trans outside, written outside⟩
  | endStatement commit => cases going

/-- The operation that ends the statement's own transaction makes its direct
writes durable or drops them. -/
theorem step_ends (consistent : Consistent session) (outside : session.isOpen = false)
    (op : Op Write × Calls Write) (last : op.1.ends = true) :
    (step session op).db.committed = session.db.committed ++
        (if op.1.commits && op.2.commitFault.isNone then session.directWrites else []) ∧
      (step session op).stmtTx = none ∧
      ∀ tx, session.stmtTx = some tx → tx ∈ (step session op).db.ended := by
  obtain ⟨op, calls⟩ := op
  cases op with
  | begin level =>
      obtain ⟨-, noStmtTx, -, committed, ended⟩ := endStatement_spec consistent calls true
      simp only [step, Op.commits, begin, inTransaction, outside, Bool.false_eq_true, if_false]
      split
      · rename_i ran
        rw [ran] at noStmtTx committed ended
        exact ⟨committed, noStmtTx, ended⟩
      · rename_i ran
        rw [ran] at noStmtTx committed ended
        split
        · exact ⟨committed, noStmtTx, ended⟩
        · exact ⟨committed, noStmtTx, ended⟩
  | endStatement commit =>
      obtain ⟨-, noStmtTx, -, committed, ended⟩ := endStatement_spec consistent calls commit
      exact ⟨committed, noStmtTx, ended⟩
  | _ => cases last

/-- Direct writes stay with the session until an operation ends the statement's
own transaction. -/
theorem after_outside (consistent : Consistent session) (outside : session.isOpen = false)
    {ops : List (Op Write × Calls Write)} (going : ∀ op ∈ ops, op.1.ends = false) :
    Consistent (Runs.after step session ops) ∧ (Runs.after step session ops).isOpen = false ∧
      session.directWrites <+: (Runs.after step session ops).directWrites := by
  induction ops generalizing session with
  | nil => exact ⟨consistent, outside, List.prefix_rfl⟩
  | cons op ops ih =>
      obtain ⟨closed, written⟩ := step_outside consistent outside op (going op List.mem_cons_self)
      obtain ⟨after, afterClosed, kept⟩ := ih (step_consistent consistent op) closed
        fun other member => going other (List.mem_cons_of_mem _ member)
      rw [written] at kept
      exact ⟨after, afterClosed, (List.prefix_append _ _).trans kept⟩

end Consistency

/-- A new session on the engine. -/
def Fresh (session : Session Write) : Prop :=
  ∃ db : Database Write, session = new db ∧ db.nextTx = 0 ∧ db.ended = [] ∧ ∀ tx, db.pending tx = []

theorem consistent_of_run {start : Session Write} (fresh : Fresh start) (ops : List (Op Write × Calls Write)) :
    Consistent (Runs.after step start ops) := by
  obtain ⟨db, rfl, noTx, noEnded, empty⟩ := fresh
  have preserved (session : Session Write) (op : Op Write × Calls Write) (consistent : Consistent session)
      (_ : True) : Consistent (step session op) := step_consistent consistent op
  exact Runs.after_of_preserved preserved (new_consistent ⟨noTx, noEnded⟩ empty)
    (Runs.along_of_forall fun _ _ => trivial)

/-- Over every run of operations the session's state is consistent, and what
is written directly outside a transaction is still held when an operation ends
the statement's own transaction, which commits it or, only when it should or
the commit fails, drops it. -/
theorem session_state_machine {start : Session Write} (fresh : Fresh start)
    (ops : List (Op Write × Calls Write)) :
    Runs.Along step (fun session op => Consistent session ∧ Consistent (step session op)) start ops ∧
      ∀ (before between after : List (Op Write × Calls Write)) (write last : Op Write × Calls Write),
        ops = before ++ write :: between ++ last :: after →
        (Runs.after step start before).inTransaction = false →
        (∀ op ∈ write :: between, op.1.ends = false) → last.1.ends = true →
        let session := Runs.after step start (before ++ write :: between)
        made (Runs.after step start before) write <:+: session.directWrites ∧
          (step session last).db.committed = session.db.committed ++
            (if last.1.commits && last.2.commitFault.isNone then session.directWrites else []) ∧
          (step session last).stmtTx = none ∧
          ∀ tx, session.stmtTx = some tx → tx ∈ (step session last).db.ended := by
  obtain ⟨db, rfl, noTx, noEnded, empty⟩ := fresh
  have initial : Consistent (new db) := new_consistent ⟨noTx, noEnded⟩ empty
  have unguarded {ops : List (Op Write × Calls Write)} :
      Runs.Along step (fun _ _ => True) (new db) ops := Runs.along_of_forall fun _ _ => trivial
  have preserved (session : Session Write) (op : Op Write × Calls Write) (consistent : Consistent session)
      (_ : True) : Consistent (step session op) := step_consistent consistent op
  refine ⟨Runs.along_of_step preserved
    (fun session op consistent _ => ⟨consistent, step_consistent consistent op⟩) initial unguarded, ?_⟩
  intro before between after write last _ outside going isLast session
  have consistent := consistent_of_run ⟨db, rfl, noTx, noEnded, empty⟩ before
  obtain ⟨closed, written⟩ := step_outside consistent outside write (going write List.mem_cons_self)
  obtain ⟨held, stillClosed, kept⟩ := after_outside (step_consistent consistent write) closed
    fun op member => going op (List.mem_cons_of_mem _ member)
  have same : session = Runs.after step (step (Runs.after step (new db) before) write) between := by
    simp only [session, Runs.after_append, Runs.after_cons]
  rw [← same] at held stillClosed kept
  rw [written] at kept
  exact ⟨(List.suffix_append _ _).isInfix.trans kept.isInfix, step_ends held stillClosed last isLast⟩

/-- An engine with the tables `t`, and `c` that references `p`. -/
def sampleDb : Database Nat where
  tables := ["t", "c", "p"]
  foreignKeys := [⟨"c", "p"⟩]
  committed := []
  pending _ := []
  nextTx := 0
  ended := []

/-- An engine that does as asked. -/
def willing : Calls Nat where
  planFault := none
  execution := { result := .ok 1, writes := [], keep := 0 }
  isolationLevel := .readCommitted
  beginFault := none
  commitFault := none
  rollbackFault := none
  tableFault := none

/-- A direct write, a SELECT that sees it and an UPDATE beside it. -/
def sampleWrites : List (Op Nat × Calls Nat) :=
  [(.withWriteTable "t" (.ok 1, [7]), willing), (.run .select, willing), (.run .update, willing)]

/-- A refused second BEGIN, a COMMIT, and a write discarded. -/
def sampleRest : List (Op Nat × Calls Nat) :=
  [(.begin .readCommitted, willing), (.commit, willing),
    (.withWriteTable "t" (.ok 1, [8]), willing), (.endStatement false, willing)]

/-- The BEGIN in between makes the direct write durable. -/
theorem session_state_machine_sample :
    let begins : Op Nat × Calls Nat := (.begin .snapshotIsolation, willing)
    Runs.Along step (fun session op => Consistent session ∧ Consistent (step session op)) (new sampleDb)
        (sampleWrites ++ begins :: sampleRest) ∧
      [7] <:+: (Runs.after step (new sampleDb) sampleWrites).directWrites ∧
      (step (Runs.after step (new sampleDb) sampleWrites) begins).db.committed = [7] := by
  intro begins
  have run := session_state_machine ⟨sampleDb, rfl, rfl, rfl, fun _ => rfl⟩ (sampleWrites ++ begins :: sampleRest)
  obtain ⟨held, committed, -⟩ := run.2 [] [(.run .select, willing), (.run .update, willing)] sampleRest
    (.withWriteTable "t" (.ok 1, [7]), willing) begins rfl rfl (by simp [Op.ends]) rfl
  exact ⟨run.1, held, committed.trans rfl⟩

end StoolapMariadb.Session
