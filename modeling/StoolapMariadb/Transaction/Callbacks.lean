import StoolapMariadb.Transaction.Savepoints

namespace StoolapMariadb.Transaction

/-! What a callback does to a connection's context its entries do to the
connection's account. -/

open StoolapMariadb.Session Checkpoints

variable {Write : Type}

/-- The session and the handle of a context agree with its account. -/
structure Refines (context : ThdContext Write) (account : Account Write) : Prop where
  consistent : Consistent context.session
  handle : context.hasTx = context.session.isOpen
  own : context.session.directWrites = account.own
  held : Option.Rel (Represents spName) (if context.hasTx then some context.log else none) account.held
  last : context.nextSavepointId.toNat = account.lastSavepoint

/-- What a call does to the context its entries do to the account. -/
structure Enters (newerStay : Bool) (context after : ThdContext Write) (account : Account Write)
    (entries : List (Action Write)) : Prop where
  durable : after.session.db.committed =
    (entries.foldl (act newerStay) (context.session.db.committed, account)).1
  refines : Refines after (entries.foldl (act newerStay) (context.session.db.committed, account)).2

section Callbacks

variable {newerStay : Bool} {context middle after : ThdContext Write} {account : Account Write}
  {stack : Stack Nat Write} {entries first later : List (Action Write)} {calls : Calls Write}

theorem Refines.inside (refines : Refines context account) (hasTx : context.hasTx = true) :
    Inside context.session context.session.openWrites ∧ account.own = [] ∧
      ∃ stack, account.held = some stack ∧ Represents spName context.log stack := by
  have isInside : Inside context.session context.session.openWrites :=
    ⟨refines.consistent, refines.handle.symm.trans hasTx, rfl⟩
  obtain ⟨-, -, noStmtTx, -⟩ := isInside.installed
  refine ⟨isInside, refines.own.symm.trans (directWrites_nil noStmtTx), ?_⟩
  have held := refines.held
  rw [if_pos hasTx] at held
  cases isHeld : account.held with
  | none =>
      rw [isHeld] at held
      cases held
  | some stack =>
      rw [isHeld] at held
      cases held with
      | some represents => exact ⟨stack, rfl, represents⟩

theorem Refines.outside (refines : Refines context account) (noTx : context.hasTx = false) :
    Outside context.session ∧ account.held = none := by
  refine ⟨⟨refines.consistent, refines.handle.symm.trans noTx⟩, ?_⟩
  have held := refines.held
  rw [if_neg (by simp [noTx])] at held
  cases isHeld : account.held with
  | none => rfl
  | some stack =>
      rw [isHeld] at held
      cases held

theorem Refines.of_inside (inside : Inside context.session context.session.openWrites) (hasTx : context.hasTx = true)
    (own : account.own = []) (isHeld : account.held = some stack) (represents : Represents spName context.log stack)
    (last : context.nextSavepointId.toNat = account.lastSavepoint) : Refines context account where
  consistent := inside.consistent
  handle := hasTx.trans inside.isOpen.symm
  own := by
    obtain ⟨-, -, noStmtTx, -⟩ := inside.installed
    rw [directWrites_nil noStmtTx, own]
  held := by
    rw [if_pos hasTx, isHeld]
    exact .some represents
  last := last

theorem Refines.of_outside (outside : Outside context.session) (noTx : context.hasTx = false)
    (own : context.session.directWrites = account.own) (isHeld : account.held = none)
    (last : context.nextSavepointId.toNat = account.lastSavepoint) : Refines context account where
  consistent := outside.consistent
  handle := noTx.trans outside.closed.symm
  own := own
  held := by
    rw [if_neg (by simp [noTx]), isHeld]
    exact .none
  last := last

theorem Enters.none (refines : Refines context account) : Enters newerStay context context account [] :=
  ⟨rfl, refines⟩

theorem Enters.trans (one : Enters newerStay context middle account first)
    (two : Enters newerStay middle after (first.foldl (act newerStay) (context.session.db.committed, account)).2
      later) :
    Enters newerStay context after account (first ++ later) := by
  have whole : (first ++ later).foldl (act newerStay) (context.session.db.committed, account) =
      later.foldl (act newerStay)
        (middle.session.db.committed, (first.foldl (act newerStay) (context.session.db.committed, account)).2) := by
    rw [List.foldl_append, one.durable]
  exact ⟨by rw [whole, two.durable], by rw [whole]; exact two.refines⟩

theorem Refines.accessed (refines : Refines context account) {session : Session Write}
    (accessed : Accessed context.session session) : Enters newerStay context { context with session } account [] where
  durable := accessed.committed
  refines := {
    consistent := accessed.consistent
    handle := refines.handle.trans accessed.isOpen.symm
    own := accessed.directWrites.trans refines.own
    held := by
      have same : ({ context with session } : ThdContext Write).log = context.log := by
        rw [ThdContext.log, ThdContext.log, accessed.openWrites]
      rw [same]
      exact refines.held
    last := refines.last }

theorem begin_enters (refines : Refines context account) (level : IsolationLevel) (calls : Calls Write) :
    Enters newerStay context (context.begin level calls).2 account (context.begins level calls) := by
  cases hasTx : context.hasTx with
  | true =>
      simp only [ThdContext.begin, ThdContext.begins, hasTx, if_true]
      exact .none refines
  | false =>
      obtain ⟨outside, isHeld⟩ := refines.outside hasTx
      obtain ⟨committed, -, begun⟩ := begin_ends outside level calls
      rcases ran : context.session.begin level calls with ⟨answer, session⟩
      rw [ran] at committed begun
      rw [refines.own] at committed
      cases answer with
      | error error =>
          obtain ⟨closed, unwritten⟩ := begun
          have begins : context.begin level calls = (.error error, { context with session }) := by
            simp [ThdContext.begin, hasTx, ran]
          have entered : context.begins level calls = [.statementEnds calls.commitFault.isNone] := by
            simp [ThdContext.begins, hasTx, begins, Except.isOk, Except.toBool]
          rw [begins, entered]
          exact ⟨committed, .of_outside closed hasTx unwritten isHeld refines.last⟩
      | ok done =>
          have begins : context.begin level calls = (.ok (), { context with session, hasTx := true, marks := [] }) := by
            simp [ThdContext.begin, hasTx, ran]
          have entered : context.begins level calls = [.statementEnds calls.commitFault.isNone, .begins] := by
            simp [ThdContext.begins, hasTx, begins, Except.isOk, Except.toBool]
          have isInside : Inside session session.openWrites := ⟨begun.consistent, begun.isOpen, rfl⟩
          rw [begins, entered]
          refine ⟨committed, .of_inside isInside rfl rfl rfl ?_ refines.last⟩
          have nothing : session.openWrites = [] := begun.holds
          rw [ThdContext.log, nothing]
          exact .empty []

theorem commit_enters (refines : Refines context account) (hasTx : context.hasTx = true) (calls : Calls Write) :
    Enters newerStay context (context.commit calls).2 account [.commits calls.commitFault.isNone] := by
  obtain ⟨inside, own, stack, isHeld, represents⟩ := refines.inside hasTx
  obtain ⟨outside, unwritten, -, committed⟩ := commit_inside inside calls
  rw [commit_answer inside calls] at committed
  have ran : (context.commit calls).2 =
      { context with session := (context.session.commit calls).2, hasTx := false, marks := [] } := by
    simp [ThdContext.commit, hasTx]
  have writes : context.session.openWrites = stack.writes := represents.writes
  rw [ran]
  refine ⟨?_, .of_outside outside rfl (unwritten.trans own.symm) rfl refines.last⟩
  simpa [act, isHeld, ← writes] using committed

theorem rollback_enters (refines : Refines context account) (hasTx : context.hasTx = true) (calls : Calls Write) :
    Enters newerStay context (context.rollback calls).2 account [.discards] := by
  obtain ⟨inside, own, -⟩ := refines.inside hasTx
  obtain ⟨outside, unwritten, kept⟩ := rollback_inside inside calls
  have ran : (context.rollback calls).2 =
      { context with session := (context.session.rollback calls).2, hasTx := false, marks := [] } := by
    simp [ThdContext.rollback, hasTx]
  rw [ran]
  exact ⟨kept.committed, .of_outside outside rfl (unwritten.trans own.symm) rfl refines.last⟩

theorem endStatement_enters (refines : Refines context account) (commit : Bool) (calls : Calls Write) :
    Enters newerStay context { context with session := (context.session.endStatement commit calls).2 } account
      [.statementEnds (commit && calls.commitFault.isNone)] := by
  obtain ⟨consistent, noStmtTx, -, committed, -⟩ := endStatement_spec refines.consistent calls commit
  rw [refines.own] at committed
  cases hasTx : context.hasTx with
  | true =>
      obtain ⟨inside, own, stack, isHeld, represents⟩ := refines.inside hasTx
      obtain ⟨session, ended, after, -⟩ := endStatement_inside inside calls commit
      rw [ended] at committed ⊢
      refine ⟨committed, .of_inside ⟨after.consistent, after.isOpen, rfl⟩ rfl rfl isHeld ?_ refines.last⟩
      rw [ThdContext.log, after.holds]
      exact represents
  | false =>
      obtain ⟨outside, isHeld⟩ := refines.outside hasTx
      have closed : Outside (context.session.endStatement commit calls).2 :=
        ⟨consistent, (endStatement_isOpen context.session calls commit).trans outside.closed⟩
      exact ⟨committed, .of_outside closed rfl (directWrites_nil noStmtTx) isHeld refines.last⟩

/-- A real COMMIT or ROLLBACK, or one of nothing. -/
theorem commitCb_enters (refines : Refines context account) (all explicit : Bool) (statement tx : Calls Write) :
    Enters newerStay context (context.commitCb all explicit statement tx).2 account
      (.statementEnds statement.commitFault.isNone ::
        if (all || !explicit) && context.hasTx then [.commits tx.commitFault.isNone] else []) := by
  have ends := @endStatement_enters _ newerStay context account refines true statement
  rw [Bool.true_and] at ends
  cases real : (all || !explicit) && context.hasTx with
  | false =>
      have stays : (!(all || !explicit) || !context.hasTx) = true := by rw [← Bool.not_and, real, Bool.not_false]
      have ran : (context.commitCb all explicit statement tx).2 =
          { context with session := (context.session.endStatement true statement).2 } := by
        unfold ThdContext.commitCb
        rcases context.session.endStatement true statement with ⟨answer, session⟩
        cases answer with
        | error error => rfl
        | ok done => simp only [stays, if_true]
      rw [ran]
      exact ends
  | true =>
      obtain ⟨-, hasTx⟩ := Bool.and_eq_true_iff.mp real
      have goes : (!(all || !explicit) || !context.hasTx) = false := by rw [← Bool.not_and, real, Bool.not_true]
      obtain ⟨inside, -⟩ := refines.inside hasTx
      obtain ⟨session, ended, -⟩ := endStatement_inside inside statement true
      rw [ended] at ends
      have ran : (context.commitCb all explicit statement tx).2 = ({ context with session }.commit tx).2 := by
        simp only [ThdContext.commitCb, ended, goes, Bool.false_eq_true, if_false]
      rw [ran]
      exact ends.trans (commit_enters ends.refines hasTx tx)

theorem rollbackCb_enters (refines : Refines context account) (all explicit : Bool) (statement tx : Calls Write) :
    Enters newerStay context (context.rollbackCb all explicit statement tx).2 account
      (.statementEnds false :: if (all || !explicit) && context.hasTx then [.discards] else []) := by
  have ends := @endStatement_enters _ newerStay context account refines false statement
  rw [Bool.false_and] at ends
  cases real : (all || !explicit) && context.hasTx with
  | false =>
      have stays : (!(all || !explicit) || !context.hasTx) = true := by rw [← Bool.not_and, real, Bool.not_false]
      simp only [ThdContext.rollbackCb, stays, if_true]
      exact ends
  | true =>
      obtain ⟨-, hasTx⟩ := Bool.and_eq_true_iff.mp real
      have goes : (!(all || !explicit) || !context.hasTx) = false := by rw [← Bool.not_and, real, Bool.not_true]
      simp only [ThdContext.rollbackCb, goes, Bool.false_eq_true, if_false]
      exact ends.trans (rollback_enters ends.refines hasTx tx)

theorem query_enters (refines : Refines context account) (dml : Dml) (calls : Calls Write) :
    Enters newerStay context (context.queryVia dml.statement calls).2 account
      ((Event.query dml calls).actions context) := by
  have ran : (context.queryVia dml.statement calls).2 =
      { context with session := (context.session.run dml.statement calls).2 } := by
    unfold ThdContext.queryVia ThdContext.onTx
    split
    · rename_i hasTx
      have isOpen : context.session.inTransaction = true := refines.handle.symm.trans hasTx
      rw [if_pos isOpen]
      rfl
    · rfl
  rw [ran, Event.actions]
  cases writes : dml.statement.mayWrite with
  | false =>
      have isSelect : dml.statement = .select := by cases dml <;> first | rfl | cases writes
      rw [isSelect, run_select refines.consistent]
      exact .none refines
  | true =>
      cases planned : calls.planFault with
      | some error =>
          rw [run_refused planned]
          exact .none refines
      | none =>
          simp only [Bool.not_true, Option.isSome_none, Bool.or_self, Bool.false_eq_true, if_false]
          cases hasTx : context.hasTx with
          | true =>
              obtain ⟨inside, own, stack, isHeld, represents⟩ := refines.inside hasTx
              have allowed : runsInTransaction dml.statement = .ok () := by cases dml <;> rfl
              rw [run_executes inside.isOpen planned allowed]
              obtain ⟨after, kept, -⟩ := execute_inside inside dml.statement writes calls
              have written := represents.write calls.execution.writes
              rw [if_pos rfl]
              refine ⟨by simpa [act, isHeld] using kept.committed, ?_⟩
              simp only [List.foldl_cons, List.foldl_nil, act, isHeld]
              refine .of_inside ⟨after.consistent, after.isOpen, rfl⟩ rfl own rfl ?_ refines.last
              rw [ThdContext.log, after.holds]
              exact written
          | false =>
              obtain ⟨outside, isHeld⟩ := refines.outside hasTx
              obtain ⟨after, direct, -, committed, -⟩ := run_outside outside dml.statement writes calls
              have answer : writtenBy (context.session.run dml.statement calls).1 calls.execution.writes =
                  writtenBy calls.execution.result calls.execution.writes := by
                rw [run_write outside writes planned]
                simp only [execute, Database.execute, outside.idle]
                cases calls.execution.result <;> rfl
              rw [answer] at committed
              rw [if_neg Bool.false_ne_true]
              exact ⟨committed, .of_outside after rfl (direct.trans refines.own) isHeld refines.last⟩

theorem write_enters (refines : Refines context account) (table : String) (f : Except Error Int64 × List Write)
    (calls : Calls Write) :
    Enters newerStay context { context with session := (context.session.withWriteTable table f calls).2 } account
      [.writes (made context.session (.withWriteTable table f, calls))] := by
  obtain ⟨consistent, sameOpen, committed, direct⟩ := withWriteTable_spec refines.consistent calls table f
  cases hasTx : context.hasTx with
  | true =>
      obtain ⟨inside, own, stack, isHeld, represents⟩ := refines.inside hasTx
      have after := withWriteTable_inside inside table f calls
      have written := represents.write (made context.session (.withWriteTable table f, calls))
      refine ⟨by simpa [act, isHeld] using committed, ?_⟩
      simp only [List.foldl_cons, List.foldl_nil, act, isHeld]
      refine .of_inside ⟨after.consistent, after.isOpen, rfl⟩ rfl own rfl ?_ refines.last
      rw [ThdContext.log, after.holds]
      exact written
  | false =>
      obtain ⟨outside, isHeld⟩ := refines.outside hasTx
      refine ⟨by simpa [act, isHeld] using committed, ?_⟩
      simp only [List.foldl_cons, List.foldl_nil, act, isHeld]
      exact .of_outside ⟨consistent, sameOpen.trans outside.closed⟩ rfl
        ((direct outside.closed).trans (congrArg (· ++ _) refines.own)) rfl refines.last

end Callbacks

section Events

variable {newerStay : Bool} {context : ThdContext Write} {account : Account Write} {calls : Calls Write}

/-- A chunk as `savepointSetCb` left it. -/
def Event.Written : Event Write → Prop
  | .savepointRelease slot _ | .savepointRollback slot _ => slot = formatSavepointSlot slot.id
  | _ => True

/-- The chunk's statement reaches the engine as it was meant. -/
theorem execSavepointSql_run (refines : Refines context account) (hasTx : context.hasTx = true) (verb : Verb)
    (id : UInt64) (calls : Calls Write) : context.execSavepointSql newerStay verb (formatSavepointSlot id) calls =
      context.runSavepoint newerStay verb (spName id.toNat) calls := by
  have isOpen : context.session.inTransaction = true := refines.handle.symm.trans hasTx
  rw [ThdContext.execSavepointSql, ThdContext.onTx, if_pos isOpen, readSavepoint_sql]

/-- In the open transaction a savepoint statement does to the stack what the
engine's savepoints do. -/
theorem savepoint_refines (refines : Refines context account) (hasTx : context.hasTx = true) (verb : Verb) (id : UInt64)
    (calls : Calls Write) :
    (context.execSavepointSql newerStay verb (formatSavepointSlot id) calls).2.session.db.committed =
        context.session.db.committed ∧
      Refines (context.execSavepointSql newerStay verb (formatSavepointSlot id) calls).2
        { account with
          held := account.held.map fun stack =>
            if accepted calls then (verb.act newerStay id.toNat stack).getD stack else stack } := by
  obtain ⟨inside, own, stack, isHeld, represents⟩ := refines.inside hasTx
  rw [execSavepointSql_run refines hasTx]
  obtain ⟨session, marks, ran, after, committed, isLog⟩ :=
    @runSavepoint_log _ newerStay context inside verb (spName id.toNat) calls
  rw [ran]
  refine ⟨committed, .of_inside after hasTx own (by rw [isHeld]; rfl) ?_ refines.last⟩
  change Represents spName ⟨session.openWrites, marks⟩ _
  rw [isLog]
  split
  · change Represents spName ((verb.run newerStay (spName id.toNat) context.log).getD context.log)
      ((verb.act newerStay id.toNat stack).getD stack)
    have both := @Verb.represents _ newerStay _ stack represents verb id.toNat
    cases left : verb.run newerStay (spName id.toNat) context.log with
    | none =>
        rw [left] at both
        cases acted : verb.act newerStay id.toNat stack with
        | none => exact represents
        | some other =>
            rw [acted] at both
            cases both
    | some log =>
        rw [left] at both
        cases acted : verb.act newerStay id.toNat stack with
        | none =>
            rw [acted] at both
            cases both
        | some other =>
            rw [acted] at both
            cases both with
            | some related => exact related
  · exact represents

/-- The id of the next savepoint is past every other. -/
theorem Refines.next (refines : Refines context account)
    (room : account.lastSavepoint + 1 < 2 ^ 64) :
    (context.nextSavepointId + 1).toNat = account.lastSavepoint + 1 := by
  rw [UInt64.toNat_add, refines.last, UInt64.toNat_one]
  exact Nat.mod_eq_of_lt room

theorem savepointSet_enters (refines : Refines context account) (room : account.lastSavepoint + 1 < 2 ^ 64)
    (calls : Calls Write) : Enters newerStay context (context.savepointSetCb newerStay calls).2 account
      (if context.hasTx then [.saves (accepted calls)] else []) := by
  cases hasTx : context.hasTx with
  | false =>
      have stays : (context.savepointSetCb newerStay calls).2 = context := by
        simp [ThdContext.savepointSetCb, hasTx]
      rw [stays]
      exact .none refines
  | true =>
      have id := refines.next room
      have numbered : Refines { context with nextSavepointId := context.nextSavepointId + 1 }
          { account with lastSavepoint := account.lastSavepoint + 1 } := { refines with last := id }
      obtain ⟨committed, after⟩ :=
        @savepoint_refines _ newerStay _ _ numbered hasTx .savepoint (context.nextSavepointId + 1) calls
      have ran : (context.savepointSetCb newerStay calls).2 =
          ({ context with nextSavepointId := context.nextSavepointId + 1 }.execSavepointSql newerStay .savepoint
            (formatSavepointSlot (context.nextSavepointId + 1)) calls).2 := by
        simp [ThdContext.savepointSetCb, hasTx]
      rw [ran]
      rw [id] at after
      exact ⟨committed, after⟩

theorem savepointBack_enters (refines : Refines context account) {verb : Verb} {id : UInt64} {action : Action Write}
    (acts : ∀ durable, act newerStay (durable, account) action =
      (durable, { account with held := account.held.map fun stack => (verb.act newerStay id.toNat stack).getD stack }))
    (calls : Calls Write) :
    Enters newerStay context
      (if !context.hasTx then context
        else (context.execSavepointSql newerStay verb (formatSavepointSlot id) calls).2) account
      (if context.hasTx && accepted calls then [action] else []) := by
  cases hasTx : context.hasTx with
  | false => exact .none refines
  | true =>
      obtain ⟨committed, after⟩ := @savepoint_refines _ newerStay _ _ refines hasTx verb id calls
      cases taken : accepted calls with
      | true =>
          rw [taken] at after
          refine ⟨?_, ?_⟩
          · rw [Bool.and_self, if_pos rfl, List.foldl_cons, List.foldl_nil, acts]
            exact committed
          · rw [Bool.and_self, if_pos rfl, List.foldl_cons, List.foldl_nil, acts]
            exact after
      | false =>
          rw [taken] at after
          refine ⟨committed, ?_⟩
          have same : (account.held.map fun stack => stack) = account.held := Option.map_id'
          simpa [same] using after

/-- Each callback does to its connection what its entries do to the account. -/
theorem event_enters (refines : Refines context account) (room : account.lastSavepoint + 1 < 2 ^ 64)
    {event : Event Write} (written : event.Written) :
    Enters newerStay context (event.run newerStay context).2 account (event.actions context) := by
  cases event with
  | externalLock explicit isolation calls =>
      cases explicit with
      | false => exact .none refines
      | true =>
          have begun := @begin_enters _ newerStay context account refines (stoolapIsolation isolation) calls
          simp only [Event.run, Event.actions, ThdContext.registerTrx, Bool.true_and, if_true]
          cases hasTx : context.hasTx with
          | false => exact begun
          | true =>
              rw [ThdContext.begins, if_pos hasTx]
              exact .none refines
  | startConsistentSnapshot calls =>
      have begun := @begin_enters _ newerStay context account refines .snapshotIsolation calls
      simp only [Event.run, Event.actions, ThdContext.startConsistentSnapshotCb]
      cases hasTx : context.hasTx with
      | false => exact begun
      | true =>
          rw [ThdContext.begins, if_pos hasTx]
          exact .none refines
  | query dml calls => exact query_enters refines dml calls
  | read table f calls => exact refines.accessed (withTable_accessed refines.consistent calls table f)
  | write table f calls => exact write_enters refines table f calls
  | bulkBegin calls =>
      have begun := @begin_enters _ newerStay context account refines .readCommitted calls
      simp only [Event.run, Event.actions]
      cases hasTx : context.hasTx with
      | false => exact begun
      | true =>
          rw [ThdContext.begins, if_pos hasTx]
          exact .none refines
  | bulkRollback calls =>
      simp only [Event.run, Event.actions]
      cases hasTx : context.hasTx with
      | false => exact .none refines
      | true => exact rollback_enters refines hasTx calls
  | commit all explicit statement tx => exact commitCb_enters refines all explicit statement tx
  | rollback all explicit statement tx => exact rollbackCb_enters refines all explicit statement tx
  | savepointSet calls => exact savepointSet_enters refines room calls
  | savepointRelease slot calls =>
      have back := @savepointBack_enters _ newerStay context account refines .releaseSavepoint slot.id
        (.releases slot.id.toNat) (fun _ => rfl) calls
      rw [← written] at back
      simp only [Event.run, Event.actions, ThdContext.savepointReleaseCb]
      split at back <;> rename_i hasTx
      · rw [if_pos hasTx]
        exact back
      · rw [if_neg hasTx]
        exact back
  | savepointRollback slot calls =>
      have back := @savepointBack_enters _ newerStay context account refines .rollbackToSavepoint slot.id
        (.restores slot.id.toNat) (fun _ => rfl) calls
      rw [← written] at back
      simp only [Event.run, Event.actions, ThdContext.savepointRollbackCb]
      split at back <;> rename_i hasTx
      · rw [if_pos hasTx]
        exact back
      · rw [if_neg hasTx]
        exact back

end Events

end StoolapMariadb.Transaction
