import StoolapMariadb.WriteThrough

namespace StoolapMariadb.BulkInsert

/-! The handler's bulk INSERT: rows wait in a buffer and go in chunks. A table
a foreign key names is written through SQL, its chunks in a transaction the
first one begins. -/

open StoolapMariadb.Session StoolapMariadb.WriteThrough

variable {Write : Type}

/-- What the engine answers to one flush: to the transaction begun for it, the
write handle, the direct insert, and the insert by SQL. -/
structure FlushCalls (Write : Type) where
  begin : Calls Write
  handle : Calls Write
  directFault : Option Error
  insert : SqlWrite.InsertCalls Write

/-- A row of the statement: the error of encoding it, and the engine's answers
to its own INSERT and to the flush it may cause. -/
structure RowIn (Write : Type) where
  row : Write
  encodeFault : Option Error
  insert : Calls Write
  flush : FlushCalls Write

/-- The handler's bulk state: `rows` counts the rows of `buffer` that wait. -/
structure Bulk (Write : Type) where
  active : Bool
  ownsTx : Bool
  fk : Bool
  rows : Nat
  buffer : List (Write × Calls Write)

def kBulkFlushRows : Nat := 50000

/-- `start_bulk_insert`: a statement that handles duplicates row by row gets no
buffer. -/
def startBulkInsert (perRow : Bool) (table : String) (bulk : Bulk Write) (session : Session Write) :
    Bulk Write :=
  let reset := { bulk with active := false, ownsTx := false, rows := 0 }
  if perRow then reset
  else
    let fk :=
      match session.writesThroughSql table with
      | .ok named => named
      | .error _ => false
    { reset with active := true, fk, buffer := [] }

/-- `write::insert` on the handle: all the rows or none. -/
def directInsert (fault : Option Error) (rows : List Write) : Except Error Int64 × List Write :=
  match fault with
  | some error => (.error error, [])
  | none => (.ok (Int64.ofNat rows.length), rows)

/-- `stoolap_insert_buffer`. -/
def insertBuffer (table : String) (calls : FlushCalls Write) (rows : List (Write × Calls Write))
    (session : Session Write) : Except Error Int64 × Session Write :=
  writeThrough table false (directInsert calls.directFault (rows.map Prod.fst))
    (fun session => SqlWrite.insert rows calls.insert session) calls.handle session

/-- `stoolap_insert_record`. -/
def insertRecord (table : String) (input : RowIn Write) (session : Session Write) :
    Except Error Int64 × Session Write :=
  writeThrough table false (encoded input.encodeFault [] (directInsert input.flush.directFault [input.row]))
    (fun session => encoded input.encodeFault session
      (SqlWrite.insert [(input.row, input.insert)] input.flush.insert session))
    input.flush.handle session

/-- The buffered rows go, whatever comes of them. -/
def flushRows (table : String) (calls : FlushCalls Write) (bulk : Bulk Write) (session : Session Write) :
    Except Error Unit × Bulk Write × Session Write :=
  let (result, session) := insertBuffer table calls bulk.buffer session
  (result.map fun _ => (), { bulk with buffer := [] }, session)

/-- `flush_bulk_buffer`. A chunk flushed through SQL in autocommit mode opens
the transaction the statement's end closes. -/
def flushBulkBuffer (chunk : Bool) (table : String) (calls : FlushCalls Write) (bulk : Bulk Write)
    (session : Session Write) : Except Error Unit × Bulk Write × Session Write :=
  if bulk.rows = 0 then (.ok (), bulk, session)
  else
    let taken := { bulk with rows := 0 }
    if chunk && bulk.fk && !session.inTransaction then
      match session.begin .readCommitted calls.begin with
      | (.error error, session) => (.error error, taken, session)
      | (.ok (), session) => flushRows table calls { taken with ownsTx := true } session
    else flushRows table calls taken session

/-- A failed chunk rolls back the transaction the bulk insert began. -/
def afterChunk (calls : FlushCalls Write) :
    Except Error Unit × Bulk Write × Session Write → Except Error Unit × Bulk Write × Session Write
  | (.ok (), bulk, session) => (.ok (), bulk, session)
  | (.error error, bulk, session) =>
      if bulk.ownsTx then
        (.error error, { bulk with ownsTx := false },
          if session.inTransaction then (session.rollback calls.insert.finish).2 else session)
      else (.error error, bulk, session)

/-- `write_row`. -/
def writeRow (table : String) (input : RowIn Write) (bulk : Bulk Write) (session : Session Write) :
    Except Error Unit × Bulk Write × Session Write :=
  if bulk.active then
    match input.encodeFault with
    | some error => (.error error, bulk, session)
    | none =>
        let buffer := bulk.buffer ++ [(input.row, input.insert)]
        let added := { bulk with buffer, rows := buffer.length }
        if added.rows < kBulkFlushRows then (.ok (), added, session)
        else afterChunk input.flush (flushBulkBuffer true table input.flush added session)
  else
    let (result, session) := insertRecord table input session
    (result.map fun _ => (), bulk, session)

/-- `write_row` for each row, until the first error. -/
def writeRows (table : String) : List (RowIn Write) → Bulk Write → Session Write →
    Except Error Unit × Bulk Write × Session Write
  | [], bulk, session => (.ok (), bulk, session)
  | input :: inputs, bulk, session =>
      match writeRow table input bulk session with
      | (.error error, bulk, session) => (.error error, bulk, session)
      | (.ok (), bulk, session) => writeRows table inputs bulk session

/-- `end_bulk_insert`. -/
def endBulkInsert (table : String) (calls : FlushCalls Write) (bulk : Bulk Write) (session : Session Write) :
    Except Error Unit × Bulk Write × Session Write :=
  if !bulk.active then (.ok (), bulk, session)
  else flushBulkBuffer false table calls { bulk with active := false } session

/-- `stoolap_commit_cb` at the end of an autocommit statement. -/
def commitCb (statementCalls txCalls : Calls Write) (session : Session Write) :
    Except Error Unit × Session Write :=
  match session.endStatement true statementCalls with
  | (.error error, session) => (.error error, session)
  | (.ok (), session) =>
      if session.inTransaction then session.commit txCalls else (.ok (), session)

/-- `stoolap_rollback_cb` at the end of an autocommit statement. -/
def rollbackCb (statementCalls txCalls : Calls Write) (session : Session Write) :
    Except Error Unit × Session Write :=
  let (_, session) := session.endStatement false statementCalls
  if session.inTransaction then session.rollback txCalls else (.ok (), session)

/-- The engine's answers at the end of a statement: to the last flush, to the
end of its direct access, to the end of a transaction still open. -/
structure EndCalls (Write : Type) where
  flush : FlushCalls Write
  statement : Calls Write
  tx : Calls Write

/-- An autocommit INSERT: the bulk insert ends after an error too, and the
statement commits when every call returned 0. -/
def statement (table : String) (perRow : Bool) (inputs : List (RowIn Write)) (finish : EndCalls Write)
    (bulk : Bulk Write) (session : Session Write) : Session Write :=
  let (written, bulk, session) :=
    writeRows table inputs (startBulkInsert perRow table bulk session) session
  let (ended, _, session) := endBulkInsert table finish.flush bulk session
  if written.isOk && ended.isOk then (commitCb finish.statement finish.tx session).2
  else (rollbackCb finish.statement finish.tx session).2

section Routes

variable {session : Session Write} {table : String} {held : List Write}

omit session table held in
theorem except_map_isOk {ε α β : Type} (result : Except ε α) (f : α → β) :
    (result.map f).isOk = result.isOk := by
  cases result <;> rfl

omit session table held in
theorem directInsert_writes {fault : Option Error} {rows : List Write}
    (accepted : (directInsert fault rows).1.isOk) : (directInsert fault rows).2 = rows := by
  cases fault with
  | none => rfl
  | some error => cases accepted

/-- A table no foreign key names takes the rows with the statement's direct
writes. -/
theorem writeThrough_direct (outside : Outside session) (unnamed : session.db.namesTable table = false)
    (direct : Except Error Int64 × List Write) (sql : Session Write → Except Error Int64 × Session Write)
    (calls : Calls Write) :
    Outside (writeThrough table false direct sql calls session).2 ∧
      Kept session (writeThrough table false direct sql calls session).2 ∧
      ((writeThrough table false direct sql calls session).1.isOk → direct.1.isOk ∧
        (writeThrough table false direct sql calls session).2.directWrites =
          session.directWrites ++ direct.2) := by
  obtain ⟨after, isOutside, keys, committed, way⟩ := withWriteTable_cases outside table direct calls
  rcases way with ⟨error, left, ran, -⟩ | ⟨count, ran, -, isCount, held⟩ | ⟨-, named, -⟩
  · simp only [writeThrough, ran, Bool.false_eq_true, if_false]
    exact ⟨isOutside, ⟨committed, keys⟩, fun ok => by cases ok⟩
  · simp only [writeThrough, ran, Bool.false_eq_true, if_false]
    exact ⟨isOutside, ⟨committed, keys⟩, fun _ => ⟨by rw [isCount]; rfl, held⟩⟩
  · rw [unnamed] at named
    cases named

/-- One a foreign key names goes to SQL when its handle could be had. -/
theorem writeThrough_sql (consistent : Consistent session) (named : session.db.namesTable table = true)
    (direct : Except Error Int64 × List Write) (sql : Session Write → Except Error Int64 × Session Write)
    (calls : Calls Write) :
    ∃ after, Accessed session.noteWrite after ∧
      ((∃ error, writeThrough table false direct sql calls session = (.error error, after)) ∨
        writeThrough table false direct sql calls session = sql after) := by
  obtain ⟨accessed, notDirect⟩ := withWriteTable_named consistent named direct calls
  simp only [writeThrough, Bool.false_eq_true, if_false]
  split
  · rename_i error after ran
    rw [ran] at accessed
    exact ⟨after, accessed, .inl ⟨error, rfl⟩⟩
  · rename_i count after ran
    rw [ran] at notDirect
    exact absurd rfl (notDirect count)
  · rename_i after ran
    rw [ran] at accessed
    exact ⟨after, accessed, .inr rfl⟩

theorem insertBuffer_inside (inside : Inside session held) (named : session.db.namesTable table = true)
    (calls : FlushCalls Write) (rows : List (Write × Calls Write)) :
    ∃ left, Inside (insertBuffer table calls rows session).2 (held ++ left) ∧
      Kept session (insertBuffer table calls rows session).2 ∧
      ((insertBuffer table calls rows session).1.isOk → left = rows.map Prod.fst) := by
  obtain ⟨after, accessed, way⟩ := writeThrough_sql inside.consistent named
    (directInsert calls.directFault (rows.map Prod.fst))
    (fun session => SqlWrite.insert rows calls.insert session) calls.handle
  obtain ⟨isInside, kept⟩ := noteWrite_inside inside accessed
  rcases way with ⟨error, ran⟩ | ran
  · rw [insertBuffer, ran]
    exact ⟨[], by simpa using isInside, kept, fun ok => by cases ok⟩
  · rw [insertBuffer, ran]
    obtain ⟨left, last, restKept, whole⟩ := SqlWrite.insert_inside isInside rows calls.insert
    exact ⟨left, last, kept.trans restKept, whole⟩

/-- The end of the statement: what a session outside a transaction wrote
directly, or an open one holds, is durable as a whole or not at all. -/
theorem commitCb_outside (outside : Outside session) (statementCalls txCalls : Calls Write) :
    (commitCb statementCalls txCalls session).2.db.committed = session.db.committed ∨
      (commitCb statementCalls txCalls session).2.db.committed =
        session.db.committed ++ session.directWrites := by
  obtain ⟨after, committed⟩ := endStatement_outside outside statementCalls true
  have settled : (session.endStatement true statementCalls).2.db.committed = session.db.committed ∨
      (session.endStatement true statementCalls).2.db.committed =
        session.db.committed ++ session.directWrites := by
    rw [committed]
    cases statementCalls.commitFault with
    | none => exact .inr rfl
    | some error => exact .inl (List.append_nil _)
  unfold commitCb
  split
  · rename_i ran
    rw [ran] at settled
    exact settled
  · rename_i next ran
    rw [ran] at after settled
    have closed : next.inTransaction = false := after.closed
    rw [closed]
    exact settled

theorem rollbackCb_outside (outside : Outside session) (statementCalls txCalls : Calls Write) :
    (rollbackCb statementCalls txCalls session).2.db.committed = session.db.committed := by
  obtain ⟨after, committed⟩ := endStatement_outside outside statementCalls false
  have closed : (session.endStatement false statementCalls).2.inTransaction = false := after.closed
  simp only [rollbackCb, closed, Bool.false_eq_true, if_false]
  exact committed.trans (List.append_nil _)

theorem commitCb_inside (inside : Inside session held) (statementCalls txCalls : Calls Write) :
    (commitCb statementCalls txCalls session).2.db.committed = session.db.committed ∨
      (commitCb statementCalls txCalls session).2.db.committed = session.db.committed ++ held := by
  obtain ⟨after, ran, stillInside, kept⟩ := endStatement_inside inside statementCalls true
  obtain ⟨-, -, -, committed⟩ := commit_inside stillInside txCalls
  rw [kept.committed] at committed
  have isOpen : after.inTransaction = true := stillInside.isOpen
  simp only [commitCb, ran, isOpen, if_true, committed]
  cases (after.commit txCalls).1 with
  | ok _ => exact .inr rfl
  | error error => exact .inl (List.append_nil _)

theorem rollbackCb_inside (inside : Inside session held) (statementCalls txCalls : Calls Write) :
    (rollbackCb statementCalls txCalls session).2.db.committed = session.db.committed := by
  obtain ⟨after, ran, stillInside, kept⟩ := endStatement_inside inside statementCalls false
  obtain ⟨-, -, rolledBack⟩ := rollback_inside stillInside txCalls
  have isOpen : after.inTransaction = true := stillInside.isOpen
  simp only [rollbackCb, ran, isOpen, if_true]
  exact (kept.trans rolledBack).committed

end Routes

section Direct

variable {start session : Session Write} {table : String} {bulk : Bulk Write} {done : List Write}

/-- Nothing durable has changed, and no flush will go through SQL. -/
structure Unharmed (start : Session Write) (bulk : Bulk Write) (session : Session Write) : Prop where
  outside : Outside session
  kept : Kept start session
  direct : bulk.active = true → bulk.fk = false

/-- The rows written so far, held with the statement's direct writes or in the
buffer. -/
structure DirectRows (start : Session Write) (done : List Write) (bulk : Bulk Write)
    (session : Session Write) : Prop extends Unharmed start bulk session where
  counted : bulk.active = true → bulk.rows = bulk.buffer.length
  held : session.directWrites ++ (if bulk.active then bulk.buffer.map Prod.fst else []) = done

theorem flush_direct (unnamed : start.db.namesTable table = false) (unharmed : Unharmed start bulk session)
    (direct : bulk.fk = false) (chunk : Bool) (calls : FlushCalls Write) :
    let out := flushBulkBuffer chunk table calls bulk session
    Outside out.2.2 ∧ Kept start out.2.2 ∧ out.2.1.fk = false ∧ out.2.1.active = bulk.active ∧
      (out.1.isOk → bulk.rows = bulk.buffer.length → out.2.1.rows = 0 ∧ out.2.1.buffer = [] ∧
        out.2.2.directWrites = session.directWrites ++ bulk.buffer.map Prod.fst) := by
  have stillUnnamed : session.db.namesTable table = false := (unharmed.kept.names table).trans unnamed
  simp only [flushBulkBuffer]
  split
  · rename_i empty
    refine ⟨unharmed.outside, unharmed.kept, direct, rfl, fun _ counted => ?_⟩
    have noRows : bulk.buffer = [] := List.eq_nil_of_length_eq_zero (counted.symm.trans empty)
    exact ⟨empty, noRows, by rw [noRows, List.map_nil, List.append_nil]⟩
  · simp only [direct, Bool.and_false, Bool.false_and, Bool.false_eq_true, if_false, flushRows, insertBuffer]
    obtain ⟨after, kept, stored⟩ := writeThrough_direct unharmed.outside stillUnnamed
      (directInsert calls.directFault (bulk.buffer.map Prod.fst))
      (fun session => SqlWrite.insert bulk.buffer calls.insert session) calls.handle
    refine ⟨after, unharmed.kept.trans kept, trivial, trivial, fun ok _ => ⟨trivial, trivial, ?_⟩⟩
    rw [except_map_isOk] at ok
    obtain ⟨accepted, held⟩ := stored ok
    rw [held, directInsert_writes accepted]

/-- A row keeps everything with the statement, whatever comes of it. -/
theorem writeRow_direct (unnamed : start.db.namesTable table = false)
    (rows : DirectRows start done bulk session) (input : RowIn Write) :
    let out := writeRow table input bulk session
    Unharmed start out.2.1 out.2.2 ∧
      (out.1.isOk → DirectRows start (done ++ [input.row]) out.2.1 out.2.2) := by
  simp only [writeRow]
  split
  · rename_i active
    have direct := rows.direct active
    have held := rows.held
    rw [if_pos active] at held
    split
    · exact ⟨rows.toUnharmed, fun ok => by cases ok⟩
    · have added : Unharmed start
          { bulk with buffer := bulk.buffer ++ [(input.row, input.insert)],
                      rows := (bulk.buffer ++ [(input.row, input.insert)]).length } session :=
        { rows.toUnharmed with }
      split
      · refine ⟨added, fun _ => { added with counted := fun _ => rfl, held := ?_ }⟩
        simp only [active, if_true, List.map_append, List.map_cons, List.map_nil, ← List.append_assoc, held]
      · obtain ⟨outside, kept, stillDirect, stillActive, stored⟩ :=
          flush_direct unnamed added direct true input.flush
        have isActive := stillActive.trans active
        generalize ran : flushBulkBuffer true table input.flush _ session = out at *
        obtain ⟨result, after, last⟩ := out
        cases result with
        | error error =>
            have closed : last.inTransaction = false := outside.closed
            simp only [afterChunk, closed, Bool.false_eq_true, if_false]
            split
            · exact ⟨⟨outside, kept, fun _ => stillDirect⟩, fun ok => by cases ok⟩
            · exact ⟨⟨outside, kept, fun _ => stillDirect⟩, fun ok => by cases ok⟩
        | ok _ =>
            obtain ⟨noneWait, emptied, stored⟩ := stored rfl rfl
            have flushed : after.buffer = [] := emptied
            have counted : after.rows = after.buffer.length := by rw [noneWait, flushed, List.length_nil]
            refine ⟨⟨outside, kept, fun _ => stillDirect⟩, fun _ =>
              { outside, kept, direct := fun _ => stillDirect, counted := fun _ => counted, held := ?_ }⟩
            have waiting : after.active = true := isActive
            simp only [afterChunk, waiting, if_true, flushed, List.map_nil, List.append_nil]
            rw [stored, List.map_append, ← List.append_assoc, held]
            rfl
  · rename_i inactive
    have held := rows.held
    rw [if_neg inactive, List.append_nil] at held
    have stillUnnamed : session.db.namesTable table = false := (rows.kept.names table).trans unnamed
    obtain ⟨after, kept, stored⟩ := writeThrough_direct rows.outside stillUnnamed
      (encoded input.encodeFault [] (directInsert input.flush.directFault [input.row]))
      (fun session => encoded input.encodeFault session
        (SqlWrite.insert [(input.row, input.insert)] input.flush.insert session)) input.flush.handle
    have unharmed : Unharmed start bulk (insertRecord table input session).2 :=
      ⟨after, rows.kept.trans kept, rows.direct⟩
    refine ⟨unharmed, fun ok => { unharmed with counted := rows.counted, held := ?_ }⟩
    rw [except_map_isOk] at ok
    obtain ⟨accepted, written⟩ := stored ok
    rw [if_neg inactive, List.append_nil, ← held]
    refine written.trans ?_
    cases fault : input.encodeFault with
    | some error => simp [fault, encoded, Except.isOk, Except.toBool] at accepted
    | none =>
        simp only [fault, encoded] at accepted ⊢
        rw [directInsert_writes accepted]

theorem writeRows_direct (unnamed : start.db.namesTable table = false)
    (rows : DirectRows start done bulk session) (inputs : List (RowIn Write)) :
    let out := writeRows table inputs bulk session
    Unharmed start out.2.1 out.2.2 ∧
      (out.1.isOk → DirectRows start (done ++ inputs.map RowIn.row) out.2.1 out.2.2) := by
  induction inputs generalizing done bulk session with
  | nil => exact ⟨rows.toUnharmed, fun _ => by simpa [writeRows] using rows⟩
  | cons input inputs ih =>
      obtain ⟨unharmed, written⟩ := writeRow_direct unnamed rows input
      simp only [writeRows]
      split
      · rename_i ran
        rw [ran] at unharmed
        exact ⟨unharmed, fun ok => by cases ok⟩
      · rename_i ran
        rw [ran] at written
        obtain ⟨last, all⟩ := ih (written rfl)
        refine ⟨last, fun ok => ?_⟩
        simpa using all ok

theorem endBulkInsert_direct (unnamed : start.db.namesTable table = false)
    (unharmed : Unharmed start bulk session) (calls : FlushCalls Write) :
    let out := endBulkInsert table calls bulk session
    Outside out.2.2 ∧ Kept start out.2.2 ∧
      (out.1.isOk → DirectRows start done bulk session → out.2.2.directWrites = done) := by
  simp only [endBulkInsert]
  cases active : bulk.active with
  | false =>
      refine ⟨unharmed.outside, unharmed.kept, fun _ rows => ?_⟩
      have held := rows.held
      rw [if_neg (by simp [active]), List.append_nil] at held
      exact held
  | true =>
      have ended : Unharmed start { bulk with active := false } session :=
        ⟨unharmed.outside, unharmed.kept, fun isActive => by cases isActive⟩
      obtain ⟨outside, kept, -, -, stored⟩ :=
        flush_direct unnamed ended (unharmed.direct active) false calls
      refine ⟨outside, kept, fun ok rows => ?_⟩
      obtain ⟨-, -, stored⟩ := stored ok (rows.counted active)
      have held := rows.held
      rw [if_pos active] at held
      exact stored.trans held

end Direct

end StoolapMariadb.BulkInsert
