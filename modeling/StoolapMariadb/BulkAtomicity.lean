import StoolapMariadb.BulkInsert

namespace StoolapMariadb.BulkInsert

/-! The bulk INSERT of a table a foreign key names: what waits in the buffer,
what its chunks hold, and when the whole statement is all or nothing. -/

open StoolapMariadb.Session StoolapMariadb.WriteThrough

variable {Write : Type}

section Refusals

variable {session : Session Write} {table : String} {held : List Write}

/-- The row is not encoded, or the engine refuses its own INSERT by SQL. -/
def RowIn.refused (input : RowIn Write) : Bool :=
  input.encodeFault.isSome || !(insertAnswer input.insert).isOk

/-- A write to a table a foreign key names goes to SQL unless the engine
refuses its handle. -/
theorem writeThrough_answer (outside : Outside session) (unwritten : session.directWrites = [])
    (openable : session.Openable table) (named : session.db.namesTable table = true)
    (direct : Except Error Int64 × List Write) (sql : Session Write → Except Error Int64 × Session Write)
    (calls : Calls Write) :
    ∃ after, Outside after ∧ after.directWrites = [] ∧ Kept session after ∧
      ((session.handleRefused table calls = true ∧
          ∃ error, writeThrough table false direct sql calls session = (.error error, after)) ∨
        (session.handleRefused table calls = false ∧ HoldsHandle table after ∧ after.stmtWrote = true ∧
          writeThrough table false direct sql calls session = sql after)) := by
  obtain ⟨accessed, notDirect⟩ := withWriteTable_named outside.consistent named direct calls
  obtain ⟨answer, holds⟩ := withWriteTable_answer outside openable named direct calls
  obtain ⟨isOutside, sameWrites, kept⟩ := noteWrite_outside outside accessed
  refine ⟨_, isOutside, sameWrites.trans unwritten, kept, ?_⟩
  simp only [writeThrough, Bool.false_eq_true, if_false]
  generalize session.withWriteTable table direct calls = out at *
  obtain ⟨result, after⟩ := out
  cases result with
  | error error => exact .inl ⟨Bool.not_eq_eq_eq_not.mp answer.symm, error, rfl⟩
  | ok direct =>
      cases direct with
      | some count => exact absurd rfl (notDirect count)
      | none =>
          obtain ⟨holdsHandle, wrote⟩ := holds rfl
          exact .inr ⟨Bool.not_eq_eq_eq_not.mp answer.symm, holdsHandle, wrote, rfl⟩

theorem insertBuffer_outside (outside : Outside session) (unwritten : session.directWrites = [])
    (openable : session.Openable table) (named : session.db.namesTable table = true)
    (calls : FlushCalls Write) (rows : List (Write × Calls Write)) :
    SqlWrite.AllOrNone (rows.map Prod.fst) session (insertBuffer table calls rows session) ∧
      (insertBuffer table calls rows session).1.isOk =
        !(session.handleRefused table calls.handle || calls.insert.refuses rows) := by
  obtain ⟨after, isOutside, direct, kept, way⟩ := writeThrough_answer outside unwritten openable named
    (directInsert calls.directFault (rows.map Prod.fst))
    (fun session => SqlWrite.insert rows calls.insert session) calls.handle
  rw [insertBuffer]
  rcases way with ⟨refused, error, ran⟩ | ⟨given, holds, wrote, ran⟩
  · rw [ran, refused]
    exact ⟨.refused isOutside direct kept error, rfl⟩
  · obtain ⟨tx, own⟩ := holds.own
    rw [ran, given, Bool.false_or]
    exact ⟨(SqlWrite.insert_outside isOutside direct rows calls.insert).of_kept kept,
      SqlWrite.insert_answer isOutside direct own wrote rows calls.insert⟩

theorem insertRecord_outside (outside : Outside session) (unwritten : session.directWrites = [])
    (openable : session.Openable table) (named : session.db.namesTable table = true) (input : RowIn Write) :
    let out := insertRecord table input session
    SqlWrite.AllOrNone [input.row] session out ∧
      out.1.isOk = !(session.handleRefused table input.flush.handle || input.refused) ∧
      (out.1.isOk → HoldsHandle table out.2) := by
  obtain ⟨after, isOutside, direct, kept, way⟩ := writeThrough_answer outside unwritten openable named
    (encoded input.encodeFault [] (directInsert input.flush.directFault [input.row]))
    (fun session => encoded input.encodeFault session
      (SqlWrite.insert [(input.row, input.insert)] input.flush.insert session)) input.flush.handle
  rw [insertRecord]
  rcases way with ⟨refused, error, ran⟩ | ⟨given, holds, wrote, ran⟩
  · rw [ran, refused]
    exact ⟨.refused isOutside direct kept error, rfl, fun ok => by cases ok⟩
  · rw [ran, given, Bool.false_or]
    cases encodes : input.encodeFault with
    | some error =>
        have refused : input.refused = true := by simp only [RowIn.refused, encodes, Option.isSome_some, Bool.true_or]
        rw [refused]
        exact ⟨.refused isOutside direct kept error, rfl, fun ok => by cases ok⟩
    | none =>
        have answer := SqlWrite.insertSingle_answer input.row input.insert after
        refine ⟨(SqlWrite.insert_single isOutside direct input.row input.insert).of_kept kept, ?_, fun _ => ?_⟩
        · simp only [RowIn.refused, encodes, Option.isSome_none, Bool.false_or, Bool.not_not]
          exact answer
        · exact SqlWrite.insertSingle_handle isOutside holds input.row input.insert

end Refusals

section Sql

variable {start session : Session Write} {table : String} {bulk : Bulk Write} {done : List (RowIn Write)}

/-- The rows wait for their first flush. -/
structure Waiting (start : Session Write) (done : List (RowIn Write)) (bulk : Bulk Write)
    (session : Session Write) : Prop where
  same : session = start
  notOwned : bulk.ownsTx = false
  buffer : bulk.buffer = done.map fun input => (input.row, input.insert)
  few : done.length < kBulkFlushRows

/-- Chunks went into the transaction the first one began. -/
structure Chunked (start : Session Write) (done : List (RowIn Write)) (bulk : Bulk Write)
    (session : Session Write) : Prop where
  owned : bulk.ownsTx = true
  kept : Kept start session
  held : ∃ chunks, Inside session chunks ∧ chunks ++ bulk.buffer.map Prod.fst = done.map RowIn.row
  many : kBulkFlushRows ≤ done.length

/-- The bulk insert of a table a foreign key names, under way. -/
structure Bulked (start : Session Write) (done : List (RowIn Write)) (bulk : Bulk Write)
    (session : Session Write) : Prop where
  active : bulk.active = true
  fk : bulk.fk = true
  counted : bulk.rows = bulk.buffer.length
  way : Waiting start done bulk session ∨ Chunked start done bulk session

/-- A flush failed: nothing is left of the statement. -/
structure Settled (start : Session Write) (bulk : Bulk Write) (session : Session Write) : Prop where
  outside : Outside session
  direct : session.directWrites = []
  kept : Kept start session
  none : bulk.rows = 0

omit start done in
/-- A chunk that fails takes the transaction the bulk insert began with it. -/
theorem flushRows_inside {held : List Write} (inside : Inside session held)
    (named : session.db.namesTable table = true) (owned : bulk.ownsTx = true) (calls : FlushCalls Write) :
    let out := afterChunk calls (flushRows table calls bulk session)
    Kept session out.2.2 ∧
      match out.1 with
      | .ok () => Inside out.2.2 (held ++ bulk.buffer.map Prod.fst) ∧ out.2.1 = { bulk with buffer := [] }
      | .error _ => Outside out.2.2 ∧ out.2.2.directWrites = [] ∧ out.2.1.rows = bulk.rows := by
  obtain ⟨left, after, kept, whole⟩ := insertBuffer_inside inside named calls bulk.buffer
  simp only [flushRows]
  generalize insertBuffer table calls bulk.buffer session = out at *
  obtain ⟨result, last⟩ := out
  cases result with
  | ok count =>
      have all : left = bulk.buffer.map Prod.fst := whole rfl
      rw [all] at after
      exact ⟨kept, after, rfl⟩
  | error error =>
      have stillInside : Inside last (held ++ left) := after
      have isOpen : last.inTransaction = true := stillInside.isOpen
      obtain ⟨outside, direct, restored⟩ := rollback_inside stillInside calls.insert.finish
      simp only [Except.map, afterChunk, owned, isOpen, if_true]
      exact ⟨kept.trans restored, outside, direct, trivial⟩

/-- What a flush on the way leaves: the rows under way, or nothing. -/
inductive Flushed (start : Session Write) (done : List (RowIn Write)) :
    Except Error Unit × Bulk Write × Session Write → Prop where
  | stored {bulk : Bulk Write} {session : Session Write} :
      Bulked start done bulk session → Flushed start done (.ok (), bulk, session)
  | lost {error : Error} {bulk : Bulk Write} {session : Session Write} :
      Settled start bulk session → kBulkFlushRows ≤ done.length →
      Flushed start done (.error error, bulk, session)

theorem flushRows_chunk {chunks : List Write} (kept : Kept start session) (inside : Inside session chunks)
    (named : start.db.namesTable table = true) (active : bulk.active = true) (fk : bulk.fk = true)
    (owned : bulk.ownsTx = true) (noneWait : bulk.rows = 0)
    (all : chunks ++ bulk.buffer.map Prod.fst = done.map RowIn.row) (many : kBulkFlushRows ≤ done.length)
    (calls : FlushCalls Write) :
    Flushed start done (afterChunk calls (flushRows table calls bulk session)) := by
  obtain ⟨after, flushed⟩ := flushRows_inside inside ((kept.names table).trans named) owned calls
  generalize afterChunk calls (flushRows table calls bulk session) = out at *
  obtain ⟨result, last, ended⟩ := out
  cases result with
  | ok _ =>
      obtain ⟨stillInside, emptied⟩ := flushed
      obtain rfl : last = { bulk with buffer := [] } := emptied
      refine .stored ⟨active, fk, noneWait, .inr ⟨owned, kept.trans after, ?_, many⟩⟩
      exact ⟨_, stillInside, by rw [← all]; exact List.append_nil _⟩
  | error error =>
      obtain ⟨outside, direct, sameRows⟩ := flushed
      exact .lost ⟨outside, direct, kept.trans after, sameRows.trans noneWait⟩ many

/-- A chunk is in the statement's transaction, or nothing is left of it. -/
theorem flush_chunk (outside : Outside start) (unwritten : start.directWrites = [])
    (named : start.db.namesTable table = true) (bulked : Bulked start done bulk session)
    (input : RowIn Write) (many : kBulkFlushRows ≤ (done ++ [input]).length) :
    let entry := (input.row, input.insert)
    let added := { bulk with buffer := bulk.buffer ++ [entry], rows := (bulk.buffer ++ [entry]).length }
    Flushed start (done ++ [input])
      (afterChunk input.flush (flushBulkBuffer true table input.flush added session)) := by
  have notEmpty : (bulk.buffer ++ [(input.row, input.insert)]).length ≠ 0 := by simp
  simp only [flushBulkBuffer, notEmpty, if_false, Bool.true_and]
  rcases bulked.way with waiting | chunked
  · obtain rfl := waiting.same
    have closed : session.inTransaction = false := outside.closed
    rw [bulked.fk, closed]
    obtain ⟨begunKept, begun⟩ := begin_outside outside unwritten .readCommitted input.flush.begin
    generalize session.begin .readCommitted input.flush.begin = out at *
    obtain ⟨result, next⟩ := out
    cases result with
    | error error =>
        simp only [Bool.not_false, Bool.and_self, if_true, afterChunk, waiting.notOwned, Bool.false_eq_true, if_false]
        exact .lost ⟨begun.1, begun.2, begunKept, rfl⟩ many
    | ok _ =>
        apply flushRows_chunk begunKept begun named ?_ rfl rfl rfl ?_ many
        · exact bulked.active
        · simp [waiting.buffer, Function.comp_def]
  · obtain ⟨chunks, inside, all⟩ := chunked.held
    have isOpen : session.inTransaction = true := inside.isOpen
    rw [isOpen, Bool.not_true, Bool.and_false, if_neg Bool.false_ne_true]
    apply flushRows_chunk chunked.kept inside named ?_ ?_ ?_ rfl ?_ many
    · exact bulked.active
    · exact bulked.fk
    · exact chunked.owned
    · rw [List.map_append, ← List.append_assoc, all, List.map_append]
      rfl

theorem writeRow_bulked (outside : Outside start) (unwritten : start.directWrites = [])
    (named : start.db.namesTable table = true) (bulked : Bulked start done bulk session)
    (input : RowIn Write) (encodes : input.encodeFault = none) :
    Flushed start (done ++ [input]) (writeRow table input bulk session) := by
  rw [writeRow, if_pos bulked.active]
  simp only [encodes]
  split
  · rename_i room
    refine .stored ⟨bulked.active, bulked.fk, rfl, ?_⟩
    rcases bulked.way with waiting | chunked
    · refine .inl ⟨waiting.same, waiting.notOwned, by simp [waiting.buffer], ?_⟩
      simpa [waiting.buffer] using room
    · obtain ⟨chunks, inside, all⟩ := chunked.held
      refine .inr ⟨chunked.owned, chunked.kept, ⟨chunks, inside, ?_⟩, ?_⟩
      · rw [List.map_append, ← List.append_assoc, all, List.map_append]
        rfl
      · exact Nat.le_trans chunked.many (by simp)
  · rename_i full
    apply flush_chunk outside unwritten named bulked input
    rcases bulked.way with waiting | chunked
    · have same : (bulk.buffer ++ [(input.row, input.insert)]).length = (done ++ [input]).length := by
        simp [waiting.buffer]
      exact same ▸ Nat.le_of_not_lt full
    · exact Nat.le_trans chunked.many (by simp)

/-- The rows up to the first that is not encoded. -/
def encodedRows (inputs : List (RowIn Write)) : List (RowIn Write) :=
  inputs.takeWhile fun input => input.encodeFault.isNone

/-- The rows before the first error are under way, or a flush failed among
them. -/
theorem writeRows_bulked (outside : Outside start) (unwritten : start.directWrites = [])
    (named : start.db.namesTable table = true) (bulked : Bulked start done bulk session)
    (inputs : List (RowIn Write)) :
    let out := writeRows table inputs bulk session
    (Bulked start (done ++ encodedRows inputs) out.2.1 out.2.2 ∧
        (out.1.isOk = true ↔ encodedRows inputs = inputs)) ∨
      (Settled start out.2.1 out.2.2 ∧ out.1.isOk = false ∧
        kBulkFlushRows ≤ (done ++ encodedRows inputs).length) := by
  induction inputs generalizing done bulk session with
  | nil => exact .inl ⟨by simpa [encodedRows, writeRows] using bulked, fun _ => rfl, fun _ => rfl⟩
  | cons input inputs ih =>
      cases encodes : input.encodeFault with
      | some error =>
          have stops : encodedRows (input :: inputs) = [] := by simp [encodedRows, encodes]
          have ran : writeRow table input bulk session = (.error error, bulk, session) := by
            simp only [writeRow, bulked.active, if_true, encodes]
          simp only [writeRows, ran, stops, List.append_nil]
          exact .inl ⟨bulked, fun ok => (by cases ok), fun same => (by cases same)⟩
      | none =>
          have goes : encodedRows (input :: inputs) = input :: encodedRows inputs := by
            simp [encodedRows, encodes]
          have flushed := writeRow_bulked outside unwritten named bulked input encodes
          rw [goes]
          simp only [writeRows]
          generalize writeRow table input bulk session = out at *
          cases flushed with
          | stored still =>
              have rest := ih still
              simpa only [List.append_assoc, List.singleton_append, List.cons.injEq, true_and] using rest
          | lost settled many =>
              refine .inr ⟨settled, rfl, Nat.le_trans many ?_⟩
              simp

/-- The last flush of rows that had none before it goes through SQL as one
insert; after chunks it joins their transaction. -/
theorem endBulkInsert_waiting (outside : Outside start) (unwritten : start.directWrites = [])
    (openable : start.Openable table) (named : start.db.namesTable table = true) (active : bulk.active = true)
    (counted : bulk.rows = bulk.buffer.length)
    (waiting : Waiting start done bulk session) (calls : FlushCalls Write) :
    let out := endBulkInsert table calls bulk session
    Outside out.2.2 ∧ out.2.2.directWrites = [] ∧
      out.2.2.db.committed = start.db.committed ++ (if out.1.isOk then done.map RowIn.row else []) ∧
      out.1.isOk = (done.isEmpty || !(start.handleRefused table calls.handle ||
        calls.insert.refuses (done.map fun input => (input.row, input.insert)))) := by
  obtain rfl := waiting.same
  simp only [endBulkInsert, active, Bool.not_true, Bool.false_eq_true, if_false, flushBulkBuffer, counted,
    waiting.buffer, List.length_map, Bool.false_and]
  cases done with
  | nil => exact ⟨outside, unwritten, by simp, rfl⟩
  | cons first rest =>
      simp only [List.length_cons, Nat.succ_ne_zero, if_false, flushRows, List.isEmpty_cons, Bool.false_or,
        except_map_isOk]
      obtain ⟨whole, answer⟩ := insertBuffer_outside outside unwritten openable named calls
        ((first :: rest).map fun input => (input.row, input.insert))
      refine ⟨whole.outside, whole.direct, ?_, answer⟩
      simpa [Function.comp_def] using whole.committed

theorem endBulkInsert_chunked (named : start.db.namesTable table = true) (active : bulk.active = true)
    (counted : bulk.rows = bulk.buffer.length) (chunked : Chunked start done bulk session)
    (calls : FlushCalls Write) :
    let out := endBulkInsert table calls bulk session
    ∃ held, Inside out.2.2 held ∧ Kept start out.2.2 ∧ (out.1.isOk → held = done.map RowIn.row) := by
  obtain ⟨chunks, inside, all⟩ := chunked.held
  simp only [endBulkInsert, active, Bool.not_true, Bool.false_eq_true, if_false, flushBulkBuffer, counted,
    Bool.false_and]
  split
  · rename_i none
    rw [List.eq_nil_of_length_eq_zero none, List.map_nil, List.append_nil] at all
    exact ⟨chunks, inside, chunked.kept, fun _ => all⟩
  · obtain ⟨left, after, kept, whole⟩ :=
      insertBuffer_inside inside ((chunked.kept.names table).trans named) calls bulk.buffer
    simp only [flushRows, except_map_isOk]
    refine ⟨_, after, chunked.kept.trans kept, fun ok => ?_⟩
    rw [whole ok, all]

theorem endBulkInsert_settled (settled : Settled start bulk session) (calls : FlushCalls Write) :
    (endBulkInsert table calls bulk session).2.2 = session := by
  unfold endBulkInsert
  split
  · rfl
  · simp only [flushBulkBuffer, settled.none, if_true]

end Sql

section PerRow

variable {session : Session Write} {table : String} {bulk : Bulk Write}

/-- The rows up to the first that is refused on its own. -/
def acceptedRows (inputs : List (RowIn Write)) : List (RowIn Write) :=
  inputs.takeWhile fun input => !input.refused

/-- The engine refuses the handle the first row asks for. -/
def firstRefused (table : String) (inputs : List (RowIn Write)) (session : Session Write) : Bool :=
  inputs.head?.any fun first => session.handleRefused table first.flush.handle

omit bulk in
theorem firstRefused_holding (holds : HoldsHandle table session) (inputs : List (RowIn Write)) :
    firstRefused table inputs session = false := by
  cases inputs with
  | nil => rfl
  | cons first rest => exact holds.not_refused first.flush.handle

/-- Row by row, each INSERT by SQL is durable before the next. -/
theorem writeRows_perRow (outside : Outside session) (unwritten : session.directWrites = [])
    (openable : session.Openable table) (named : session.db.namesTable table = true)
    (inactive : bulk.active = false) (inputs : List (RowIn Write)) :
    let out := writeRows table inputs bulk session
    Outside out.2.2 ∧ out.2.2.directWrites = [] ∧ out.2.1 = bulk ∧
      out.2.2.db.committed = session.db.committed ++
        (if firstRefused table inputs session then [] else (acceptedRows inputs).map RowIn.row) := by
  induction inputs generalizing session with
  | nil => exact ⟨outside, unwritten, rfl, by simp [writeRows, acceptedRows]⟩
  | cons input inputs ih =>
      obtain ⟨whole, answer, holds⟩ := insertRecord_outside outside unwritten openable named input
      have first : firstRefused table (input :: inputs) session =
          session.handleRefused table input.flush.handle := rfl
      have ran : writeRow table input bulk session =
          ((insertRecord table input session).1.map fun _ => (), bulk, (insertRecord table input session).2) := by
        rw [writeRow, inactive, if_neg Bool.false_ne_true]
      simp only [writeRows, ran, first]
      generalize insertRecord table input session = out at *
      obtain ⟨result, next⟩ := out
      cases result with
      | error error =>
          have refused : (session.handleRefused table input.flush.handle || input.refused) = true :=
            Bool.not_eq_eq_eq_not.mp answer.symm
          refine ⟨whole.outside, whole.direct, rfl, whole.committed.trans ?_⟩
          rcases Bool.or_eq_true _ _ ▸ refused with handle | row
          · rw [handle]
            rfl
          · simp [acceptedRows, row, Except.isOk, Except.toBool]
      | ok count =>
          have accepted : (session.handleRefused table input.flush.handle || input.refused) = false :=
            Bool.not_eq_eq_eq_not.mp answer.symm
          obtain ⟨handle, row⟩ := Bool.or_eq_false_iff.mp accepted
          have stillNamed : next.db.namesTable table = true := by
            rw [← named, Database.namesTable, Database.namesTable, whole.keys]
          obtain ⟨last, direct, same, committed⟩ :=
            ih whole.outside whole.direct (.inr (holds rfl).cached) stillNamed
          refine ⟨last, direct, same, committed.trans ?_⟩
          rw [whole.committed, firstRefused_holding (holds rfl), handle]
          simp [acceptedRows, row, Except.isOk, Except.toBool]

end PerRow

section Atomicity

variable {session : Session Write} {table : String}

/-- The statement stored all of its rows or none. -/
def AllOrNothing (inputs : List (RowIn Write)) (before after : Session Write) : Prop :=
  after.db.committed = before.db.committed ∨
    after.db.committed = before.db.committed ++ inputs.map RowIn.row

/-- When the statement is all or nothing. A table a foreign key names needs
its rows to be entered as a whole, or to fill a chunk before one fails, or the
engine to refuse the first handle or the one insert of the buffered rows. -/
def Survives (table : String) (perRow : Bool) (inputs : List (RowIn Write)) (finish : EndCalls Write)
    (session : Session Write) : Prop :=
  session.db.namesTable table = false ∨
    if perRow then
      acceptedRows inputs = [] ∨ acceptedRows inputs = inputs ∨ firstRefused table inputs session = true
    else
      encodedRows inputs = [] ∨ encodedRows inputs = inputs ∨ kBulkFlushRows ≤ (encodedRows inputs).length ∨
        (session.handleRefused table finish.flush.handle || finish.flush.insert.refuses
          ((encodedRows inputs).map fun input => (input.row, input.insert))) = true

theorem allOrNothing_takeWhile {before after : Session Write} (inputs : List (RowIn Write))
    (p : RowIn Write → Bool)
    (stored : after.db.committed = before.db.committed ++ (inputs.takeWhile p).map RowIn.row) :
    AllOrNothing inputs before after ↔ inputs.takeWhile p = [] ∨ inputs.takeWhile p = inputs := by
  rw [AllOrNothing, stored]
  constructor
  · rintro (none | all)
    · exact .inl (by simpa using none)
    · refine .inr ((List.takeWhile_prefix p).eq_of_length ?_)
      simpa using congrArg List.length (List.append_cancel_left all)
  · rintro (none | all)
    · exact .inl (by rw [none]; simp)
    · exact .inr (by rw [all])

theorem startBulkInsert_direct (outside : Outside session) (unwritten : session.directWrites = [])
    (unnamed : session.db.namesTable table = false) (perRow : Bool) (bulk : Bulk Write) :
    DirectRows session [] (startBulkInsert perRow table bulk session) session := by
  have direct : (startBulkInsert perRow table bulk session).active = true →
      (startBulkInsert perRow table bulk session).fk = false := by
    cases perRow with
    | true => exact fun active => by cases active
    | false =>
        intro _
        simp only [startBulkInsert, writesThroughSql, Bool.false_eq_true, if_false]
        split
        · rename_i ran
          split at ran
          · cases ran
            exact unnamed
          · cases ran
        · rfl
  refine ⟨⟨outside, .refl session, direct⟩, ?_, ?_⟩
  · cases perRow with
    | true => exact fun active => by cases active
    | false => exact fun _ => rfl
  · rw [unwritten]
    cases perRow <;> rfl

theorem statement_direct (outside : Outside session) (unwritten : session.directWrites = [])
    (unnamed : session.db.namesTable table = false) (perRow : Bool) (inputs : List (RowIn Write))
    (finish : EndCalls Write) (bulk : Bulk Write) :
    AllOrNothing inputs session (statement table perRow inputs finish bulk session) := by
  obtain ⟨unharmed, written⟩ := writeRows_direct unnamed
    (startBulkInsert_direct outside unwritten unnamed perRow bulk) inputs
  unfold statement
  generalize writeRows table inputs (startBulkInsert perRow table bulk session) session = out at *
  obtain ⟨result, bulk, next⟩ := out
  obtain ⟨after, kept, ended⟩ := @endBulkInsert_direct _ session next table bulk ([] ++ inputs.map RowIn.row)
    unnamed unharmed finish.flush
  dsimp only at after kept ended written ⊢
  generalize endBulkInsert table finish.flush bulk next = out at *
  obtain ⟨last, ended', final⟩ := out
  dsimp only at after kept ended ⊢
  split
  · rename_i succeeded
    obtain ⟨wrote, flushed⟩ := Bool.and_eq_true_iff.mp succeeded
    have all : final.directWrites = inputs.map RowIn.row := ended flushed (written wrote)
    have committed := commitCb_outside after finish.statement finish.tx
    rw [all, kept.committed] at committed
    exact committed
  · exact .inl ((rollbackCb_outside after finish.statement finish.tx).trans kept.committed)

/-- A session with nothing of its own to make durable ends the statement as
it is. -/
theorem end_settled (outside : Outside session) (unwritten : session.directWrites = []) (succeeded : Bool)
    (finish : EndCalls Write) :
    (if succeeded then (commitCb finish.statement finish.tx session).2
      else (rollbackCb finish.statement finish.tx session).2).db.committed = session.db.committed := by
  cases succeeded with
  | true =>
      have committed := commitCb_outside outside finish.statement finish.tx
      rw [unwritten, List.append_nil, or_self] at committed
      exact committed
  | false => exact rollbackCb_outside outside finish.statement finish.tx

theorem statement_perRow (outside : Outside session) (unwritten : session.directWrites = [])
    (openable : session.Openable table) (named : session.db.namesTable table = true)
    (inputs : List (RowIn Write)) (finish : EndCalls Write) (bulk : Bulk Write) :
    (statement table true inputs finish bulk session).db.committed = session.db.committed ++
      (if firstRefused table inputs session then [] else (acceptedRows inputs).map RowIn.row) := by
  have inactive : (startBulkInsert true table bulk session).active = false := rfl
  obtain ⟨after, direct, same, committed⟩ :=
    writeRows_perRow outside unwritten openable named inactive inputs
  unfold statement
  generalize writeRows table inputs (startBulkInsert true table bulk session) session = out at *
  obtain ⟨result, last, next⟩ := out
  obtain rfl := same
  have ended : endBulkInsert table finish.flush (startBulkInsert true table bulk session) next =
      (.ok (), startBulkInsert true table bulk session, next) := by
    rw [endBulkInsert, inactive]
    rfl
  dsimp only at after direct committed ⊢
  rw [ended, ← committed]
  exact end_settled after direct _ finish

theorem startBulkInsert_bulked (stored : session.db.tables.contains table = true)
    (named : session.db.namesTable table = true) (bulk : Bulk Write) :
    Bulked session [] (startBulkInsert false table bulk session) session := by
  have fk : (startBulkInsert false table bulk session).fk = true := by
    simp only [startBulkInsert, writesThroughSql, stored, if_true, named, Bool.false_eq_true, if_false]
  exact ⟨rfl, fk, rfl, .inl ⟨rfl, rfl, rfl, by simp [kBulkFlushRows]⟩⟩

theorem statement_bulk (outside : Outside session) (unwritten : session.directWrites = [])
    (stored : session.db.tables.contains table = true) (named : session.db.namesTable table = true)
    (inputs : List (RowIn Write)) (finish : EndCalls Write) (bulk : Bulk Write) :
    (kBulkFlushRows ≤ (encodedRows inputs).length →
        AllOrNothing inputs session (statement table false inputs finish bulk session)) ∧
      ((encodedRows inputs).length < kBulkFlushRows →
        (statement table false inputs finish bulk session).db.committed = session.db.committed ++
          (if session.handleRefused table finish.flush.handle || finish.flush.insert.refuses
              ((encodedRows inputs).map fun input => (input.row, input.insert))
            then [] else (encodedRows inputs).map RowIn.row)) := by
  have run := writeRows_bulked outside unwritten named (startBulkInsert_bulked stored named bulk) inputs
  unfold statement
  generalize writeRows table inputs (startBulkInsert false table bulk session) session = out at *
  obtain ⟨result, last, next⟩ := out
  dsimp only at run ⊢
  rw [List.nil_append] at run
  rcases run with ⟨bulked, wrote⟩ | ⟨settled, failed, many⟩
  · rcases bulked.way with waiting | chunked
    · refine ⟨fun many => absurd waiting.few (Nat.not_lt_of_le many), fun _ => ?_⟩
      obtain ⟨after, direct, committed, answer⟩ := endBulkInsert_waiting outside unwritten (.inl stored) named
        bulked.active bulked.counted waiting finish.flush
      rw [end_settled after direct, committed, answer]
      cases encodedRows inputs with
      | nil => simp
      | cons first rest =>
          rw [List.isEmpty_cons, Bool.false_or]
          cases session.handleRefused table finish.flush.handle || finish.flush.insert.refuses
            ((first :: rest).map fun input => (input.row, input.insert)) <;> rfl
    · refine ⟨fun _ => ?_, fun few => absurd few (Nat.not_lt_of_le chunked.many)⟩
      obtain ⟨held, inside, kept, whole⟩ := endBulkInsert_chunked named bulked.active bulked.counted chunked
        finish.flush
      split
      · rename_i succeeded
        obtain ⟨rowsOk, flushed⟩ := Bool.and_eq_true_iff.mp succeeded
        have committed := commitCb_inside inside finish.statement finish.tx
        rw [whole flushed, wrote.mp rowsOk, kept.committed] at committed
        exact committed
      · exact .inl ((rollbackCb_inside inside finish.statement finish.tx).trans kept.committed)
  · refine ⟨fun _ => .inl ?_, fun few => absurd few (Nat.not_lt_of_le many)⟩
    have same := @endBulkInsert_settled _ session next table last settled finish.flush
    rw [end_settled (by rw [same]; exact settled.outside) (by rw [same]; exact settled.direct), same]
    exact settled.kept.committed

/-- An autocommit bulk INSERT is all or nothing, except on a table a foreign
key names when rows before a failed one go to SQL on their own. -/
theorem bulk_insert_atomic_iff (outside : Outside session) (unwritten : session.directWrites = [])
    (stored : session.db.tables.contains table = true) (perRow : Bool) (inputs : List (RowIn Write))
    (finish : EndCalls Write) (bulk : Bulk Write) :
    AllOrNothing inputs session (statement table perRow inputs finish bulk session) ↔
      Survives table perRow inputs finish session := by
  rw [Survives]
  cases named : session.db.namesTable table with
  | false =>
      simp only [true_or, iff_true]
      exact statement_direct outside unwritten named perRow inputs finish bulk
  | true =>
      simp only [Bool.true_eq_false, false_or]
      cases perRow with
      | true =>
          have committed := statement_perRow outside unwritten (.inl stored) named inputs finish bulk
          rw [if_pos rfl]
          cases refused : firstRefused table inputs session with
          | true =>
              simp only [refused, if_true, List.append_nil] at committed
              simp only [or_true, iff_true]
              exact .inl committed
          | false =>
              simp only [refused, Bool.false_eq_true, if_false] at committed
              simp only [Bool.false_eq_true, or_false]
              exact allOrNothing_takeWhile inputs _ committed
      | false =>
          obtain ⟨chunked, buffered⟩ := statement_bulk outside unwritten stored named inputs finish bulk
          rw [if_neg Bool.false_ne_true]
          by_cases many : kBulkFlushRows ≤ (encodedRows inputs).length
          · simp only [many, true_or, or_true, iff_true]
            exact chunked many
          · have committed := buffered (Nat.lt_of_not_le many)
            simp only [many, false_or]
            split at committed
            · rename_i refused
              simp only [refused, or_true, iff_true]
              exact .inl (committed.trans (List.append_nil _))
            · rename_i taken
              simp only [taken, Bool.false_eq_true, or_false]
              exact allOrNothing_takeWhile inputs _ committed

def sampleInsert (row : Nat) (encodeFault : Option Error) : RowIn Nat where
  row
  encodeFault
  insert := willing
  flush := ⟨willing, willing, none, ⟨none, willing, willing⟩⟩

def sampleEnd : EndCalls Nat := ⟨⟨willing, willing, none, ⟨none, willing, willing⟩⟩, willing, willing⟩

def noBulk : Bulk Nat := ⟨false, false, false, 0, []⟩

theorem bulk_insert_atomic_iff_sample :
    AllOrNothing [sampleInsert 7 none, sampleInsert 8 none] (new sampleDb)
      (statement "c" false [sampleInsert 7 none, sampleInsert 8 none] sampleEnd noBulk (new sampleDb)) :=
  (bulk_insert_atomic_iff sample_outside rfl rfl false _ _ _).mpr (.inr (.inr (.inl rfl)))

/-- The second row's value cannot be encoded; the end of the bulk insert
stores the first one all the same. -/
theorem bulk_insert_keeps_first_row :
    Outside (new sampleDb) ∧ (new sampleDb).directWrites = [] ∧
      (new sampleDb).db.tables.contains "c" = true ∧
      ¬ AllOrNothing [sampleInsert 7 none, sampleInsert 8 (some (.engine "unsupported"))] (new sampleDb)
        (statement "c" false [sampleInsert 7 none, sampleInsert 8 (some (.engine "unsupported"))] sampleEnd
          noBulk (new sampleDb)) := by
  refine ⟨sample_outside, rfl, rfl, ?_⟩
  rintro (none | all)
  · exact absurd none (by decide)
  · exact absurd all (by decide)

end Atomicity

end StoolapMariadb.BulkInsert
