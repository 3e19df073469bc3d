import StoolapMariadb.SessionSpec

namespace StoolapMariadb.SqlWrite

/-! Writes through SQL: in the open transaction, or else autocommit. A
multi-row insert outside one runs in a transaction of its own. -/

open StoolapMariadb.Session

variable {Write : Type}

/-- `key_clause`: the error of a row that no PRIMARY KEY names. -/
def keyClause (key : List String) : Except Error Unit :=
  if key.isEmpty then
    .error (.invalidArgument ("row-pump UPDATE/DELETE on a table without a PRIMARY KEY is " ++
      "unsupported. Stoolap has no stable row-id, so MariaDB's filesort+LIMIT " ++
      "path could over-mutate byte-identical duplicates. Add a PRIMARY KEY, or " ++
      "rewrite the statement so the WHERE clause alone selects the rows (no " ++
      "ORDER BY/LIMIT) -- direct DML then handles it as one engine-side " ++
      "UPDATE/DELETE."))
  else .ok ()

/-- The INSERT of one row: what it writes, if the engine takes it, is the
row. -/
def inserting (row : Write) (calls : Calls Write) : Calls Write :=
  { calls with execution := { calls.execution with writes := [row] } }

/-- The engine's answers around the rows of a multi-row insert. -/
structure InsertCalls (Write : Type) where
  prepareFault : Option Error
  begin : Calls Write
  finish : Calls Write

def insertEach (rows : List (Write × Calls Write)) (total : Int64) (session : Session Write) :
    Except Error Int64 × Session Write :=
  match rows with
  | [] => (.ok total, session)
  | (row, calls) :: rows =>
      match session.run .insert (inserting row calls) with
      | (.error error, session) => (.error error, session)
      | (.ok count, session) => insertEach rows (total + count) session

/-- The rows in the transaction begun for them, rolled back at an error. -/
def insertPlanned (finish : Calls Write) (rows : List (Write × Calls Write)) (total : Int64)
    (session : Session Write) : Except Error Int64 × Session Write :=
  match rows with
  | [] => (.ok total, session)
  | (row, calls) :: rows =>
      match session.runPlan .insert (inserting row calls) with
      | (.error error, session) => (.error error, (session.rollback finish).2)
      | (.ok count, session) => insertPlanned finish rows (total + count) session

/-- `sql_write::insert`. -/
def insert (rows : List (Write × Calls Write)) (calls : InsertCalls Write) (session : Session Write) :
    Except Error Int64 × Session Write :=
  if rows.isEmpty then (.ok 0, session)
  else if rows.length = 1 || session.inTransaction then insertEach rows 0 session
  else
    match calls.prepareFault with
    | some error => (.error error, session)
    | none =>
        match session.begin calls.begin.isolationLevel calls.begin with
        | (.error error, session) => (.error error, session)
        | (.ok (), session) =>
            match insertPlanned calls.finish rows 0 session with
            | (.error error, session) => (.error error, session)
            | (.ok total, session) =>
                match session.commit calls.finish with
                | (.error error, session) => (.error error, session)
                | (.ok (), session) => (.ok total, session)

/-- `sql_write::update`. -/
def update (key : List String) (calls : Calls Write) (session : Session Write) :
    Except Error Int64 × Session Write :=
  match keyClause key with
  | .error error => (.error error, session)
  | .ok () => session.run .update calls

/-- `sql_write::delete`. -/
def delete (key : List String) (calls : Calls Write) (session : Session Write) :
    Except Error Int64 × Session Write :=
  match keyClause key with
  | .error error => (.error error, session)
  | .ok () => session.run .delete calls

/-- The writes that a statement of the session sees: those made durable, and
what the transaction in the executor holds back. -/
def seen (session : Session Write) : List Write :=
  session.db.committed ++ (session.exec.map session.db.pending).getD []

/-- An UPDATE that succeeds is what the engine makes of it, and the session sees
what it wrote. -/
theorem update_ok {session after : Session Write} {key : List String} {calls : Calls Write} {count : Int64}
    (updated : update key calls session = (.ok count, after)) :
    calls.execution.result = .ok count ∧ seen after = seen session ++ calls.execution.writes := by
  have executed : session.execute .update calls = (.ok count, after) := by
    rw [update] at updated
    split at updated
    · cases updated
    · cases planned : calls.planFault with
      | some error =>
          simp only [run, planned] at updated
          cases updated
      | none =>
          cases isOpen : session.inTransaction with
          | true => simpa only [run, planned, runPlan, isOpen, if_true, runsInTransaction] using updated
          | false =>
              simp only [run, planned, isOpen, Bool.false_eq_true, if_false] at updated
              cases own : session.stmtTx <;> simpa only [own] using updated
  cases installed : session.exec with
  | some tx =>
      simp only [Session.execute, Database.execute, installed, Statement.mayWrite, if_true] at executed
      obtain ⟨result, rfl⟩ := Prod.mk.inj executed
      exact ⟨result, by simp [seen, installed, Database.write, Database.setPending]⟩
  | none =>
      simp only [Session.execute, Database.execute, installed] at executed
      cases result : calls.execution.result with
      | error error =>
          simp only [result] at executed
          cases executed
      | ok answered =>
          simp only [result, Statement.mayWrite, if_true] at executed
          obtain ⟨same, rfl⟩ := Prod.mk.inj executed
          exact ⟨same, by simp [seen, installed, Database.publish]⟩

section Inserts

variable {session : Session Write} {held : List Write}

/-- Inside a transaction the rows are added to what it holds; a failure may
leave some of them there. -/
theorem insertEach_inside (inside : Inside session held) (rows : List (Write × Calls Write)) (total : Int64) :
    ∃ left, Inside (insertEach rows total session).2 (held ++ left) ∧
      Kept session (insertEach rows total session).2 ∧
      ((insertEach rows total session).1.isOk → left = rows.map Prod.fst) := by
  induction rows generalizing session held total with
  | nil => exact ⟨[], by simpa [insertEach] using inside, .refl session, fun _ => rfl⟩
  | cons entry rows ih =>
      obtain ⟨row, calls⟩ := entry
      obtain ⟨first, after, kept, whole⟩ := run_insert_inside inside (inserting row calls)
      simp only [insertEach]
      split
      · rename_i ran
        rw [ran] at after kept
        exact ⟨first, after, kept, fun ok => by cases ok⟩
      · rename_i count next ran
        rw [ran] at after kept whole
        obtain ⟨rest, last, restKept, restWhole⟩ := ih after (total + count)
        refine ⟨first ++ rest, by simpa using last, kept.trans restKept, fun ok => ?_⟩
        rw [whole count rfl, restWhole ok]
        rfl

theorem insert_inside (inside : Inside session held) (rows : List (Write × Calls Write))
    (calls : InsertCalls Write) :
    ∃ left, Inside (insert rows calls session).2 (held ++ left) ∧ Kept session (insert rows calls session).2 ∧
      ((insert rows calls session).1.isOk → left = rows.map Prod.fst) := by
  unfold insert
  split
  · rename_i none
    refine ⟨[], by simpa using inside, .refl session, fun _ => ?_⟩
    rw [List.isEmpty_iff.mp none]
    rfl
  · rw [inTransaction, inside.isOpen, Bool.or_true, if_pos rfl]
    exact insertEach_inside inside rows 0

/-- The rows of a plan are all in the transaction, or it is rolled back. -/
theorem insertPlanned_inside (inside : Inside session held) (finish : Calls Write)
    (rows : List (Write × Calls Write)) (total : Int64) :
    Kept session (insertPlanned finish rows total session).2 ∧
      match (insertPlanned finish rows total session).1 with
      | .ok _ => Inside (insertPlanned finish rows total session).2 (held ++ rows.map Prod.fst)
      | .error _ => Outside (insertPlanned finish rows total session).2 ∧
          (insertPlanned finish rows total session).2.directWrites = [] := by
  induction rows generalizing session held total with
  | nil => exact ⟨.refl session, by simpa [insertPlanned] using inside⟩
  | cons entry rows ih =>
      obtain ⟨row, calls⟩ := entry
      obtain ⟨first, after, kept, whole⟩ := runPlan_insert_inside inside (inserting row calls)
      simp only [insertPlanned]
      split
      · rename_i ran
        rw [ran] at after kept
        obtain ⟨outside, direct, restored⟩ := rollback_inside after finish
        exact ⟨kept.trans restored, outside, direct⟩
      · rename_i count next ran
        rw [ran] at after kept whole
        rw [whole count rfl] at after
        obtain ⟨restKept, rest⟩ := ih after (total + count)
        refine ⟨kept.trans restKept, ?_⟩
        simpa [inserting] using rest

/-- All of the rows are durable or none is, and no transaction is left open. -/
structure AllOrNone (rows : List Write) (before : Session Write)
    (result : Except Error Int64 × Session Write) : Prop where
  outside : Outside result.2
  direct : result.2.directWrites = []
  keys : result.2.db.foreignKeys = before.db.foreignKeys
  committed : result.2.db.committed = before.db.committed ++ if result.1.isOk then rows else []

theorem AllOrNone.refused {rows : List Write} {after : Session Write} (outside : Outside after)
    (direct : after.directWrites = []) (kept : Kept session after) (error : Error) :
    AllOrNone rows session (.error error, after) :=
  ⟨outside, direct, kept.keys, by simpa [Except.isOk, Except.toBool] using kept.committed⟩

theorem AllOrNone.of_kept {rows : List Write} {before after : Session Write}
    {result : Except Error Int64 × Session Write} (stored : AllOrNone rows after result)
    (kept : Kept before after) : AllOrNone rows before result :=
  ⟨stored.outside, stored.direct, stored.keys.trans kept.keys, stored.committed.trans (by rw [kept.committed])⟩

theorem insert_single (outside : Outside session) (unwritten : session.directWrites = [])
    (row : Write) (calls : Calls Write) :
    AllOrNone [row] session (insertEach [(row, calls)] 0 session) := by
  obtain ⟨after, direct, keys, committed, -⟩ := run_outside outside .insert rfl (inserting row calls)
  simp only [insertEach]
  split
  · rename_i ran
    rw [ran] at after direct keys committed
    exact .refused after (direct.trans unwritten) ⟨committed.trans (List.append_nil _), keys⟩ _
  · rename_i ran
    rw [ran] at after direct keys committed
    exact ⟨after, direct.trans unwritten, keys, committed⟩

/-- Several rows outside a transaction go in one of their own. -/
theorem insert_of_several (outside : Outside session) {rows : List (Write × Calls Write)} (several : 2 ≤ rows.length)
    (calls : InsertCalls Write) :
    insert rows calls session =
      match calls.prepareFault with
      | some error => (.error error, session)
      | none =>
          match session.begin calls.begin.isolationLevel calls.begin with
          | (.error error, session) => (.error error, session)
          | (.ok (), session) =>
              match insertPlanned calls.finish rows 0 session with
              | (.error error, session) => (.error error, session)
              | (.ok total, session) =>
                  match session.commit calls.finish with
                  | (.error error, session) => (.error error, session)
                  | (.ok (), session) => (.ok total, session) := by
  have nonempty : rows.isEmpty = false := by
    cases rows with
    | nil => cases several
    | cons entry rows => rfl
  have notOne : rows.length ≠ 1 := Nat.ne_of_gt several
  simp only [insert, nonempty, Bool.false_eq_true, if_false, inTransaction, outside.closed, Bool.or_false,
    decide_eq_true_eq, notOne]

/-- Several rows, once the INSERT is prepared: all of them are stored or none,
over what BEGIN left. -/
theorem insert_several (outside : Outside session) {rows : List (Write × Calls Write)}
    (several : 2 ≤ rows.length) {calls : InsertCalls Write} (prepared : calls.prepareFault = none) :
    AllOrNone (rows.map Prod.fst) (session.begin calls.begin.isolationLevel calls.begin).2
      (insert rows calls session) := by
  obtain ⟨-, -, begun⟩ := begin_ends outside calls.begin.isolationLevel calls.begin
  rw [insert_of_several outside several, prepared]
  dsimp only
  split
  · rename_i ran
    rw [ran] at begun ⊢
    exact .refused begun.1 begun.2 (.refl _) _
  · rename_i next ran
    rw [ran] at begun ⊢
    have inside : Inside next [] := begun
    obtain ⟨kept, planned⟩ := insertPlanned_inside inside calls.finish rows 0
    split
    · rename_i ran
      rw [ran] at kept planned
      exact .refused planned.1 planned.2 kept _
    · rename_i total last ran
      rw [ran] at kept planned
      have full : Inside last (rows.map Prod.fst) := planned
      obtain ⟨after, direct, keys, committed⟩ := commit_inside full calls.finish
      rw [kept.committed] at committed
      split
      · rename_i ran
        rw [ran] at after direct keys committed
        exact ⟨after, direct, keys.trans kept.keys, committed⟩
      · rename_i ran
        rw [ran] at after direct keys committed
        exact ⟨after, direct, keys.trans kept.keys, committed⟩

theorem insert_unprepared (outside : Outside session) {rows : List (Write × Calls Write)}
    (several : 2 ≤ rows.length) {calls : InsertCalls Write} {error : Error}
    (refused : calls.prepareFault = some error) : insert rows calls session = (.error error, session) := by
  rw [insert_of_several outside several, refused]

/-- Outside a transaction an insert by SQL stores all its rows or none, and
leaves no transaction open. -/
theorem insert_outside (outside : Outside session) (unwritten : session.directWrites = [])
    (rows : List (Write × Calls Write)) (calls : InsertCalls Write) :
    AllOrNone (rows.map Prod.fst) session (insert rows calls session) := by
  match rows with
  | [] => exact ⟨outside, unwritten, rfl, by simp [insert]⟩
  | [(row, rowCalls)] => exact insert_single outside unwritten row rowCalls
  | first :: second :: others =>
      have several : 2 ≤ (first :: second :: others).length := by simp
      cases fault : calls.prepareFault with
      | some error =>
          rw [insert_unprepared outside several fault]
          exact .refused outside unwritten (.refl session) _
      | none =>
          exact (insert_several outside several fault).of_kept (begin_outside outside unwritten _ _).1

/-- The answer to a plan's rows sums up the answers to their statements. -/
theorem insertPlanned_counts (finish : Calls Write) (rows : List (Write × Calls Write)) (total : Int64)
    (session : Session Write) {sum : Int64} (ok : (insertPlanned finish rows total session).1 = .ok sum) :
    ∃ counts : List Int64, rows.map (·.2.execution.result) = counts.map .ok ∧ sum = counts.foldl (· + ·) total := by
  induction rows generalizing total session with
  | nil =>
      cases ok
      exact ⟨[], rfl, rfl⟩
  | cons entry rows ih =>
      obtain ⟨row, calls⟩ := entry
      have answer : (session.runPlan .insert (inserting row calls)).1 = calls.execution.result :=
        runPlan_insert_answer session (inserting row calls)
      simp only [insertPlanned] at ok
      split at ok
      · cases ok
      · rename_i count next ran
        rw [ran] at answer
        obtain ⟨counts, each, summed⟩ := ih (total + count) next ok
        refine ⟨count :: counts, ?_, summed⟩
        simp only [List.map_cons, each, ← answer]

/-- So does the answer to several rows outside a transaction. -/
theorem insert_counts (outside : Outside session) {rows : List (Write × Calls Write)}
    (several : 2 ≤ rows.length) (calls : InsertCalls Write) {sum : Int64}
    (ok : (insert rows calls session).1 = .ok sum) :
    ∃ counts : List Int64, rows.map (·.2.execution.result) = counts.map .ok ∧ sum = counts.foldl (· + ·) 0 := by
  have notOne : rows.length ≠ 1 := Nat.ne_of_gt several
  unfold insert at ok
  split at ok
  · rename_i none
    rw [List.isEmpty_iff.mp none] at several
    cases several
  · simp only [inTransaction, outside.closed, Bool.or_false, decide_eq_true_eq, notOne, if_false] at ok
    split at ok
    · cases ok
    · split at ok
      · cases ok
      · split at ok
        · cases ok
        · rename_i total last ran
          split at ok
          · cases ok
          · cases ok
            exact insertPlanned_counts calls.finish rows 0 _ (congrArg Prod.fst ran)

/-- Inside a transaction the insert leaves it in the executor. -/
theorem insertEach_sameTx {rows : List (Write × Calls Write)} (inside : Inside session held) (total : Int64) :
    (insertEach rows total session).2.exec = session.exec ∧
      (insertEach rows total session).2.db.ended = session.db.ended := by
  induction rows generalizing session held total with
  | nil => exact ⟨rfl, rfl⟩
  | cons entry rows ih =>
      obtain ⟨row, calls⟩ := entry
      obtain ⟨first, after, -, -⟩ := run_insert_inside inside (inserting row calls)
      have same := run_insert_sameTx inside.isOpen (inserting row calls)
      simp only [insertEach]
      split
      · rename_i ran
        rw [ran] at same
        exact same
      · rename_i count next ran
        rw [ran] at after same
        obtain ⟨exec, ended⟩ := ih after (total + count)
        exact ⟨exec.trans same.1, ended.trans same.2⟩

theorem insert_sameTx (inside : Inside session held) (rows : List (Write × Calls Write))
    (calls : InsertCalls Write) :
    (insert rows calls session).2.exec = session.exec ∧
      (insert rows calls session).2.db.ended = session.db.ended := by
  unfold insert
  split
  · exact ⟨rfl, rfl⟩
  · rw [inTransaction, inside.isOpen, Bool.or_true, if_pos rfl]
    exact insertEach_sameTx inside 0

/-- What becomes durable before the rows: BEGIN ends the statement's own
transaction. -/
def endedFirst (calls : InsertCalls Write) (session : Session Write) : List Write :=
  if calls.prepareFault.isNone && calls.begin.commitFault.isNone then session.directWrites else []

theorem insert_ends (outside : Outside session) {rows : List (Write × Calls Write)}
    (several : 2 ≤ rows.length) (calls : InsertCalls Write) :
    Outside (insert rows calls session).2 ∧
      (insert rows calls session).2.db.committed = session.db.committed ++ endedFirst calls session ++
        (if (insert rows calls session).1.isOk then rows.map Prod.fst else []) := by
  cases fault : calls.prepareFault with
  | some error =>
      rw [insert_unprepared outside several fault]
      exact ⟨outside, by simp [endedFirst, fault, Except.isOk, Except.toBool]⟩
  | none =>
      have all := insert_several outside several fault
      obtain ⟨begun, -⟩ := begin_ends outside calls.begin.isolationLevel calls.begin
      refine ⟨all.outside, all.committed.trans ?_⟩
      simp only [begun, endedFirst, fault, Option.isNone_none, Bool.true_and]

/-- In any session a run of operations reaches: outside a transaction several
rows are stored whole or not at all, and none is left open; inside one they
join it, and neither end it nor make it durable. -/
theorem insert_whole_or_not {start : Session Write} (fresh : Fresh start) (ops : List (Op Write × Calls Write))
    (rows : List (Write × Calls Write)) (calls : InsertCalls Write) :
    let session := Runs.after step start ops
    let result := (insert rows calls session).1
    let after := (insert rows calls session).2
    (session.isOpen = false → 2 ≤ rows.length →
      after.isOpen = false ∧ after.exec = none ∧
        after.db.committed = session.db.committed ++ endedFirst calls session ++
          (if result.isOk then rows.map Prod.fst else []) ∧
        ∀ sum, result = .ok sum →
          ∃ counts : List Int64, rows.map (·.2.execution.result) = counts.map .ok ∧ sum = counts.foldl (· + ·) 0) ∧
    (session.isOpen = true →
      after.isOpen = true ∧ after.exec = session.exec ∧ after.db.ended = session.db.ended ∧
        after.db.committed = session.db.committed ∧
        ∃ left, after.openWrites = session.openWrites ++ left ∧ (result.isOk → left = rows.map Prod.fst)) := by
  intro session result after
  have consistent : Consistent session := consistent_of_run fresh ops
  refine ⟨fun closed several => ?_, fun isOpen => ?_⟩
  · have outside : Outside session := ⟨consistent, closed⟩
    obtain ⟨left, stored⟩ := insert_ends outside several calls
    exact ⟨left.closed, left.idle, stored, fun sum ok => insert_counts outside several calls ok⟩
  · have inside : Inside session session.openWrites := ⟨consistent, isOpen, rfl⟩
    obtain ⟨left, joined, kept, whole⟩ := insert_inside inside rows calls
    obtain ⟨exec, ended⟩ := insert_sameTx inside rows calls
    exact ⟨joined.isOpen, exec, ended, kept.committed, left, joined.holds, whole⟩

/-- The engine that takes the rows 1, 2 and 3, and one that refuses the last. -/
def sampleRows (last : Except Error Int64) : List (Nat × Calls Nat) :=
  [(1, willing), (2, willing), (3, { willing with execution := { willing.execution with result := last } })]

def sampleCalls : InsertCalls Nat := { prepareFault := none, begin := willing, finish := willing }

/-- The direct write 7 of before becomes durable either way. -/
theorem insert_whole_or_not_sample :
    let session := Runs.after step (new sampleDb) Session.sampleWrites
    (insert (sampleRows (.ok 1)) sampleCalls session).2.db.committed = [7, 1, 2, 3] ∧
      (insert (sampleRows (.error (.engine "duplicate key"))) sampleCalls session).2.db.committed = [7] := by
  intro session
  have run (last : Except Error Int64) := (insert_whole_or_not ⟨sampleDb, rfl, rfl, rfl, fun _ => rfl⟩
    Session.sampleWrites (sampleRows last) sampleCalls).1 rfl (Nat.le_succ 2)
  exact ⟨(run (.ok 1)).2.2.1.trans (by rfl), (run (.error (.engine "duplicate key"))).2.2.1.trans (by rfl)⟩

/-- The engine refuses the rows of an insert outside a transaction: one row
by its own INSERT, several also by the transaction begun for them. -/
def InsertCalls.refuses (calls : InsertCalls Write) : List (Write × Calls Write) → Bool
  | [] => false
  | [(_, rowCalls)] => !(insertAnswer rowCalls).isOk
  | rows =>
      calls.prepareFault.isSome || calls.begin.commitFault.isSome || calls.begin.beginFault.isSome ||
        rows.any (fun entry => !entry.2.execution.result.isOk) || calls.finish.commitFault.isSome

theorem insertPlanned_answer (finish : Calls Write) (rows : List (Write × Calls Write)) (total : Int64)
    (session : Session Write) :
    rows.any (fun entry => !entry.2.execution.result.isOk) =
      !(insertPlanned finish rows total session).1.isOk := by
  induction rows generalizing total session with
  | nil => rfl
  | cons entry rows ih =>
      obtain ⟨row, calls⟩ := entry
      have answer : (session.runPlan .insert (inserting row calls)).1 = calls.execution.result :=
        runPlan_insert_answer session (inserting row calls)
      simp only [insertPlanned, List.any_cons, ← answer]
      split
      · rename_i ran
        rw [ran]
        rfl
      · rename_i count next ran
        rw [ran, ih (total + count) next]
        rfl

theorem insertSingle_answer (row : Write) (calls : Calls Write) (session : Session Write) :
    (insertEach [(row, calls)] 0 session).1.isOk = (insertAnswer calls).isOk := by
  have answer : (session.run .insert (inserting row calls)).1 = insertAnswer calls :=
    run_insert_answer session (inserting row calls)
  simp only [insertEach, ← answer]
  split
  · rename_i ran
    rw [ran]
  · rename_i ran
    rw [ran]
    rfl

/-- One row's own INSERT leaves the statement its handle. -/
theorem insertSingle_handle (outside : Outside session) {table : String} (holds : HoldsHandle table session)
    (row : Write) (calls : Calls Write) :
    HoldsHandle table (insertEach [(row, calls)] 0 session).2 := by
  have still : HoldsHandle table (session.run .insert (inserting row calls)).2 := by
    cases planned : (inserting row calls).planFault with
    | some error =>
        simp only [run, planned]
        exact holds
    | none =>
        rw [run_write outside rfl planned]
        exact ⟨holds.own, holds.cached⟩
  simp only [insertEach]
  split
  · rename_i ran
    rw [ran] at still
    exact still
  · rename_i ran
    rw [ran] at still
    exact still

/-- Outside a transaction an insert by SQL goes through unless the engine
refuses it. -/
theorem insert_answer (outside : Outside session) (unwritten : session.directWrites = [])
    {tx : TxId} (own : session.stmtTx = some tx) (wrote : session.stmtWrote = true)
    (rows : List (Write × Calls Write)) (calls : InsertCalls Write) :
    (insert rows calls session).1.isOk = !calls.refuses rows := by
  match rows with
  | [] => rfl
  | [(row, rowCalls)] =>
      have answer := insertSingle_answer row rowCalls session
      simp only [InsertCalls.refuses, Bool.not_not, ← answer]
      rfl
  | first :: second :: others =>
      rw [insert_of_several outside (by simp)]
      simp only [InsertCalls.refuses]
      split
      · rename_i refused
        rw [refused]
        rfl
      · rename_i prepared
        rw [prepared]
        obtain ⟨-, begun⟩ := begin_outside outside unwritten calls.begin.isolationLevel calls.begin
        have begins := begin_answer outside own wrote calls.begin.isolationLevel calls.begin
        split
        · rename_i ran
          rw [ran] at begins
          have fault : (calls.begin.commitFault.isSome || calls.begin.beginFault.isSome) = true := by
            revert begins
            cases calls.begin.commitFault <;> cases calls.begin.beginFault <;>
              simp [Except.isOk, Except.toBool]
          rw [Option.isSome_none, Bool.false_or, fault]
          rfl
        · rename_i next ran
          rw [ran] at begins begun
          have noFault : (calls.begin.commitFault.isSome || calls.begin.beginFault.isSome) = false := by
            revert begins
            cases calls.begin.commitFault <;> cases calls.begin.beginFault <;>
              simp [Except.isOk, Except.toBool]
          have inside : Inside next [] := begun
          have planned := insertPlanned_answer calls.finish (first :: second :: others) 0 next
          obtain ⟨-, all⟩ := insertPlanned_inside inside calls.finish (first :: second :: others) 0
          rw [Option.isSome_none, Bool.false_or, noFault, Bool.false_or]
          split
          · rename_i ran
            rw [ran] at planned
            rw [planned]
            rfl
          · rename_i total last ran
            rw [ran] at planned all
            rw [planned]
            have full : Inside last ((first :: second :: others).map Prod.fst) := all
            have committed := commit_answer full calls.finish
            split
            · rename_i ran
              rw [ran] at committed
              cases fault : calls.finish.commitFault with
              | none => rw [fault] at committed; cases committed
              | some error => rfl
            · rename_i ran
              rw [ran] at committed
              cases fault : calls.finish.commitFault with
              | none => rfl
              | some error => rw [fault] at committed; cases committed

end Inserts

end StoolapMariadb.SqlWrite
