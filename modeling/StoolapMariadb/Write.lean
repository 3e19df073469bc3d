import StoolapMariadb.Value
import Mathlib.Data.List.Basic

namespace StoolapMariadb.Write

/-! Direct writes: inserts, and updates and deletes of a row by its id, in one
transaction. The engine checks UNIQUE only against committed rows, so both
look the keys up first. -/

/-- A row the transaction sees. `pending` once the transaction wrote it. -/
structure StoredRow where
  id : Int64
  row : Row
  pending : Bool
deriving DecidableEq

abbrev TxRows := List StoredRow

/-- A table: its UNIQUE indexes by name, each with the names of the columns it
has. -/
structure TableDef where
  name : String
  schema : Schema
  uniqueIndexes : List (String × List String)
  indexed : ∀ index ∈ uniqueIndexes, index.2 ≠ []

inductive Error where
  | internal (message : String)
  | uniqueConstraint (index column : String) (value : List Value) (rowId : Int64)
  | primaryKeyConstraint (rowId : Int64)
  | engine (message : String)
deriving DecidableEq

/-- A call of the engine's table handle, for what may make it fail. -/
inductive Call where
  | insert (row : Row)
  | insertBatch (rows : List Row)
  | update (id : Int64)
  | delete (id : Int64)
  | fetch (id : Int64)
  | scan

/-- What the engine decides by itself: the calls it refuses for reasons of its
own (a type, NOT NULL, a lock, the storage) and a new row's id in a table with
no INTEGER primary key. -/
structure Engine where
  fault : Call → TxRows → Option Error
  newId : TxRows → Row → Int64

/-- A row id no row has, as the source has it. -/
def noRow : Int64 := -9223372036854775808

def TableDef.columnIds (table : TableDef) (names : List String) : Option (List Nat) :=
  names.mapM fun name => table.schema.columns.findIdx? fun column => column.name = name

/-- A row's key of an index; nothing with a NULL, which never collides. -/
def keyOf (ids : List Nat) (row : Row) : Option (List Scalar) := ids.mapM row.value

def sameKey [Stoolap] (left right : List Scalar) : Bool :=
  left.length == right.length &&
    (left.zip right).all fun (left, right) => Stoolap.compare left right == .eq

/-- One key to a set of keys. -/
def equalKeys [Stoolap] (left right : List Scalar) : Bool :=
  left.length == right.length && (left.zip right).all fun (left, right) => Stoolap.equal left right

/-- An index lookup's filter: the key's columns all compare equal. -/
def holdsKey [Stoolap] (ids : List Nat) (key : List Scalar) (row : Row) : Bool :=
  match keyOf ids row with
  | some stored => sameKey stored key
  | none => false

def checkColumns (table : TableDef) (tableColumns : Nat) : Except Error Unit :=
  if table.schema.columns.length ≠ tableColumns then
    .error (.internal
      s!"table {table.name} has {table.schema.columns.length} columns, MariaDB knows {tableColumns}")
  else .ok ()

/-- `Row::set` of each column in turn. -/
def setColumns (row : Row) : List (Nat × Value) → Except Error Row
  | [] => .ok row
  | (column, value) :: rest =>
      if column < row.length then setColumns (row.set column value) rest
      else .error (.internal "column out of range")

def fetchRow (engine : Engine) (id : Int64) (rows : TxRows) : Except Error (Option StoredRow) :=
  match engine.fault (.fetch id) rows with
  | some error => .error error
  | none => .ok (rows.find? fun stored => stored.id = id)

/-- The id a new row takes: its INTEGER primary key, else one of the
engine's. -/
def rowId (engine : Engine) (table : TableDef) (rows : TxRows) (row : Row) : Except Error Int64 :=
  match table.schema.pkColumn with
  | none => .ok (engine.newId rows row)
  | some pk =>
      match row.value pk with
      | some (.integer id) => .ok id
      | _ => .error (.engine "no primary key")

/-- A committed row, as it stands, that holds a key of `row`. -/
def committedConflict [Stoolap] (table : TableDef) (rows : TxRows) (row : Row) : Bool :=
  table.uniqueIndexes.any fun (_, names) =>
    match table.columnIds names with
    | none => false
    | some ids =>
        match keyOf ids row with
        | none => false
        | some key => rows.any fun stored => !stored.pending && holdsKey ids key stored.row

/-- The engine's `insert_discard`: the primary key against every row, UNIQUE
against the committed ones. -/
def insertDiscard [Stoolap] (engine : Engine) (table : TableDef) (row : Row) (rows : TxRows) :
    Except Error TxRows :=
  match engine.fault (.insert row) rows with
  | some error => .error error
  | none =>
      match rowId engine table rows row with
      | .error error => .error error
      | .ok id =>
          if rows.any fun stored => stored.id = id then .error (.primaryKeyConstraint id)
          else if committedConflict table rows row then .error (.engine "unique constraint")
          else .ok (rows ++ [{ id, row, pending := true }])

/-- The engine's `insert_batch`: every row or none. -/
def insertBatch [Stoolap] (engine : Engine) (table : TableDef) (newRows : List Row) (rows : TxRows) :
    Except Error TxRows :=
  match engine.fault (.insertBatch newRows) rows with
  | some error => .error error
  | none => newRows.foldlM (fun rows row => insertDiscard engine table row rows) rows

/-- Refuses `row`, the new state of row `id`, when a UNIQUE index over one of
the `changed` columns holds its key for another row. -/
def checkUnique [Stoolap] (engine : Engine) (table : TableDef) (id : Int64) (row : Row)
    (changed : List Nat) (rows : TxRows) : List (String × List String) → Except Error Unit
  | [] => .ok ()
  | (index, names) :: indexes =>
      match table.columnIds names with
      | none => checkUnique engine table id row changed rows indexes
      | some ids =>
          if !ids.any fun column => changed.contains column then
            checkUnique engine table id row changed rows indexes
          else
            match keyOf ids row with
            | none => checkUnique engine table id row changed rows indexes
            | some key =>
                match rows.find? fun other => holdsKey ids key other.row && other.id ≠ id with
                | some other =>
                    .error (.uniqueConstraint index (", ".intercalate names) (key.map some) other.id)
                | none =>
                    match engine.fault .scan rows with
                    | some error => .error error
                    | none => checkUnique engine table id row changed rows indexes

/-- The keys new rows hold of an index, each once; a key two of them hold
instead. -/
def seenKeys [Stoolap] (ids : List Nat) : List Row → List (List Scalar) →
    Except (List Scalar) (List (List Scalar))
  | [], seen => .ok seen
  | row :: rows, seen =>
      match keyOf ids row with
      | none => seenKeys ids rows seen
      | some key =>
          if seen.any fun other => equalKeys other key then .error key
          else seenKeys ids rows (key :: seen)

def checkEach [Stoolap] (engine : Engine) (table : TableDef) (ids : List Nat) (rows : TxRows) :
    List Row → Except Error Unit
  | [] => .ok ()
  | row :: newRows =>
      match checkUnique engine table noRow row ids rows table.uniqueIndexes with
      | .error error => .error error
      | .ok () => checkEach engine table ids rows newRows

/-- Refuses new rows when two hold one key of a UNIQUE index or one holds a
key the table does: a single column's keys in one lookup, a composite index
row by row. -/
def checkUniqueBatch [Stoolap] (engine : Engine) (table : TableDef) (newRows : List Row)
    (rows : TxRows) : List (String × List String) → Except Error Unit
  | [] => .ok ()
  | (index, names) :: indexes =>
      match table.columnIds names with
      | none => checkUniqueBatch engine table newRows rows indexes
      | some ids =>
          match seenKeys ids newRows [] with
          | .error key =>
              .error (.uniqueConstraint index (", ".intercalate names) (key.map some) (-1))
          | .ok [] => checkUniqueBatch engine table newRows rows indexes
          | .ok seen =>
              match ids with
              | [column] =>
                  match rows.find? fun stored => seen.any fun key => holdsKey [column] key stored.row with
                  | some stored =>
                      .error (.uniqueConstraint index (", ".intercalate names)
                        [stored.row.value column] stored.id)
                  | none =>
                      match engine.fault .scan rows with
                      | some error => .error error
                      | none => checkUniqueBatch engine table newRows rows indexes
              | ids =>
                  match checkEach engine table ids rows newRows with
                  | .error error => .error error
                  | .ok () => checkUniqueBatch engine table newRows rows indexes

/-- A call that has no effect when it fails. -/
def attempt (rows : TxRows) (count : Int64) : Except Error TxRows → Except Error Int64 × TxRows
  | .error error => (.error error, rows)
  | .ok rows => (.ok count, rows)

/-- `write::insert`. -/
def insert [Stoolap] (engine : Engine) (table : TableDef) (tableColumns : Nat) (newRows : List Row)
    (rows : TxRows) : Except Error Int64 × TxRows :=
  match checkColumns table tableColumns with
  | .error error => (.error error, rows)
  | .ok () =>
      let count := Int64.ofNat newRows.length
      if !table.uniqueIndexes.isEmpty && newRows.length > 1 then
        match checkUniqueBatch engine table newRows rows table.uniqueIndexes with
        | .error error => (.error error, rows)
        | .ok () => attempt rows count (insertBatch engine table newRows rows)
      else if !table.uniqueIndexes.isEmpty then
        match newRows.getLast? with
        | none => (.error (.internal "no row"), rows)
        | some row =>
            match checkUnique engine table noRow row (List.range tableColumns) rows table.uniqueIndexes with
            | .error error => (.error error, rows)
            | .ok () => attempt rows count (insertDiscard engine table row rows)
      else
        match newRows with
        | [row] => attempt rows count (insertDiscard engine table row rows)
        | newRows => attempt rows count (insertBatch engine table newRows rows)

/-- The engine's `update_by_row_ids` of one row; how many rows it set. -/
def updateByRowId (engine : Engine) (id : Int64) (set : Row → Except Error Row) (rows : TxRows) :
    Except Error Int64 × TxRows :=
  match engine.fault (.update id) rows with
  | some error => (.error error, rows)
  | none =>
      match rows.find? fun stored => stored.id = id with
      | none => (.ok 0, rows)
      | some stored =>
          match set stored.row with
          | .error error => (.error error, rows)
          | .ok row =>
              (.ok 1, rows.map fun other => if other.id = id then { id, row, pending := true } else other)

/-- The engine's `delete_by_row_ids` of one row. -/
def deleteByRowId (engine : Engine) (id : Int64) (rows : TxRows) : Except Error Int64 × TxRows :=
  match engine.fault (.delete id) rows with
  | some error => (.error error, rows)
  | none =>
      (.ok (if rows.any fun stored => stored.id = id then 1 else 0),
        rows.filter fun stored => stored.id ≠ id)

/-- The part of `update` that leaves the primary key alone. -/
def updateInPlace [Stoolap] (engine : Engine) (table : TableDef) (id : Int64) (columns : List Nat)
    (values : List Value) (rows : TxRows) : Except Error Int64 × TxRows :=
  let set (row : Row) := setColumns row (columns.zip values)
  if table.uniqueIndexes.isEmpty then updateByRowId engine id set rows
  else
    match fetchRow engine id rows with
    | .error error => (.error error, rows)
    | .ok none => (.ok 0, rows)
    | .ok (some stored) =>
        match set stored.row with
        | .error error => (.error error, rows)
        | .ok row =>
            match checkUnique engine table id row columns rows table.uniqueIndexes with
            | .error error => (.error error, rows)
            | .ok () => updateByRowId engine id set rows

/-- The part of `update` that sets the primary key: the row moves to its new
id, and back when the engine refuses it there. -/
def updateMove [Stoolap] (engine : Engine) (table : TableDef) (id : Int64) (columns : List Nat)
    (values : List Value) (rows : TxRows) : Except Error Int64 × TxRows :=
  match fetchRow engine id rows with
  | .error error => (.error error, rows)
  | .ok none => (.ok 0, rows)
  | .ok (some old) =>
      match setColumns old.row (columns.zip values) with
      | .error error => (.error error, rows)
      | .ok row =>
          let checked :=
            if table.uniqueIndexes.isEmpty then .ok ()
            else checkUnique engine table id row columns rows table.uniqueIndexes
          match checked with
          | .error error => (.error error, rows)
          | .ok () =>
              match deleteByRowId engine id rows with
              | (.error error, rows) => (.error error, rows)
              | (.ok _, rows) =>
                  match insertDiscard engine table row rows with
                  | .ok rows => (.ok 1, rows)
                  | .error error =>
                      match insertDiscard engine table old.row rows with
                      | .error again => (.error again, rows)
                      | .ok rows => (.error error, rows)

/-- `write::update`. -/
def update [Stoolap] (engine : Engine) (table : TableDef) (tableColumns : Nat) (id : Int64)
    (columns : List Nat) (values : List Value) (rows : TxRows) : Except Error Int64 × TxRows :=
  match checkColumns table tableColumns with
  | .error error => (.error error, rows)
  | .ok () =>
      if columns.length ≠ values.length || columns.any fun column => tableColumns ≤ column then
        (.error (.internal "bad update columns"), rows)
      else if table.schema.pkColumn.any fun pk => columns.contains pk then
        updateMove engine table id columns values rows
      else updateInPlace engine table id columns values rows

/-- `write::delete`. -/
def delete (engine : Engine) (id : Int64) (rows : TxRows) : Except Error Int64 × TxRows :=
  deleteByRowId engine id rows

end StoolapMariadb.Write
