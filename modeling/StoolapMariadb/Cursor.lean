import StoolapMariadb.Read
import Mathlib.Data.List.Sort

namespace StoolapMariadb.Read

/-! The rows of a read: a scan, a sorted list, or the pages of an index, and
the handler's stream over them. -/

abbrev IdRow := Int64 × Row

/-- What the open transaction's handle of a table answers at one moment. A
page of an index is nothing when the index cannot answer. -/
structure TableView where
  name : String
  schema : Schema
  scan : Option Expression → Except String (List IdRow)
  fetchRowsByIds : List Int64 → Except String (List IdRow)
  hasIndexOnColumn : Nat → Bool
  orderedByIndex (column : Nat) (asc nullsFirst : Bool) (limit offset : Nat) :
    Except String (Option (List IdRow))

/-- MariaDB's order of two values: NULL before any value. -/
def compareValues [Stoolap] : Value → Value → Ordering
  | none, none => .eq
  | none, some _ => .lt
  | some _, none => .gt
  | some left, some right => Stoolap.compare left right

def compareBy [Stoolap] : List Nat → Row → Row → Ordering
  | [], _, _ => .eq
  | column :: columns, left, right =>
      (compareValues (left.value column) (right.value column)).then (compareBy columns left right)

def directed (desc : Bool) (order : Ordering) : Ordering := if desc then order.swap else order

/-- The rows sorted by `order`, a stable sort, all reversed when `desc`. -/
def sortedRows [Stoolap] (rows : List IdRow) (order : List Nat) (desc : Bool) : List IdRow :=
  rows.insertionSort fun left right => directed desc (compareBy order left.2 right.2) ≠ .gt

structure ReadSpec where
  tableColumns : Nat
  columns : List Nat
  conds : List Node
  order : List Nat
  desc : Bool
  -- The statement may move rows to new ids.
  fixed : Bool

/-- A read of a whole table in the order of one indexed column, a page at a
time. `last` is the column's value in the last row given and the ids of the
rows given with it. -/
structure Pager where
  column : Nat
  desc : Bool
  offset : Nat
  page : Nat
  rows : List IdRow
  done : Bool
  last : Option (Value × List Int64)

def Pager.start (column : Nat) (desc : Bool) : Pager where
  column
  desc
  offset := 0
  page := 16
  rows := []
  done := false
  last := none

/-- Whether a sorted scan goes on with this row after the last one given. -/
def Pager.goesOn [Stoolap] (pager : Pager) (row : IdRow) : Bool :=
  match pager.last with
  | none => true
  | some (value, ids) =>
      match directed pager.desc (compareValues (row.2.value pager.column) value) with
      | .gt => true
      | .eq => !ids.contains row.1
      | .lt => false

/-- Loads the next page; false at the end. When the index cannot answer, the
rest comes from a sorted scan after the last row given. -/
def Pager.fill [Stoolap] (pager : Pager) (table : TableView) : Except String (Bool × Pager) :=
  if pager.done then .ok (false, pager)
  else
    let asc := !pager.desc
    match table.orderedByIndex pager.column asc asc pager.page pager.offset with
    | .error message => .error message
    | .ok (some rows) =>
        .ok (!rows.isEmpty,
          { pager with
            done := rows.length < pager.page
            offset := pager.offset + rows.length
            page := min (pager.page * 4) 65536
            rows })
    | .ok none =>
        match table.scan none with
        | .error message => .error message
        | .ok all =>
            let rows := (sortedRows all [pager.column] pager.desc).filter pager.goesOn
            .ok (!rows.isEmpty,
              { pager with
                done := true
                offset := pager.offset + rows.length
                page := min (pager.page * 4) 65536
                rows })

inductive Source where
  | scan (rows : List IdRow)
  | sorted (rows : List IdRow)
  | paged (pager : Pager)

def checkColumns (table : TableView) (tableColumns : Nat) : Except String Unit :=
  if table.schema.columns.length ≠ tableColumns then
    .error s!"table {table.name} has {table.schema.columns.length} columns, MariaDB knows {tableColumns}"
  else .ok ()

/-- The id a lookup of the primary key's value reads. -/
def lookupId [Stoolap] (schema : Schema) : List Node → Option Int64
  | [.cond { column, op := .eq, value }] =>
      if schema.pkColumn = some column then
        match schema.columns[column]? with
        | some col =>
            match Stoolap.coerce col.dataType value with
            | some (.integer id) => some id
            | _ => none
        | none => none
      else none
  | _ => none

/-- `Cursor::open`. -/
def openRead [Stoolap] (table : TableView) (spec : ReadSpec) : Except String Source :=
  match checkColumns table spec.tableColumns with
  | .error message => .error message
  | .ok () =>
      match (spec.columns ++ spec.order).find? fun column => table.schema.columns.length ≤ column with
      | some column => .error s!"no column {column} in {table.name}"
      | none =>
          match lookupId table.schema spec.conds with
          | some id => (table.fetchRowsByIds [id]).map .sorted
          | none =>
              match buildExpressions table.schema table.name spec.conds [] with
              | .error message => .error message
              | .ok exprs =>
                  (table.scan (filterOf exprs)).map fun rows =>
                    if spec.order.isEmpty then .scan rows
                    else .sorted (sortedRows rows spec.order spec.desc)

/-- `Cursor::ordered`: a read with no condition ordered by one column, from
the column's index when it has one. -/
def ordered [Stoolap] (table : TableView) (spec : ReadSpec) : Except String Source :=
  match spec.order with
  | [column] =>
      if spec.fixed || !spec.conds.isEmpty then openRead table spec
      else
        match checkColumns table spec.tableColumns with
        | .error message => .error message
        | .ok () =>
            if spec.columns.any fun column => spec.tableColumns ≤ column then
              .error "column out of range"
            else if table.schema.pkColumn = some column || table.hasIndexOnColumn column then
              .ok (.paged (Pager.start column spec.desc))
            else openRead table spec
  | _ => openRead table spec

/-- Gives a loaded row, noting where a sorted scan would go on. -/
def Pager.give [Stoolap] (pager : Pager) (row : IdRow) (rest : List IdRow) : Pager :=
  let value := row.2.value pager.column
  { pager with
    rows := rest
    last :=
      match pager.last with
      | some (last, ids) =>
          if compareValues value last = .eq then some (last, ids ++ [row.1])
          else some (value, [row.1])
      | none => some (value, [row.1]) }

/-- `Cursor::next_row`. A page that was filled holds a row. -/
def Source.nextRow [Stoolap] (source : Source) (table : TableView) :
    Except String (Option IdRow × Source) :=
  match source with
  | .scan [] => .ok (none, source)
  | .scan (row :: rows) => .ok (some row, .scan rows)
  | .sorted [] => .ok (none, source)
  | .sorted (row :: rows) => .ok (some row, .sorted rows)
  | .paged pager =>
      match pager.rows with
      | row :: rest => .ok (some row, .paged (pager.give row rest))
      | [] =>
          match pager.fill table with
          | .error message => .error message
          | .ok (_, filled) =>
              match filled.rows with
              | row :: rest => .ok (some row, .paged (filled.give row rest))
              | [] => .ok (none, .paged filled)

/-- Whether the read has no row left, when that is known without reading
one. -/
def Source.exhausted : Source → Bool
  | .scan _ => false
  | .sorted rows => rows.isEmpty
  | .paged pager => pager.done && pager.rows.isEmpty

/-- What the handler's `rnd_next` comes back with. -/
inductive Step where
  | row (row : IdRow)
  | endOfFile
  | error (message : String)

/-- `rnd_next` over `stoolap_cursor_next`: the read, while it is open, ends
with its last row when the cursor knows it. -/
def rndNext [Stoolap] (read : Option Source) (table : TableView) : Step × Option Source :=
  match read with
  | none => (.endOfFile, none)
  | some source =>
      match source.nextRow table with
      | .error message => (.error message, none)
      | .ok (none, _) => (.endOfFile, none)
      | .ok (some row, source) => (.row row, if source.exhausted then none else some source)

/-- The rows up to the end of the file, `table` giving the table at each call;
nothing when a read fails or `fuel` calls do not reach the end. -/
def readAll [Stoolap] (table : Nat → TableView) : Nat → Option Source → Option (List IdRow)
  | 0, _ => none
  | fuel + 1, read =>
      match rndNext read (table 0) with
      | (.endOfFile, _) => some []
      | (.error _, _) => none
      | (.row row, read) => (readAll (fun call => table (call + 1)) fuel read).map (row :: ·)

end StoolapMariadb.Read
