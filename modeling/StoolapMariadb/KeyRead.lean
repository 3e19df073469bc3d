import StoolapMariadb.KeyParts

namespace StoolapMariadb.KeyRead

open StoolapMariadb.Types Index Record Read Key

/-! Reads of an index by key: the conditions stoolap is given, and the rows
MariaDB's own comparison keeps of those that come back. -/

/-- One part of a key: its bytes there and the value they are. -/
structure KeyCell where
  image : List UInt8
  value : Option Datum

/-- `ha_rkey_function`, as far as the plugin knows it. -/
inductive FindFlag where
  | keyExact
  | keyOrNext
  | keyOrPrev
  | afterKey
  | beforeKey
  -- `HA_READ_PREFIX`
  | keyStart
  | other
deriving DecidableEq

/-- A key over the first parts of an index. -/
structure KeyRange where
  cells : List KeyCell
  flag : FindFlag

def KeyRange.values (range : KeyRange) : List (Option Datum) := range.cells.map KeyCell.value

/-- A handler on an open table, after `index_init`: what a read of it uses of
MariaDB's table and of the session. `keyRestore` puts a key into a record. -/
structure Handler where
  table : TableView
  columns : List TableField
  keys : List KeyInfo
  activeIndex : Nat
  indexSorted : Bool
  indexParts : List StoolapField
  keyRestore : List KeyCell → RecordBuffer
  encodeCell : Option (Int32 → RecordBuffer → Except EncodeError Value)
  cmp : Comparisons
  trustBin : Bool
  readFields : List Nat
  -- The statement sets the primary key.
  fixed : Bool
  -- The parts the WHERE binds to one value.
  constKeyParts : Nat → Bool

inductive Outcome where
  | row (row : IdRow)
  | endOfFile
  | keyNotFound
  | unsupported
  | error (message : String)

/-- What the rows that come back are compared with. -/
inductive RowFilter where
  | all
  | key (key : List (Option Datum))
  | range (start stop : Option KeyRange)

structure Reading where
  read : Option Source
  filter : RowFilter

/-- `handler::compare_key`: a row equal to the range's end is past it when the
range ends before its key. -/
def compareEnd (cmp : Comparisons) (parts : List KeyPart) (stop : KeyRange) (row : TableField → Option Datum) :
    Ordering :=
  (cmp.keyCmp parts stop.values row).then
    (match stop.flag with
    | .beforeKey => .gt
    | .afterKey => .lt
    | _ => .eq)

/-- `range_in_bounds`. -/
def rangeInBounds (cmp : Comparisons) (parts : List KeyPart) (start stop : Option KeyRange)
    (row : TableField → Option Datum) : Bool :=
  (match start with
    | none => true
    | some start =>
        let order := cmp.keyCmp parts start.values row
        match start.flag with
        | .afterKey => order = .gt
        | .keyExact | .keyStart => order = .eq
        | _ => order ≠ .lt) &&
    match stop with
    | none => true
    | some stop => compareEnd cmp parts stop row ≠ .gt

namespace Handler

variable (h : Handler)

/-- The parts of the index in use. -/
def parts : List KeyPart := ((h.keys[h.activeIndex]?).map KeyInfo.parts).getD []

def keeps (filter : RowFilter) (row : Row) : Bool :=
  match filter with
  | .all => true
  | .key key => h.cmp.keyCmp h.parts key (recordValue row) = .eq
  | .range start stop => rangeInBounds h.cmp h.parts start stop (recordValue row)

/-- `index_next`, and `read_range_next` in a range: the next row that the
filter keeps. -/
def next [Stoolap] : Nat → Reading → Outcome × Reading
  | 0, reading => (.error "read on without end", reading)
  | fuel + 1, reading =>
      match rndNext reading.read h.table with
      | (.row row, read) =>
          if h.keeps reading.filter row.2 then (.row row, { reading with read })
          else next fuel { reading with read }
      | (.endOfFile, read) => (.endOfFile, { reading with read })
      | (.error message, read) => (.error message, { reading with read })

/-- The rows up to the end of the file from a call on. -/
def rowsFrom [Stoolap] (fuel : Nat) : Nat → Outcome × Reading → Option (List IdRow)
  | 0, _ => none
  | calls + 1, (outcome, reading) =>
      match outcome with
      | .row row => (rowsFrom fuel calls (h.next fuel reading)).map (row :: ·)
      | .endOfFile => some []
      | .keyNotFound | .unsupported | .error _ => none

def openRead [Stoolap] (bounds : List StoolapKeyBound) (order : List Nat) (desc : Bool) : Except Outcome Source :=
  match readConds h.indexParts h.encodeCell bounds [] with
  | .error message => .error (.error message)
  | .ok none => .error .keyNotFound
  | .ok (some conds) =>
      match ordered h.table { tableColumns := h.columns.length, columns := h.readFields, conds, order, desc,
                              fixed := h.fixed } with
      | .error message => .error (.error message)
      | .ok source => .ok source

end Handler

/-- The comparison on the last bound part, and whether the read goes
backwards. -/
def findOp : FindFlag → Option (KeyOp × Bool)
  | .keyExact | .keyStart => some (.eq, false)
  | .keyOrNext => some (.ge, false)
  | .afterKey => some (.gt, false)
  | .keyOrPrev => some (.le, true)
  | .beforeKey => some (.lt, true)
  | .other => none

/-- The mask of the first `count` parts that have the property. -/
def maskOf (bit : Nat → Bool) : Nat → UInt32
  | 0 => 0
  | count + 1 => if bit count then maskOf bit count ||| (1 <<< UInt32.ofNat count) else maskOf bit count

def partIs (parts : List KeyPart) (property : KeyPart → Bool) (index : Nat) : Bool :=
  (parts[index]?).any property

def columnOf (parts : List KeyPart) (index : Nat) : Nat :=
  ((parts[index]?).map fun p => p.column.field.fieldIndex).getD 0

/-- The order of a key read: past the parts that have one value in it, and
without those MariaDB compares. -/
def readMapOrder (parts : List KeyPart) (nparts : Nat) (filterMask : UInt32) (lastEq : Bool) : List Nat :=
  ((List.range parts.length).filter fun index =>
    !partBit filterMask index && !(index + 1 < nparts || index + 1 = nparts && lastEq)).map (columnOf parts)

namespace Handler

variable (h : Handler)

def closed : Reading := ⟨none, .all⟩

/-- `ha_stoolap::index_read_map`. -/
def indexReadMap [Stoolap] (fuel : Nat) (key : List KeyCell) (findFlag : FindFlag) : Outcome × Reading :=
  match h.keys[h.activeIndex]? with
  | none => (.error "internal error", closed)
  | some info =>
      match findOp findFlag with
      | none => (.unsupported, closed)
      | some (op, desc) =>
          let nparts := min key.length info.parts.length
          if nparts = 0 then (.keyNotFound, closed)
          else
            let exact := findFlag = .keyExact
            let filterMask := if exact then
              maskOf (partIs info.parts fun p => keyPartNeedsFilter p h.trustBin) nparts else 0
            let padMask := if exact then maskOf (partIs info.parts fun p => keyPartPads p h.trustBin) nparts else 0
            let exactUniqueLookup := exact && nparts = info.parts.length && info.noSame
            let order := if !exactUniqueLookup && (h.indexSorted || desc) then
              readMapOrder info.parts nparts filterMask (op = .eq) else []
            let key := key.take nparts
            let bound : StoolapKeyBound := { record := h.keyRestore key, nparts := Int32.ofNat nparts, op,
                                             skip := filterMask, pad := padMask, mode := .key }
            match h.openRead [bound] order desc with
            | .error outcome => (outcome, closed)
            | .ok source =>
                let filter := if filterMask ≠ 0 then .key (key.map KeyCell.value) else .all
                match h.next fuel ⟨some source, filter⟩ with
                | (.endOfFile, reading) => (.keyNotFound, reading)
                | result => result

/-- The rows of `index_read_map` and then `index_next` to the end. -/
def keyRows [Stoolap] (fuel : Nat) (key : List KeyCell) (findFlag : FindFlag) : Option (List IdRow) :=
  match h.indexReadMap fuel key findFlag with
  | (.keyNotFound, _) => some []
  | first => h.rowsFrom fuel fuel first

def readOrder (index : Nat) : Bool :=
  (indexFlags (h.keys.map fun info => info.parts.map fun p => p.column.field) h.activeIndex index).readOrder

/-- Ordered and compared by stoolap as by MariaDB. -/
def partSafe (index : Nat) : Bool :=
  h.readOrder index && partIs h.parts (fun p => !keyPartNeedsFilter p h.trustBin) index

/-- The leading parts on which two bounds agree, byte for byte. -/
def constPrefix : List KeyCell → List KeyCell → Nat
  | first :: firsts, last :: lasts => if first.image = last.image then constPrefix firsts lasts + 1 else 0
  | _, _ => 0

/-- The bound on the first part, inclusive whatever the range's flag. -/
def leadingBound (range : Option KeyRange) (op : KeyOp) : List StoolapKeyBound :=
  match range with
  | some { cells := first :: _, .. } =>
      [{ record := h.keyRestore [first], nparts := 1, op, skip := 0, pad := 0, mode := .leading }]
  | _ => []

/-- The parts in the order the flags promise, past one that promises none only
when it is constant. -/
def rangeOrder (const : Nat) : List Nat → List Nat
  | [] => []
  | index :: rest =>
      if index < const || h.constKeyParts index then rangeOrder const rest
      else if h.readOrder index then columnOf h.parts index :: rangeOrder const rest
      else []

def rangeBounds (start stop : Option KeyRange) (const : Nat) : List StoolapKeyBound :=
  if h.partSafe 0 then h.leadingBound start .ge ++ h.leadingBound stop .le
  else
    match start with
    | some { cells := first :: _, .. } =>
        if const > 0 && partIs h.parts (fun p => keyPartPads p h.trustBin) 0 then
          [{ record := h.keyRestore [first], nparts := 1, op := .eq, skip := 1, pad := 1, mode := .key }]
        else []
    | _ => []

/-- The leading parts every row of the range shares. -/
def rangeConst (start stop : Option KeyRange) : Nat :=
  match start, stop with
  | some start, some stop => constPrefix (start.cells.take h.parts.length) (stop.cells.take h.parts.length)
  | _, _ => 0

/-- `ha_stoolap::read_range_filtered`. -/
def readRangeFiltered [Stoolap] (fuel : Nat) (start stop : Option KeyRange) (sorted : Bool) : Outcome × Reading :=
  let const := h.rangeConst start stop
  let order := if sorted then h.rangeOrder const (List.range h.parts.length) else []
  match h.openRead (h.rangeBounds start stop const) order false with
  | .error outcome => (outcome, closed)
  | .ok source => h.next fuel ⟨some source, .range start stop⟩

/-- The rows of `read_range_filtered` and then `read_range_next` to the
end. -/
def rangeRows [Stoolap] (fuel : Nat) (start stop : Option KeyRange) (sorted : Bool) : Option (List IdRow) :=
  h.rowsFrom fuel fuel (h.readRangeFiltered fuel start stop sorted)

end Handler

end StoolapMariadb.KeyRead
