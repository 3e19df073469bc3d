import StoolapMariadb.Record
import StoolapMariadb.Read
import Mathlib.Data.List.DropRight

namespace StoolapMariadb.Key

open Record Read

/-! A read's conditions from MariaDB key bounds: the bound's record gives the
values, and a composite range bound becomes an OR of legs. -/

inductive KeyOp where
  | eq
  | gt
  | ge
  | lt
  | le
deriving DecidableEq

/-- A key lookup compares all bound parts but the last for equality, a leading
bound only the first part, a range bound in MariaDB's lexicographic order. -/
inductive BoundMode where
  | key
  | leading
  | range
deriving DecidableEq

structure StoolapKeyBound where
  record : RecordBuffer
  nparts : Int32
  op : KeyOp
  skip : UInt32
  pad : UInt32
  mode : BoundMode

inductive KeyValue where
  | null
  -- Past every value stoolap holds: a BIGINT UNSIGNED above `INT64_MAX`.
  | beyond
  | value (value : Value)
deriving DecidableEq

def keyValue [Stoolap] (f : StoolapField) (src : RecordIn) : Except String KeyValue :=
  if f.nullMask ≠ 0 && src.record f.nullOffset.toNat &&& f.nullMask.toUInt8 ≠ 0 then .ok .null
  else if f.kind = .int && f.length = 8 && f.isUnsigned &&
      src.record (f.offset.toNat + 7) &&& 0x80 ≠ 0 then .ok .beyond
  else (readValue f src).map .value

def condOp : KeyOp → CondOp
  | .gt => .gt
  | .ge => .ge
  | .lt => .lt
  | .le => .le
  | .eq => .eq

def cond (f : StoolapField) (op : CondOp) (value : Value) : Node :=
  .cond { column := f.columnIndex, op, value }

/-- A comparison in MariaDB's index order: always true, never, or one
condition. -/
inductive Pred where
  | constTrue
  | constFalse
  | nodes (conds : List Node)

/-- `f op v` in MariaDB's index order, where NULL sorts before every value and
`beyond` after every stored one. Against a value an upper bound leaves the
NULLs out, as stoolap compares. -/
def compare (f : StoolapField) (op : KeyOp) : KeyValue → Pred
  | .value value => .nodes [cond f (condOp op) value]
  | .null =>
      match op with
      | .eq | .le => .nodes [cond f .isNull none]
      | .gt => .nodes [cond f .isNotNull none]
      | .ge => .constTrue
      | .lt => .constFalse
  | .beyond =>
      match op with
      | .lt | .le => .constTrue
      | .eq | .gt | .ge => .constFalse

/-- Appends a comparison; nothing when it is never true. -/
def compareInto (f : StoolapField) (op : KeyOp) (value : KeyValue) (out : List Node) :
    Option (List Node) :=
  match compare f op value with
  | .constFalse => none
  | .constTrue => some out
  | .nodes conds => some (out ++ conds)

/-- The AND of the comparisons and how many conditions it joins; nothing when
one is never true. -/
def all : List Pred → Option (List Node × Nat)
  | [] => some ([], 0)
  | .constFalse :: _ => none
  | .constTrue :: preds => all preds
  | .nodes conds :: preds => (all preds).map fun (rest, count) => (conds ++ rest, count + 1)

/-- The comparisons of a composite bound's leg: the parts before it equal, its
own part strictly past, the last part by the bound's operator. -/
def legPreds (op strict : KeyOp) (keys : List (StoolapField × KeyValue)) (leg : Nat) : List Pred :=
  (keys.take (leg + 1)).mapIdx fun index (f, value) =>
    compare f
      (if index < leg then .eq else if leg < keys.length - 1 then strict else op) value

/-- The legs some row can meet; nothing when every row meets one of them. -/
def collectLegs : List (List Pred) → Option (List (List Node × Nat))
  | [] => some []
  | preds :: rest =>
      match all preds with
      | none => collectLegs rest
      | some (_, 0) => none
      | some leg => (collectLegs rest).map (leg :: ·)

def KeyOp.isLower : KeyOp → Bool
  | .gt | .ge => true
  | .eq | .lt | .le => false

def legNodes (leg : List Node × Nat) : List Node :=
  if leg.2 > 1 then leg.1 ++ [.and leg.2] else leg.1

/-- A composite range bound over its parts and their values: the bound it
implies on the leading part, which an index can read, and the OR of its
legs. -/
def rangeNodes (op : KeyOp) (keys : List (StoolapField × KeyValue)) (out : List Node) :
    Bool × List Node :=
  let strict : KeyOp := if op.isLower then .gt else .lt
  match collectLegs ((List.range keys.length).map (legPreds op strict keys)) with
  | none => (true, out)
  | some [] => (false, out)
  | some legs =>
      let lead : KeyOp := if op.isLower then .ge else .le
      let out :=
        match keys.head? with
        | some (f, value) =>
            match compare f lead value with
            | .nodes conds => out ++ conds
            | .constTrue | .constFalse => out
        | none => out
      let out := out ++ legs.flatMap legNodes
      (true, if legs.length > 1 then out ++ [.or legs.length] else out)

/-- A value that cannot be bound only widens the candidates the caller
filters. -/
def leadingNodes [Stoolap] (f : StoolapField) (op : KeyOp) (src : RecordIn) : List Node :=
  let upper := op = .le
  match keyValue f src with
  | .ok (.value value) =>
      if upper then
        if f.nullMask ≠ 0 then [cond f .le value, cond f .isNull none, .or 2]
        else [cond f .le value]
      else [cond f .ge value]
  | _ => []

/-- Past this many trailing-space variants a PAD SPACE lookup bounds a range
instead. -/
def padSpaceLookups : Nat := 256

/-- `s.trim_end_matches(' ')`. -/
def trimSpaces (text : List UInt8) : List UInt8 := text.rdropWhile (· = 0x20)

/-- `s.chars().count()`: the bytes of a UTF-8 text that begin a character. -/
def charCount (text : List UInt8) : Nat := text.countP fun byte => byte &&& 0xc0 ≠ 0x80

/-- The candidates for a text in a PAD SPACE binary collation: its bytes
without the trailing spaces followed by up to `maxChars` spaces, or for a
long column the range they all sit in. -/
def padSpaceNodes (f : StoolapField) (text : List UInt8) : List Node :=
  let trimmed := trimSpaces text
  let pads := f.maxChars.toNat - charCount trimmed
  let padded (count : Nat) : Value := some (.text (trimmed ++ List.replicate count 0x20))
  if pads ≥ padSpaceLookups then [cond f .ge (padded 0), cond f .le (padded pads)]
  else
    let candidates := (List.range (pads + 1)).map fun count => cond f .eq (padded count)
    if pads > 0 then candidates ++ [.or (pads + 1)] else candidates

/-- Bit `index` of a mask of key parts. -/
def partBit (mask : UInt32) (index : Nat) : Bool := mask.toNat.testBit index

/-- The conditions of a lookup, part by part from `index` on. The parts left
out are the caller's filter's, a padded one looked up as its candidates. When
one is never true the conditions go back to `start`. -/
def lookupNodes [Stoolap] (bound : StoolapKeyBound) (src : RecordIn) (start : List Node) :
    Nat → List StoolapField → List Node → Except String (Bool × List Node)
  | _, [], out => .ok (true, out)
  | index, f :: rest, out =>
      if partBit bound.skip index then
        if partBit bound.pad index && f.kind = .varchar then
          match keyValue f src with
          | .error message => .error message
          | .ok (.value (some (.text text))) =>
              lookupNodes bound src start (index + 1) rest (out ++ padSpaceNodes f text)
          | .ok _ => lookupNodes bound src start (index + 1) rest out
        else lookupNodes bound src start (index + 1) rest out
      else
        match keyValue f src with
        | .error message => .error message
        | .ok value =>
            match compareInto f (if rest.isEmpty then bound.op else .eq) value out with
            | none => .ok (false, start)
            | some out => lookupNodes bound src start (index + 1) rest out

/-- The parts a bound binds. -/
def boundParts (parts : List StoolapField) (bound : StoolapKeyBound) : List StoolapField :=
  parts.take bound.nparts.toInt.toNat

/-- Appends the conditions `bound` means over the key `parts`; false when no
row can meet them. -/
def boundNodes [Stoolap] (parts : List StoolapField) (bound : StoolapKeyBound) (src : RecordIn)
    (out : List Node) : Except String (Bool × List Node) :=
  match boundParts parts bound with
  | [] => .ok (true, out)
  | f :: rest =>
      if bound.mode = .leading then .ok (true, out ++ leadingNodes f bound.op src)
      else if bound.mode = .range ∧ ¬ rest.isEmpty ∧ bound.op ≠ .eq then
        match (f :: rest).mapM (keyValue · src) with
        | .error message => .error message
        | .ok values => .ok (rangeNodes bound.op ((f :: rest).zip values) out)
      else lookupNodes bound src out 0 (f :: rest) out

/-- The conditions of a read within every bound, as `stoolap_read` gathers
them; nothing when no row can be within them. -/
def readConds [Stoolap] (parts : List StoolapField)
    (encode : Option (Int32 → RecordBuffer → Except EncodeError Value)) :
    List StoolapKeyBound → List Node → Except String (Option (List Node))
  | [], conds => .ok (some conds)
  | bound :: bounds, conds =>
      match boundNodes parts bound { record := bound.record, encode } conds with
      | .error message => .error message
      | .ok (false, _) => .ok none
      | .ok (true, conds) => readConds parts encode bounds conds

end StoolapMariadb.Key
