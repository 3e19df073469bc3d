import StoolapMariadb.SqlGen.Item

namespace StoolapMariadb.SqlGen

/-! What a value is to stoolap, and whether an operation on it means the same
on both sides. -/

open StoolapMariadb.Types (RealType Charset textIsUtf8 fieldEnc)

/-- DATE counts as `datetime`; a TIMESTAMP is `tstamp`. -/
inductive Cls where
  | int | real | str | datetime | time | tstamp | unsafe_
deriving DecidableEq

def Cls.temporal : Cls → Bool
  | .datetime | .time | .tstamp => true
  | _ => false

def Cls.numeric : Cls → Bool
  | .int | .real => true
  | _ => false

/-- The class of a field. Strings that are stored as hex compare otherwise. -/
def Field.cls (f : Field) : Cls :=
  match f.realType with
  | .tiny | .short | .int24 | .long | .year => .int
  | .longlong => if f.isUnsigned then .unsafe_ else .int
  | .float | .double => .real
  | .varchar | .varString | .string | .tinyBlob | .blob | .mediumBlob | .longBlob =>
      match f.charset with
      | none => .unsafe_
      | some cs => if fieldEnc f.toField ≠ .plain || cs.isBinary then .unsafe_ else .str
  | .date | .newDate | .datetime | .datetime2 => .datetime
  | .time | .time2 => .time
  | .timestamp | .timestamp2 => .tstamp
  | _ => .unsafe_

/-- The class `cmp_type()` gives. -/
def Item.cmpCls (it : Item) : Cls :=
  match it.cmpType with
  | .int => if it.attrs.unsignedFlag then .unsafe_ else .int
  | .real => .real
  | .decimal => if it.basicConstItem then .real else .unsafe_
  | .string => if textIsUtf8 it.attrs.collation then .str else .unsafe_
  | .row | .time => .unsafe_

/-- The class the item behind references decides: a field's, or the SUM of
integers, which is a DECIMAL to MariaDB. -/
def Item.realCls : Item → Option Cls
  | .ref _ _ _ (some target) => target.realCls
  | .field _ none => some .unsafe_
  | .field _ (some f) => some f.cls
  | .sum _ .sum [arg] | .sum _ .sumDistinct [arg] =>
      if arg.realCls.getD arg.cmpCls = .int then some .int else none
  | _ => none

def cls (it : Item) : Cls := it.realCls.getD it.cmpCls

/-- Stoolap compares bytes: only a binary NO PAD collation agrees. -/
def csSafe (trustBin : Bool) (cs : Option Charset) : Bool :=
  textIsUtf8 cs && (trustBin || cs.any fun cs => cs.binsort && cs.nopad)

def strCmpSafe (trustBin : Bool) (it : Item) : Bool := csSafe trustBin it.attrs.collation

/-- `cmpCs` is the collation MariaDB settled on, when the caller knows it. -/
def comparable (trustBin : Bool) (a b : Item) (cmpCs : Option Charset) : Bool :=
  if a.isNull || b.isNull then true
  else if (cls a).numeric && (cls b).numeric then true
  else if cls a = .str && cls b = .str then
    match cmpCs with
    | some cs => csSafe trustBin (some cs)
    | none => strCmpSafe trustBin a && strCmpSafe trustBin b
  else cls a = cls b && (cls a).temporal

def orderable (trustBin : Bool) (it : Item) : Bool :=
  (cls it).numeric || (cls it).temporal || (cls it = .str && strCmpSafe trustBin it)

/-- Values that mix into one result are all numbers or all strings; a NULL fits
either. -/
def sameFamily (args : List Item) : Bool :=
  let kinds := (args.filter fun it => !it.isNull).map cls
  kinds.all (fun kind => kind.numeric || kind = .str) &&
    !(kinds.any Cls.numeric && kinds.any fun kind => kind = .str)

def branches (f : Item) (args : List Item) : Bool := sameFamily args && cls f ≠ .unsafe_

/-- `temporal_literal`: the packed value of a constant compared with a DATE,
DATETIME or TIME column as `handler` says, or as the column for BETWEEN. -/
def temporalLiteral (col k : Item) (handler : Option HandlerType) : Option Int64 :=
  let isTime : Bool := cls col = .time
  if cls col ≠ .datetime && cls col ≠ .time then none
  else
    let wanted :=
      match handler with
      | none => some isTime
      | some .datetime => some false
      | some .time => some true
      | some .other => none
    if wanted ≠ some isTime then none
    else
      match k with
      | .const _ (.temporal time packed zeroPart) =>
          if time == isTime && !(zeroPart && !isTime) then packed else none
      | .const _ (.string _ datetime time) => if isTime then time else datetime
      | _ => none

end StoolapMariadb.SqlGen
