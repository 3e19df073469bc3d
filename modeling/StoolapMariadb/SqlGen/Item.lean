import StoolapMariadb.Types

namespace StoolapMariadb.SqlGen

/-! MariaDB's prepared Item tree, as far as the generator reads it. What
`fix_fields` found out about an item is data of the item. -/

open StoolapMariadb.Types (RealType Charset)

/-- A `TABLE_LIST`, told by its place in the statement. -/
abbrev TableId := Nat

/-- An item that references may point at. -/
abbrev ItemId := Nat

/-- A field of an opened table, told by its table and name. -/
structure Field extends Types.Field where
  table : TableId
  name : String
  isUnsigned : Bool
  notNull : Bool
  decimals : Nat
  charLength : Nat
  fieldLength : Nat
deriving DecidableEq

/-- Names of a table's fields differ. -/
def Field.same (left right : Field) : Bool := left.table = right.table && left.name = right.name

/-- `Item_result`, the type MariaDB compares a value by. -/
inductive CmpType where
  | string | real | int | row | decimal | time
deriving DecidableEq

/-- What `fix_fields` found out about an item. -/
structure Attrs where
  cmpType : CmpType
  unsignedFlag : Bool
  collation : Option Charset
  boolType : Bool
  basicConst : Bool
  constItem : Bool
  maybeNull : Bool
  maxLength : Nat
  cols : Nat

/-- A constant's value. A real is written out in 17 digits, a decimal in full;
a string comes with the DATETIME and the TIME it parses to without a warning,
packed. -/
inductive Literal where
  | int (value : Int64)
  | real (finite : Bool) (digits : String)
  | decimal (digits : String)
  | string (bytes : List UInt8) (datetime time : Option Int64)
  | temporal (isTime : Bool) (packed : Option Int64) (zeroPart : Bool)

inductive RefType where
  | ref | directRef | viewRef | outerRef | aggregateRef | other
deriving DecidableEq

/-- The kind of value a comparison's handler compares. -/
inductive HandlerType where
  | datetime | time | other
deriving DecidableEq

inductive CompareOp where
  | eq | ne | lt | le | gt | ge | equal
deriving DecidableEq

inductive FuncName where
  | plus | minus | mul | div | abs | coalesce | ifnull | nullif | ifFunc | charLength | concat | other
deriving DecidableEq

/-- `functype()` with what the function keeps besides its arguments. -/
inductive FuncType where
  | compare (op : CompareOp) (handler : HandlerType) (collation : Option Charset)
  | isNull (negated : Bool)
  | not
  | between (negated : Bool) (collation : Option Charset)
  | inList (negated : Bool) (collation : Option Charset)
  | like (negated : Bool) (collation : Option Charset) (escape : Char)
  | inOptimizer
  | neg
  | caseSearched
  | caseSimple (collation : Option Charset)
  | named (name : FuncName)

inductive CondType where
  | and | or | other
deriving DecidableEq

inductive SumFunc where
  | count | countDistinct | sum | sumDistinct | avg | min | max
  | rowNumber | rank | denseRank | lag | lead | other
deriving DecidableEq

inductive SubsType where
  | singlerowSubs | existsSubs | inSubs | other
deriving DecidableEq

inductive Bound where
  | current
  | unbounded (preceding : Bool)
  | offset (cmpType : CmpType) (constItem : Bool) (value : Int64) (preceding : Bool)

structure Frame where
  rows : Bool
  exclusion : Bool
  top : Bound
  bottom : Bound

structure LimitValue where
  constItem : Bool
  isNull : Bool
  value : Nat

/-- `limit_params` of a SELECT, `none` without an explicit limit. -/
structure LimitParams where
  selectLimit : Option LimitValue
  offsetLimit : Option LimitValue

inductive Linkage where
  | union | intersect | except | other
deriving DecidableEq

/-- The flags of a `SELECT_LEX`. `linkage` and `distinctLeg` say how a leg of a
set operation joins those before it. -/
structure SelectFlags where
  olap : Bool
  tvc : Bool
  withTies : Bool
  foundRows : Bool
  distinct : Bool
  withSumFunc : Bool
  mergeable : Bool
  haveWindowFuncs : Bool
  uncacheableRand : Bool
  linkage : Linkage
  distinctLeg : Bool
  limit : Option LimitParams

/-- A column of a derived table: the item that references to it point at. -/
structure DerivedColumn where
  item : Option ItemId
  name : String

mutual

inductive Item where
  | field (attrs : Attrs) (field : Option Field)
  | ref (attrs : Attrs) (type : RefType) (id : ItemId) (target : Option Item)
  | const (attrs : Attrs) (literal : Literal)
  | null (attrs : Attrs)
  | param (attrs : Attrs)
  | func (attrs : Attrs) (variant : Bool) (type : FuncType) (args : List Item)
  | cond (attrs : Attrs) (type : CondType) (args : List Item)
  | sum (attrs : Attrs) (func : SumFunc) (args : List Item)
  | window (attrs : Attrs) (func : SumFunc) (args : List Item) (partition order : List Order)
      (frame : Option Frame)
  | subselect (attrs : Attrs) (type : SubsType) (left : Option Item) (unit : SelectUnit)
  | other (attrs : Attrs)

inductive Order where
  | mk (item : Item) (descending : Bool)

/-- A SELECT. `topJoinList` is in MariaDB's reverse order. -/
inductive Select where
  | mk (flags : SelectFlags) (topJoinList : List TableList) (items : List Item) (filter : Option Item)
      (groupList : List Order) (having : Option Item) (orderList : List Order)

/-- A query expression. The ORDER BY of several legs is of columns of its
result table, which has `fields` of them. -/
inductive SelectUnit where
  | mk (selects : List Select) (recursive : Bool) (types : List Item) (fields : Nat)
      (order : List LegsOrder) (withTies : Bool) (limit : Option LimitParams)

inductive LegsOrder where
  | mk (item : Item) (fieldIndex : Option Nat) (descending : Bool)

/-- A `TABLE_LIST`: what it is, its ON, and whether it is the inner side of an
outer join or a semi-join nest. -/
inductive TableList where
  | mk (kind : TableKind) (on : Option Item) (outer semiJoin : Bool)

/-- A base table, a derived one with the columns its queries see (whether the
nest it is in is an outer join's inner side), a nest, or a table not opened. -/
inductive TableKind where
  | base (id : TableId) (name : String)
  | derived (id : TableId) (unit : SelectUnit) (columns : Option (List DerivedColumn)) (embeddedOuter : Bool)
  | nested (joinList : List TableList)
  | unopened

end

def TableKind.isNested : TableKind → Bool
  | .nested _ => true
  | _ => false

def Literal.cmpType : Literal → CmpType
  | .int _ => .int
  | .real _ _ => .real
  | .decimal _ => .decimal
  | .string _ _ _ => .string
  | .temporal _ _ _ => .time

namespace Item

def attrs : Item → Attrs
  | .field attrs _ | .ref attrs _ _ _ | .const attrs _ | .null attrs | .param attrs
  | .func attrs _ _ _ | .cond attrs _ _ | .sum attrs _ _ | .window attrs _ _ _ _ _
  | .subselect attrs _ _ _ | .other attrs => attrs

def cmpType : Item → CmpType
  | .const _ literal => literal.cmpType
  | it => it.attrs.cmpType

def basicConstItem : Item → Bool
  | .const _ _ | .null _ => true
  | it => it.attrs.basicConst

def constItem : Item → Bool
  | .const _ _ | .null _ => true
  | it => it.attrs.constItem

def isField : Item → Bool
  | .field _ _ => true
  | _ => false

def isNull : Item → Bool
  | .null _ => true
  | _ => false

def realItem : Item → Item
  | .ref _ _ _ (some target) => target.realItem
  | it => it

/-- A comparison or a test: MariaDB's `Item_bool_func` and its like. -/
def isPredicate : Item → Bool
  | .func _ _ type _ =>
      match type with
      | .compare _ _ _ | .isNull _ | .not | .between _ _ | .inList _ _ | .like _ _ _ | .inOptimizer => true
      | .neg | .caseSearched | .caseSimple _ | .named _ => false
  | .cond _ _ _ => true
  | .subselect _ type _ _ =>
      match type with
      | .existsSubs | .inSubs => true
      | .singlerowSubs | .other => false
  | _ => false

/-- `type_handler()->is_bool_type()`. A reference has its target's type. -/
def isBoolType : Item → Bool
  | .ref _ _ _ (some target) => target.isBoolType
  | it => it.isPredicate || it.attrs.boolType

end Item

end StoolapMariadb.SqlGen
