import StoolapMariadb.SqlGen.Cls
import StoolapMariadb.SqlGen.Sql

namespace StoolapMariadb.SqlGen

/-! The generator of pushed statements: from the Item tree to stoolap SQL, or
the reason it refuses. -/

open StoolapMariadb.Types (Charset textIsUtf8)

inductive GuardError where
  | outOfRange
  | tooLong
deriving DecidableEq

/-- The SET value wrapped in a range or length check. -/
structure ModifyGuard where
  column : String
  error : GuardError
deriving DecidableEq

/-- The generator's own state: the session's byte comparison, the aliases, the
columns of derived tables, the columns a SET has assigned so far, whether the
next SELECT is an EXISTS's, and the checked SET value. -/
structure Gen where
  trustBin : Bool
  aliases : List (TableId × String)
  viewCols : List (ItemId × String × String)
  nextAlias : Nat
  assigned : List Field
  existsList : Bool
  guard : Option ModifyGuard

abbrev GenM := StateT Gen (Except String)

def fail {α : Type} (why : String) : GenM α := throw why

/-- An item with what is written for it, and the query it holds. -/
structure Child where
  item : Item
  node : GenM Sql
  query : GenM Query

structure OrderChild where
  child : Child
  descending : Bool

/-- A condition: stoolap accepts only booleans there. -/
def Child.condition (it : Child) : GenM Sql :=
  if it.item.isBoolType then it.node else fail "non-boolean condition"

/-- A value: a boolean is cast to the integer it is to MariaDB. -/
def Child.expr (it : Child) : GenM Sql :=
  if it.item.isField || !it.item.isBoolType then it.node
  else return .cast (← it.node) .integer

/-- A value of a mixed result: an integer of a DOUBLE one is cast. -/
def Child.branch (it : Child) (result : Cls) : GenM Sql :=
  if result ≠ .real || cls it.item ≠ .int then it.expr
  else return .cast (← it.expr) .float

def argsCsv : List Child → GenM (List Sql)
  | [] => return []
  | arg :: args => return (← arg.expr) :: (← argsCsv args)

def conditions : List Child → GenM (List Sql)
  | [] => return []
  | arg :: args => return (← arg.condition) :: (← conditions args)

def branchArgs (result : Cls) : List Child → GenM (List Sql)
  | [] => return []
  | arg :: args => return (← arg.branch result) :: (← branchArgs result args)

/-- The digits of a decimal from its first that is not zero. -/
def significantDigits (digits : String) : Nat :=
  ((digits.toList.filter Char.isDigit).dropWhile fun c => c = '0').length

def constant (attrs : Attrs) : Literal → GenM Sql
  | .int value =>
      if attrs.unsignedFlag && value < 0 then fail "unsigned literal" else return .integer value
  | .real finite digits =>
      if !finite then fail "non-finite literal"
      else return .number (if digits.toList.any fun c => c = '.' || c = 'e' || c = 'E' then digits else digits ++ ".0")
  | .decimal digits =>
      -- Stoolap reads it as a double, exact to 15 digits.
      if significantDigits digits > 15 then fail "decimal literal past a double"
      else return .number (if digits.toList.contains '.' then digits else digits ++ ".0")
  | .string bytes _ _ =>
      if bytes.any fun byte => byte = 0x5C || byte = 0 then fail "string escape" else return .text bytes
  | .temporal _ _ _ => fail "literal type"

def literal : Item → GenM Sql
  | .null _ => return .null
  | .const attrs value => constant attrs value
  | .ref _ _ _ (some target) => literal target
  | _ => fail "non-constant literal"

def field : Option Field → GenM Sql
  | none => fail "unbound field"
  | some f => do
      let g ← get
      if g.assigned.any fun assigned => assigned.same f then fail "SET reads a column it assigned"
      else
        match g.aliases.lookup f.table with
        | none => fail "field of unknown table"
        | some tableAlias => return .column tableAlias f.name

def binop (op : Comparison) (a b : Child) : GenM Sql :=
  return .paren (.compare op (← a.expr) (← b.expr))

def CompareOp.comparison : CompareOp → Comparison
  | .eq => .eq
  | .ne => .ne
  | .lt => .lt
  | .le => .le
  | .gt => .gt
  | .ge => .ge
  | .equal => .isNotDistinctFrom

def compare (op : Comparison) (handler : HandlerType) (collation : Option Charset) (a b : Child) :
    GenM Sql := do
  match temporalLiteral a.item b.item (some handler), temporalLiteral b.item a.item (some handler) with
  | some lit, _ => return .paren (.compare op (← a.expr) (.integer lit))
  | none, some lit => return .paren (.compare op (.integer lit) (← b.expr))
  | none, none =>
      if comparable (← get).trustBin a.item b.item collation then binop op a b else fail "comparison"

def between (negated : Bool) (collation : Option Charset) (a low high : Child) : GenM Sql := do
  match temporalLiteral a.item low.item none, temporalLiteral a.item high.item none with
  | some lo, some hi => return .paren (.between negated (← a.expr) (.integer lo) (.integer hi))
  | _, _ =>
      let trustBin := (← get).trustBin
      if comparable trustBin a.item low.item collation && comparable trustBin a.item high.item collation then
        return .paren (.between negated (← a.expr) (← low.expr) (← high.expr))
      else fail "BETWEEN"

def inValues (negated : Bool) (collation : Option Charset) (a : Child) (list : List Child) : GenM Sql := do
  let trustBin := (← get).trustBin
  if list.isEmpty || a.item.attrs.cols ≠ 1 then fail "IN"
  else if list.all fun value => comparable trustBin a.item value.item collation then
    return .paren (.inList negated (← a.expr) (← argsCsv list))
  else fail "IN value"

def like (negated : Bool) (collation : Option Charset) (escape : Char) (a pattern : Child) : GenM Sql := do
  let binary := (← get).trustBin || collation.any fun cs => cs.binsort
  if cls a.item ≠ .str || escape ≠ '\\' || !binary then fail "LIKE"
  else if !pattern.item.basicConstItem || cls pattern.item ≠ .str then fail "LIKE pattern"
  else return .paren (.like negated (← a.expr) (← literal pattern.item))

def elseArm (result : Cls) : Option Child → GenM Arms
  | none => return .done
  | some value => return .otherwise (← value.branch result)

/-- The WHENs of a CASE with their values, then the ELSE. -/
def arms (test : Child → GenM Sql) (result : Cls) (otherwise : Option Child) :
    List Child → List Child → GenM Arms
  | when :: whens, value :: values =>
      return .when (← test when) (← value.branch result) (← arms test result otherwise whens values)
  | _, _ => elseArm result otherwise

/-- Arguments: when1..whenN, then1..thenN, [else]. -/
def caseSearched (f : Item) (a : List Child) : GenM Sql := do
  let whens := a.length / 2
  if !branches f ((a.drop whens).map Child.item) then fail "CASE result types"
  else
    let otherwise := if a.length % 2 = 1 then a.getLast? else none
    return .paren (.caseSearched (← arms Child.condition (cls f) otherwise (a.take whens)
      ((a.drop whens).take whens)))

/-- Arguments: expr, when1..whenN, then1..thenN, [else]. -/
def caseSimple (f : Item) (collation : Option Charset) (subject : Child) (a : List Child) : GenM Sql := do
  let whens := a.length / 2
  let trustBin := (← get).trustBin
  if !(a.take whens).all fun when => comparable trustBin subject.item when.item collation then
    fail "CASE value types"
  else if !branches f ((a.drop whens).map Child.item) then fail "CASE result types"
  else
    let otherwise := if a.length % 2 = 1 then a.getLast? else none
    return .paren (.caseSimple (← subject.expr) (← arms Child.expr (cls f) otherwise (a.take whens)
      ((a.drop whens).take whens)))

def arithmetic (f : Item) (op : Arithmetic) (a : List Child) : GenM Sql :=
  match a with
  | [x, y] =>
      if !(cls x.item).numeric || !(cls y.item).numeric || !(cls f).numeric || (op = .div && cls f ≠ .real) then
        fail "arithmetic"
      else return .paren (.arithmetic op (← x.expr) (← y.expr))
  | _ => fail "arithmetic"

def abs (f : Item) : List Child → GenM Sql
  | [x] =>
      if !(cls x.item).numeric || !(cls f).numeric then fail "ABS"
      else return .call .abs [← x.expr]
  | _ => fail "ABS"

def coalesce (f : Item) (name : Function) (a : List Child) : GenM Sql :=
  if a.isEmpty || !branches f (a.map Child.item) then fail "COALESCE types"
  else return .call name (← branchArgs (cls f) a)

def nullif (x y : Child) : GenM Sql := do
  if !comparable (← get).trustBin x.item y.item none then fail "NULLIF"
  else return .call .nullif (← argsCsv [x, y])

def ifFunc (f : Item) : List Child → GenM Sql
  | [test, x, y] =>
      if !branches f [x.item, y.item] then fail "IF"
      else return .paren (.caseSearched (.when (← test.condition) (← x.branch (cls f))
        (.otherwise (← y.branch (cls f)))))
  | _ => fail "IF"

/-- Stoolap's LENGTH counts characters. -/
def charLength : List Child → GenM Sql
  | [x] => if cls x.item ≠ .str then fail "CHAR_LENGTH" else return .call .length [← x.expr]
  | _ => fail "CHAR_LENGTH"

/-- Stoolap's `||` is NULL for a NULL, as MariaDB's CONCAT. -/
def concat (a : List Child) : GenM Sql :=
  if a.all fun x => cls x.item = .str then return .paren (.concat (← argsCsv a))
  else fail "CONCAT argument"

def namedFunc (f : Item) (name : FuncName) (a : List Child) : GenM Sql :=
  match name with
  | .plus => arithmetic f .add a
  | .minus => arithmetic f .sub a
  | .mul => arithmetic f .mul a
  | .div => arithmetic f .div a
  | .abs => abs f a
  | .coalesce => coalesce f .coalesce a
  | .ifnull => coalesce f .ifnull a
  | .nullif =>
      -- The third argument is MariaDB's own copy of the first.
      match a with
      | [x, y] | [x, y, _] => nullif x y
      | _ => fail "NULLIF"
  | .ifFunc => ifFunc f a
  | .charLength => charLength a
  | .concat => concat a
  | .other => fail "function"

def SelectUnit.itemLists : SelectUnit → List (List Item)
  | .mk selects _ _ _ _ _ _ => selects.map fun | .mk _ _ items _ _ _ _ => items

/-- Each leg of an IN subquery gives one column, comparable with the left
operand. -/
def checkColumns (trustBin : Bool) (left : Item) : List (List Item) → GenM Unit
  | [] => return ()
  | [it] :: legs => if comparable trustBin left it none then checkColumns trustBin left legs else fail "IN subquery types"
  | _ :: _ => fail "IN subquery columns"

def inSubquery (left : Option Child) (unit : SelectUnit) (query : GenM Query) : GenM Sql := do
  match left with
  | none => fail "IN subquery left"
  | some left =>
      if left.item.attrs.cols ≠ 1 then fail "IN subquery left"
      else if unit.itemLists.isEmpty then fail "IN subquery columns"
      else
        checkColumns (← get).trustBin left.item unit.itemLists
        return .paren (.inQuery (← left.expr) (← query))

/-- The SELECT of an EXISTS needs no select list. -/
def existsSubquery (query : GenM Query) : GenM Sql := do
  modify fun g => { g with existsList := true }
  return .paren (.existsQuery (← query))

/-- IN and EXISTS wrapped by MariaDB: the left operand, and the subquery. -/
def inOptimizer (a : List Child) : GenM Sql :=
  match a with
  | [left, right] =>
      match right.item with
      | .subselect _ type _ unit =>
          match type with
          | .existsSubs => existsSubquery right.query
          | .inSubs => inSubquery (some left) unit right.query
          | .singlerowSubs | .other => fail "ANY / ALL subquery"
      | _ => fail "in_optimizer shape"
  | _ => fail "in_optimizer shape"

def subselect (type : SubsType) (left : Option Child) (unit : SelectUnit) (query : GenM Query) : GenM Sql :=
  match type with
  | .singlerowSubs => return .paren (.subquery (← query))
  | .existsSubs => existsSubquery query
  | .inSubs => inSubquery left unit query
  | .other => fail "ANY / ALL subquery"

def func (f : Item) (variant : Bool) (type : FuncType) (a : List Child) : GenM Sql :=
  if variant then fail "sql_mode function variant"
  else
    match type, a with
    | .compare op handler collation, [x, y] => compare op.comparison handler collation x y
    | .compare .equal _ _, _ => fail "<=>"
    | .compare _ _ _, _ => fail "comparison"
    | .isNull negated, [x] => return .paren (.isNull negated (← x.expr))
    | .isNull _, _ => fail "IS NULL"
    | .not, [x] => return .paren (.not (← x.condition))
    | .not, _ => fail "NOT"
    | .between negated collation, [x, low, high] => between negated collation x low high
    | .between _ _, _ => fail "BETWEEN"
    | .inList negated collation, x :: list => inValues negated collation x list
    | .inList _ _, [] => fail "IN"
    | .like negated collation escape, [x, pattern] => like negated collation escape x pattern
    | .like _ _ _, _ => fail "LIKE"
    | .inOptimizer, a => inOptimizer a
    | .neg, [x] =>
        if !(cls x.item).numeric || cls f = .unsafe_ then fail "unary minus"
        else return .paren (.neg (← x.expr))
    | .neg, _ => fail "unary minus"
    | .caseSearched, a => caseSearched f a
    | .caseSimple collation, subject :: a => caseSimple f collation subject a
    | .caseSimple _, [] => fail "CASE value types"
    | .named name, a => namedFunc f name a

def CondType.connective : CondType → GenM Connective
  | .and => return .and
  | .or => return .or
  | .other => fail "condition type"

def cond (type : CondType) (a : List Child) : GenM Sql := do
  let connective ← type.connective
  if a.isEmpty then fail "empty condition"
  else return .paren (.connect connective (← conditions a))

def sum (func : SumFunc) (a : List Child) (overWindow : Bool) : GenM Sql := do
  let trustBin := (← get).trustBin
  match func, a with
  | .count, [x] =>
      if x.item.basicConstItem && !x.item.realItem.isNull then return .countAll
      else return .aggregate .count false (← x.expr)
  | .count, _ => fail "COUNT arity"
  | .countDistinct, [x] =>
      if overWindow || !orderable trustBin x.item then fail "COUNT DISTINCT"
      else return .aggregate .count true (← x.expr)
  | .countDistinct, _ => fail "COUNT DISTINCT"
  | .sum, [x] =>
      if !(cls x.item).numeric then fail "SUM" else return .aggregate .sum false (← x.expr)
  | .sum, _ => fail "SUM"
  | .sumDistinct, [x] =>
      if !(cls x.item).numeric then fail "SUM"
      else if overWindow then fail "SUM DISTINCT window"
      else return .aggregate .sum true (← x.expr)
  | .sumDistinct, _ => fail "SUM"
  | .avg, [x] => if cls x.item ≠ .real then fail "AVG" else return .aggregate .avg false (← x.expr)
  | .avg, _ => fail "AVG"
  | .min, [x] =>
      if !orderable trustBin x.item then fail "MIN / MAX" else return .aggregate .min false (← x.expr)
  | .max, [x] =>
      if !orderable trustBin x.item then fail "MIN / MAX" else return .aggregate .max false (← x.expr)
  | .min, _ | .max, _ => fail "MIN / MAX"
  | _, _ => fail "aggregate"

def frameBound : Bound → GenM FrameBound
  | .current => return .currentRow
  | .unbounded preceding => return .unbounded preceding
  | .offset cmpType constItem value preceding =>
      if cmpType ≠ .int || !constItem || value < 0 then fail "frame offset"
      else return .offset value.toNatClampNeg preceding

/-- GROUP BY and PARTITION BY lists, and with `directions` ORDER BY. -/
def orderList (directions : Bool) : List OrderChild → GenM (List Key)
  | [] => return []
  | key :: keys => do
      if !orderable (← get).trustBin key.child.item then fail "ORDER / GROUP type"
      else
        let value ← key.child.expr
        return .mk value (if directions then some key.descending else none) :: (← orderList directions keys)

def windowFunction (func : SumFunc) (a : List Child) (frame : Option Frame) : GenM (Bool × Sql) := do
  match func with
  | .rowNumber => return (true, .windowCall .rowNumber [])
  | .rank => return (true, .windowCall .rank [])
  | .denseRank => return (true, .windowCall .denseRank [])
  | .lag | .lead =>
      if a.length < 1 || a.length > 3 then fail "LAG / LEAD arity"
      else return (true, .windowCall (if func = .lag then .lag else .lead) (← argsCsv a))
  | _ =>
      -- The default frames' handling of ties is not stoolap's.
      if frame.isNone then fail "window default frame" else return (false, ← sum func a true)

def window (func : SumFunc) (a : List Child) (partition order : List OrderChild) (frame : Option Frame) :
    GenM Sql := do
  let (ranking, function) ← windowFunction func a frame
  let partition ← orderList false partition
  let order ← orderList true order
  match ranking, frame with
  | false, some frame =>
      if !frame.rows || frame.exclusion then fail "window frame"
      else return .windowed function partition order (some (← frameBound frame.top, ← frameBound frame.bottom))
  | _, _ => return .windowed function partition order none

end StoolapMariadb.SqlGen
