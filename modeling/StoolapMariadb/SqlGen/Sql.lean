import Mathlib.Data.List.Basic

namespace StoolapMariadb.SqlGen

/-! The stoolap SQL the generator writes, as it is written: parentheses are
part of it. -/

inductive Comparison where
  | eq | ne | lt | le | gt | ge | isNotDistinctFrom | isDistinctFrom
deriving DecidableEq

inductive Arithmetic where
  | add | sub | mul | div
deriving DecidableEq

inductive Connective where
  | and | or
deriving DecidableEq

inductive CastType where
  | integer | float
deriving DecidableEq

inductive Function where
  | abs | coalesce | ifnull | nullif | length | charLength | substr | replace
deriving DecidableEq

inductive Aggregate where
  | count | sum | avg | min | max
deriving DecidableEq

inductive WindowFunction where
  | rowNumber | rank | denseRank | lag | lead
deriving DecidableEq

inductive FrameBound where
  | currentRow
  | unbounded (preceding : Bool)
  | offset (rows : Nat) (preceding : Bool)
deriving DecidableEq

inductive JoinKind where
  | cross | inner | left
deriving DecidableEq

inductive SetOp where
  | union | intersect | except
deriving DecidableEq

structure Limit where
  rows : Nat
  offset : Option Nat
deriving DecidableEq

mutual

inductive Sql where
  | column (qualifier name : String)
  | null
  | integer (value : Int64)
  | number (text : String)
  | text (bytes : List UInt8)
  | paren (operand : Sql)
  | compare (op : Comparison) (left right : Sql)
  | arithmetic (op : Arithmetic) (left right : Sql)
  | concat (operands : List Sql)
  | isNull (negated : Bool) (operand : Sql)
  | between (negated : Bool) (value low high : Sql)
  | inList (negated : Bool) (value : Sql) (list : List Sql)
  | like (negated : Bool) (value pattern : Sql)
  | not (operand : Sql)
  | connect (connective : Connective) (operands : List Sql)
  | neg (operand : Sql)
  | caseSearched (arms : Arms)
  | caseSimple (subject : Sql) (arms : Arms)
  | cast (operand : Sql) (type : CastType)
  | call (function : Function) (args : List Sql)
  | countAll
  | aggregate (aggregate : Aggregate) (distinct : Bool) (arg : Sql)
  | windowCall (function : WindowFunction) (args : List Sql)
  | windowed (function : Sql) (partition order : List Key) (frame : Option (FrameBound × FrameBound))
  | subquery (query : Query)
  | existsQuery (query : Query)
  | inQuery (value : Sql) (query : Query)

/-- The WHENs of a CASE, and its ELSE if it has one. -/
inductive Arms where
  | done
  | otherwise (value : Sql)
  | when (test value : Sql) (rest : Arms)

/-- A key of ORDER BY, GROUP BY or PARTITION BY; a direction also places the
NULLs. -/
inductive Key where
  | mk (value : Sql) (descending : Option Bool)

/-- An output column: its value, and the name it is given. -/
inductive Output where
  | mk (value : Sql) (name : Option String)

/-- A query expression: a SELECT (`none` is the list `1` of an EXISTS), or
its legs with the order of the whole. -/
inductive Query where
  | select (distinct : Bool) (list : Option (List Output)) (source : List Joined) (filters : List Sql)
      (groupBy : List Key) (having : Option Sql) (orderBy : List Key) (limit : Option Limit)
  | legs (first : Query) (rest : List Leg) (orderBy : List (String × Bool)) (limit : Option Limit)

inductive Leg where
  | mk (op : SetOp) (all : Bool) (query : Query)

inductive Source where
  | table (name tableAlias : String)
  | derived (query : Query) (tableAlias : String)

/-- A table of the FROM: how it is joined to those before it, and the parts of
its ON. -/
inductive Joined where
  | mk (join : Option JoinKind) (source : Source) (on : List Sql)

end

def Output.value : Output → Sql
  | .mk value _ => value

end StoolapMariadb.SqlGen
