import StoolapMariadb.Value
import StoolapMariadb.Lib.Kleene

namespace StoolapMariadb.Read

open Kleene

/-! A read's conditions: comparisons in postfix order, built into one
expression that stoolap evaluates on each row. -/

inductive CondOp where
  | eq
  | gt
  | ge
  | lt
  | le
  | isNull
  | isNotNull
deriving DecidableEq

/-- `column op value`; the value is unused for the NULL tests. -/
structure Cond where
  column : Nat
  op : CondOp
  value : Value
deriving DecidableEq

/-- `And` and `Or` join that many nodes before them. What is left at the end
is ANDed. -/
inductive Node where
  | cond (cond : Cond)
  | and (count : Nat)
  | or (count : Nat)
deriving DecidableEq

inductive Operator where
  | eq
  | gt
  | gte
  | lt
  | lte
deriving DecidableEq

def Operator.holds : Operator → Ordering → Bool
  | .eq, order => order == .eq
  | .gt, order => order == .gt
  | .gte, order => order != .lt
  | .lt, order => order == .lt
  | .lte, order => order != .gt

/-- Stoolap's condition trees, over columns by position. -/
inductive Expression where
  | comparison (column : Nat) (op : Operator) (value : Value)
  | isNull (column : Nat)
  | isNotNull (column : Nat)
  | and (operands : List Expression)
  | or (operands : List Expression)

/-- A comparison with NULL is unknown. -/
def compareValue [Stoolap] (op : Operator) : Value → Value → Truth
  | some left, some right => some (op.holds (Stoolap.compare left right))
  | _, _ => none

mutual

def Expression.eval [Stoolap] (row : Row) : Expression → Truth
  | .comparison column op value => compareValue op (row.value column) value
  | .isNull column => some (row.value column).isNone
  | .isNotNull column => some (row.value column).isSome
  | .and operands => all (Expression.evalEach row operands)
  | .or operands => any (Expression.evalEach row operands)

def Expression.evalEach [Stoolap] (row : Row) : List Expression → List Truth
  | [] => []
  | operand :: rest => operand.eval row :: Expression.evalEach row rest

end

/-- The one expression a condition stands for, its value cast into the
column's type as a bound parameter's would be. -/
def condExpression [Stoolap] (schema : Schema) (tableName : String) (cond : Cond) :
    Except String Expression :=
  match schema.columns[cond.column]? with
  | none => .error s!"no column {cond.column} in {tableName}"
  | some col =>
      let compared (op : Operator) : Expression :=
        .comparison cond.column op (Stoolap.coerce col.dataType cond.value)
      match cond.op with
      | .isNull => .ok (.isNull cond.column)
      | .isNotNull => .ok (.isNotNull cond.column)
      | .eq => .ok (compared .eq)
      | .gt => .ok (compared .gt)
      | .ge => .ok (compared .gte)
      | .lt => .ok (compared .lt)
      | .le => .ok (compared .lte)

/-- Takes the last `count` expressions off the stack and puts their join
there. -/
def joinOperands (join : List Expression → Expression) (count : Nat) (exprs : List Expression) :
    Except String (List Expression) :=
  if count = 0 ∨ count > exprs.length then .error "condition joins missing operands"
  else
    .ok (exprs.take (exprs.length - count) ++ [join (exprs.drop (exprs.length - count))])

/-- `Cursor::open`'s postfix evaluation of one node over the expressions
before it, the last one on top. -/
def buildNode [Stoolap] (schema : Schema) (tableName : String) (node : Node)
    (exprs : List Expression) : Except String (List Expression) :=
  match node with
  | .cond cond => (condExpression schema tableName cond).map fun expr => exprs ++ [expr]
  | .and count => joinOperands .and count exprs
  | .or count => joinOperands .or count exprs

def buildExpressions [Stoolap] (schema : Schema) (tableName : String) :
    List Node → List Expression → Except String (List Expression)
  | [], exprs => .ok exprs
  | node :: nodes, exprs =>
      match buildNode schema tableName node exprs with
      | .error message => .error message
      | .ok exprs => buildExpressions schema tableName nodes exprs

/-- The read's filter: nothing, the one expression left, or the AND of
them. -/
def filterOf : List Expression → Option Expression
  | [] => none
  | [expr] => some expr
  | exprs => some (.and exprs)

theorem joinOperands_append {join : List Expression → Expression} {operands : List Expression}
    (some' : operands ≠ []) (stack : List Expression) :
    joinOperands join operands.length (stack ++ operands) = .ok (stack ++ [join operands]) := by
  have present : ¬ (operands.length = 0 ∨ operands.length > (stack ++ operands).length) := by
    simp [some']
  rw [joinOperands, if_neg present]
  simp only [List.length_append, Nat.add_sub_cancel_right, List.take_left', List.drop_left']

variable [Stoolap] {schema : Schema} {tableName : String} {row : Row}

theorem Expression.evalEach_eq_map (operands : List Expression) :
    Expression.evalEach row operands = operands.map (Expression.eval row) := by
  induction operands with
  | nil => rfl
  | cons operand rest ih => simp only [Expression.evalEach, List.map_cons, ih]

/-- Every one of the expressions takes the row. -/
def Holds (row : Row) (exprs : List Expression) : Prop :=
  ∀ expr ∈ exprs, expr.eval row = some true

@[simp] theorem holds_nil : Holds row [] := by simp [Holds]

@[simp] theorem holds_append (first second : List Expression) :
    Holds row (first ++ second) ↔ Holds row first ∧ Holds row second := by
  simp only [Holds, List.mem_append, or_imp, forall_and]

@[simp] theorem holds_singleton (expr : Expression) :
    Holds row [expr] ↔ expr.eval row = some true := by
  simp [Holds]

theorem Expression.eval_and (operands : List Expression) :
    (Expression.and operands).eval row = some true ↔ Holds row operands := by
  rw [Expression.eval, Expression.evalEach_eq_map, all_eq_true, List.forall_mem_map]
  rfl

theorem Expression.eval_or (operands : List Expression) :
    (Expression.or operands).eval row = some true ↔
      ∃ operand ∈ operands, operand.eval row = some true := by
  rw [Expression.eval, Expression.evalEach_eq_map, any_eq_true]
  simp only [List.mem_map, exists_exists_and_eq_and]

/-- The filter takes a row exactly when every expression does; no filter
takes every row. -/
theorem filterOf_takes (exprs : List Expression) :
    (∀ filter, filterOf exprs = some filter → filter.eval row = some true) ↔ Holds row exprs := by
  match exprs with
  | [] => simp [filterOf]
  | [expr] => simp [filterOf]
  | first :: second :: rest =>
      simp only [filterOf, Option.some.injEq, forall_eq', Expression.eval_and]

/-- Nodes that leave `exprs` on top of whatever was there: no join in them
reaches below what they pushed themselves. -/
def Standalone (schema : Schema) (tableName : String) (nodes : List Node) (exprs : List Expression) :
    Prop :=
  ∀ stack rest, buildExpressions schema tableName (nodes ++ rest) stack =
    buildExpressions schema tableName rest (stack ++ exprs)

theorem Standalone.nil : Standalone schema tableName [] [] := by
  intro stack rest
  simp

theorem Standalone.append {first second : List Node} {left right : List Expression}
    (one : Standalone schema tableName first left) (two : Standalone schema tableName second right) :
    Standalone schema tableName (first ++ second) (left ++ right) := by
  intro stack rest
  rw [List.append_assoc, one, two, List.append_assoc]

theorem Standalone.cond {cond : Cond} {expr : Expression}
    (built : condExpression schema tableName cond = .ok expr) :
    Standalone schema tableName [.cond cond] [expr] := by
  intro stack rest
  simp only [List.cons_append, List.nil_append, buildExpressions, buildNode, built, Except.map]

/-- A join of all that the nodes before it left makes one expression. -/
theorem Standalone.join_and {nodes : List Node} {exprs : List Expression}
    (standalone : Standalone schema tableName nodes exprs) (some' : exprs ≠ []) :
    Standalone schema tableName (nodes ++ [.and exprs.length]) [.and exprs] := by
  intro stack rest
  rw [List.append_assoc, standalone]
  simp only [List.cons_append, List.nil_append, buildExpressions, buildNode, joinOperands_append some']

theorem Standalone.join_or {nodes : List Node} {exprs : List Expression}
    (standalone : Standalone schema tableName nodes exprs) (some' : exprs ≠ []) :
    Standalone schema tableName (nodes ++ [.or exprs.length]) [.or exprs] := by
  intro stack rest
  rw [List.append_assoc, standalone]
  simp only [List.cons_append, List.nil_append, buildExpressions, buildNode, joinOperands_append some']

theorem Standalone.builds {nodes : List Node} {exprs : List Expression}
    (standalone : Standalone schema tableName nodes exprs) :
    buildExpressions schema tableName nodes [] = .ok exprs := by
  simpa [buildExpressions] using standalone [] []

end StoolapMariadb.Read
