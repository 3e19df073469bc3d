import StoolapMariadb.Lib.Kleene
import StoolapMariadb.SqlGen.Modify

namespace StoolapMariadb.SqlGen

/-! What stoolap makes of the generated SQL: an AND is read left to right and
goes on past a NULL, a CASE reaches only the value it takes, a condition is a
boolean, and a boolean is no number. -/

open Kleene (Truth)

/-- Why a statement fails. An overflow names its operands. -/
inductive Fault where
  | overflow (left right : Int64)
  | notBoolean
  | other (why : String)
deriving DecidableEq

/-- The columns in reach, by qualifier and name. -/
abbrev Columns := String → String → Value

/-- What stoolap does where the generator's comments do not say: with values
that are not integers, booleans or texts, and with queries. -/
structure Engine where
  number : String → UInt64
  order : Scalar → Scalar → Option Ordering
  arithmetic : Arithmetic → Scalar → Scalar → Value
  neg : Scalar → Except Fault Value
  abs : Scalar → Except Fault Value
  cast : CastType → Scalar → Except Fault Value
  text : Scalar → List UInt8
  like : List UInt8 → List UInt8 → Bool
  query : Columns → Sql → Except Fault Value

/-- An engine to compute with: it knows nothing of other values. -/
def Engine.reference : Engine where
  number _ := 0
  order _ _ := none
  arithmetic _ _ _ := none
  neg _ := .ok none
  abs _ := .ok none
  cast _ _ := .ok none
  text _ := []
  like _ _ := false
  query _ _ := .error (.other "query")

def boolean : Truth → Value := Option.map .boolean

/-- A condition's truth: a value that is no boolean fails the statement. -/
def truth : Value → Except Fault Truth
  | none => .ok none
  | some (.boolean value) => .ok (some value)
  | some _ => .error .notBoolean

/-- A boolean compares with a boolean only. -/
def Engine.compare (stoolap : Engine) : Scalar → Scalar → Option Ordering
  | .integer left, .integer right => some (Ord.compare left right)
  | .text left, .text right => some (compareBytes left right)
  | .boolean left, .boolean right => some (Ord.compare left right)
  | .boolean _, _ | _, .boolean _ => none
  | left, right => stoolap.order left right

def Comparison.holds : Comparison → Option Ordering → Bool
  | .eq, order | .isNotDistinctFrom, order => order = some .eq
  | .ne, order | .isDistinctFrom, order => order ≠ some .eq
  | .lt, order => order = some .lt
  | .le, order => order = some .lt || order = some .eq
  | .gt, order => order = some .gt
  | .ge, order => order = some .gt || order = some .eq

def Engine.compareValues (stoolap : Engine) (op : Comparison) : Value → Value → Truth
  | some left, some right => some (op.holds (stoolap.compare left right))
  | left, right =>
      match op with
      | .isNotDistinctFrom => some (left.isNone && right.isNone)
      | .isDistinctFrom => some !(left.isNone && right.isNone)
      | _ => none

/-- An integer result, unless it is past 64 bits. -/
def checked (fault : Fault) (result : Int) : Except Fault Value :=
  if Int64.minValue.toInt ≤ result ∧ result ≤ Int64.maxValue.toInt then
    .ok (some (.integer (Int64.ofInt result)))
  else .error fault

def Engine.arithmeticValues (stoolap : Engine) (op : Arithmetic) : Value → Value → Except Fault Value
  | some (.integer left), some (.integer right) =>
      match op with
      | .add => checked (.overflow left right) (left.toInt + right.toInt)
      | .sub => checked (.overflow left right) (left.toInt - right.toInt)
      | .mul => checked (.overflow left right) (left.toInt * right.toInt)
      | .div => .ok (stoolap.arithmetic .div (.integer left) (.integer right))
  | some (.boolean _), _ | _, some (.boolean _) => .ok none
  | some left, some right => .ok (stoolap.arithmetic op left right)
  | _, _ => .ok none

def Engine.negValue (stoolap : Engine) : Value → Except Fault Value
  | some (.integer value) => checked (.other "negation") (-value.toInt)
  | some (.boolean _) | none => .ok none
  | some value => stoolap.neg value

def Engine.absValue (stoolap : Engine) : Value → Except Fault Value
  | some (.integer value) => checked (.other "ABS") value.toInt.natAbs
  | none => .ok none
  | some value => stoolap.abs value

def Engine.castValue (stoolap : Engine) (type : CastType) : Value → Except Fault Value
  | none => .ok none
  | some value =>
      match type, value with
      | .integer, .boolean value => .ok (some (.integer (if value then 1 else 0)))
      | .integer, .integer value => .ok (some (.integer value))
      | type, value => stoolap.cast type value

def Engine.textOf (stoolap : Engine) : Scalar → List UInt8
  | .text bytes => bytes
  | value => stoolap.text value

def isContinuation (byte : UInt8) : Bool := byte &&& 0xC0 = 0x80

/-- The text past its first characters. -/
def skipChars : Nat → List UInt8 → List UInt8
  | 0, bytes => bytes
  | _ + 1, [] => []
  | count + 1, _ :: bytes => skipChars count (bytes.dropWhile isContinuation)

def takeChars (count : Nat) (bytes : List UInt8) : List UInt8 :=
  bytes.take (bytes.length - (skipChars count bytes).length)

/-- The text with what is left of a match (`skip` bytes) dropped, and every
other match replaced. -/
def replaceBytes (needle replacement : List UInt8) : Nat → List UInt8 → List UInt8
  | _, [] => []
  | skip + 1, _ :: bytes => replaceBytes needle replacement skip bytes
  | 0, byte :: bytes =>
      if needle ≠ [] ∧ needle <+: byte :: bytes then
        replacement ++ replaceBytes needle replacement (needle.length - 1) bytes
      else byte :: replaceBytes needle replacement 0 bytes

def Engine.substr (stoolap : Engine) (value : Scalar) : List Value → Except Fault Value
  | [some (.integer start)] => .ok (some (.text (skipChars (start.toNatClampNeg - 1) (stoolap.textOf value))))
  | [some (.integer start), some (.integer count)] =>
      .ok (some (.text (takeChars count.toNatClampNeg
        (skipChars (start.toNatClampNeg - 1) (stoolap.textOf value)))))
  | args => if args.any Option.isNone then .ok none else .error (.other "SUBSTR")

def Engine.apply (stoolap : Engine) : Function → List Value → Except Fault Value
  | .abs, [value] => stoolap.absValue value
  | .nullif, [left, right] =>
      .ok (if stoolap.compareValues .eq left right = some true then none else left)
  | .length, [value] | .charLength, [value] =>
      .ok (value.map fun value => .integer (Int64.ofNat (numchars (stoolap.textOf value))))
  | .substr, none :: _ => .ok none
  | .substr, some value :: args => stoolap.substr value args
  | .replace, [some value, some needle, some replacement] =>
      .ok (some (.text (replaceBytes (stoolap.textOf needle) (stoolap.textOf replacement) 0 (stoolap.textOf value))))
  | .replace, [_, _, _] => .ok none
  | _, _ => .error (.other "arguments")

def Engine.concat (stoolap : Engine) : List Value → Option (List UInt8)
  | [] => some []
  | none :: _ => none
  | some value :: values => (stoolap.concat values).map fun bytes => stoolap.textOf value ++ bytes

section Eval

variable (stoolap : Engine) (columns : Columns)

mutual

def Sql.eval : Sql → Except Fault Value
  | .column qualifier name => .ok (columns qualifier name)
  | .null => .ok none
  | .integer value => .ok (some (.integer value))
  | .number text => .ok (some (.float (stoolap.number text)))
  | .text bytes => .ok (some (.text bytes))
  | .paren operand => operand.eval
  | .compare op left right => do
      let left ← left.eval
      let right ← right.eval
      return boolean (stoolap.compareValues op left right)
  | .arithmetic op left right => do
      let left ← left.eval
      let right ← right.eval
      stoolap.arithmeticValues op left right
  | .concat operands => do return (stoolap.concat (← evals operands)).map .text
  | .isNull negated operand => do
      let value ← operand.eval
      return some (.boolean (value.isNone ^^ negated))
  | .between negated value low high => do
      let value ← value.eval
      let low ← low.eval
      let high ← high.eval
      let within := Kleene.and (stoolap.compareValues .ge value low) (stoolap.compareValues .le value high)
      return boolean (if negated then Kleene.not within else within)
  | .inList negated value list => do
      let value ← value.eval
      let among := Kleene.any ((← evals list).map (stoolap.compareValues .eq value))
      return boolean (if negated then Kleene.not among else among)
  | .like negated value pattern => do
      let value ← value.eval
      let pattern ← pattern.eval
      return boolean (do return stoolap.like (stoolap.textOf (← value)) (stoolap.textOf (← pattern)) ^^ negated)
  | .not operand => do return boolean (Kleene.not (← truth (← operand.eval)))
  | .connect .and operands => boolean <$> allOf operands
  | .connect .or operands => boolean <$> anyOf operands
  | .neg operand => do stoolap.negValue (← operand.eval)
  | .caseSearched arms => arms.search
  | .caseSimple subject arms => do arms.find (← subject.eval)
  | .cast operand type => do stoolap.castValue type (← operand.eval)
  | .call .coalesce args | .call .ifnull args => firstOf args
  | .call function args => do stoolap.apply function (← evals args)
  | sql => stoolap.query columns sql

def evals : List Sql → Except Fault (List Value)
  | [] => .ok []
  | sql :: rest => do
      let value ← sql.eval
      return value :: (← evals rest)

/-- An AND: what comes after a FALSE is not evaluated. -/
def allOf : List Sql → Except Fault Truth
  | [] => .ok (some true)
  | operand :: operands => do
      let left ← truth (← operand.eval)
      if left = some false then return some false
      else return Kleene.and left (← allOf operands)

def anyOf : List Sql → Except Fault Truth
  | [] => .ok (some false)
  | operand :: operands => do
      let left ← truth (← operand.eval)
      if left = some true then return some true
      else return Kleene.or left (← anyOf operands)

def firstOf : List Sql → Except Fault Value
  | [] => .ok none
  | arg :: args => do
      match ← arg.eval with
      | none => firstOf args
      | some value => return some value

def Arms.search : Arms → Except Fault Value
  | .done => .ok none
  | .otherwise value => value.eval
  | .when test value rest => do
      if (← truth (← test.eval)) = some true then value.eval else rest.search

def Arms.find (subject : Value) : Arms → Except Fault Value
  | .done => .ok none
  | .otherwise value => value.eval
  | .when test value rest => do
      if stoolap.compareValues .eq subject (← test.eval) = some true then value.eval else rest.find subject

end

theorem eval_paren (operand : Sql) : (Sql.paren operand).eval stoolap columns = operand.eval stoolap columns := by
  rw [Sql.eval]

/-- A row of the modified table, by column. -/
abbrev TableRow := String → Value

/-- The WHERE takes the row: only TRUE does. -/
def takes (filter : Option Sql) (row : TableRow) : Except Fault Bool :=
  match filter with
  | none => .ok true
  | some filter => do return (← truth (← filter.eval stoolap fun _ => row)) = some true

def storeAll (row : TableRow) : List (String × Value) → TableRow
  | [] => row
  | (column, value) :: rest => storeAll (Function.update row column value) rest

/-- The values of a SET list, all read from the old row. -/
def setValues (row : TableRow) : List (String × Sql) → Except Fault (List (String × Value))
  | [] => .ok []
  | (column, value) :: rest => do
      let value ← value.eval stoolap fun _ => row
      return (column, value) :: (← setValues row rest)

/-- The row after an UPDATE, and whether it was written. -/
def updateRow (sets : List (String × Sql)) (filter : Option Sql) (row : TableRow) :
    Except Fault (TableRow × Bool) := do
  if ← takes stoolap filter row then return (storeAll row (← setValues stoolap row sets), true)
  else return (row, false)

/-- The table after the statement, and the count it returns. -/
def Statement.exec : Statement → List TableRow → Except Fault (List TableRow × Nat)
  | .update _ sets filter, rows => do
      let after ← rows.mapM (updateRow stoolap sets filter)
      return (after.map Prod.fst, after.countP Prod.snd)
  | .delete _ filter, rows => do
      let deleted ← rows.mapM fun row => return (row, ← takes stoolap filter row)
      return ((deleted.filter fun row => !row.2).map Prod.fst, deleted.countP Prod.snd)

end Eval

end StoolapMariadb.SqlGen
