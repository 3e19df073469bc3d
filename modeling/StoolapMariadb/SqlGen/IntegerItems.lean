import StoolapMariadb.Lib.Kleene
import StoolapMariadb.SqlGen.Typing

namespace StoolapMariadb.SqlGen

/-! Expressions over signed integer columns and what MariaDB makes of them: a
comparison or a test is 1, 0 or NULL, and any value but 0 is true. -/

open Kleene (Truth)

/-- An operation's result does not fit 64 bits. -/
inductive Overflow where
  | overflow
deriving DecidableEq

/-- What evaluating an integer expression gives. -/
abbrev Outcome := Except Overflow (Option Int64)

def ofTruth (t : Truth) : Option Int64 := t.map fun holds => if holds then 1 else 0

def toTruth (v : Option Int64) : Truth := v.map fun n => decide (n ≠ 0)

def CompareOp.holds : CompareOp → Int64 → Int64 → Bool
  | .eq, left, right | .equal, left, right => left = right
  | .ne, left, right => left ≠ right
  | .lt, left, right => left < right
  | .le, left, right => left ≤ right
  | .gt, left, right => right < left
  | .ge, left, right => right ≤ left

/-- `<=>` compares NULLs too. -/
def CompareOp.truth : CompareOp → Option Int64 → Option Int64 → Truth
  | .equal, left, right => some (left = right)
  | op, some left, some right => some (op.holds left right)
  | _, _, _ => none

def inRange (result : Int) : Outcome :=
  if Int64.minValue.toInt ≤ result ∧ result ≤ Int64.maxValue.toInt then .ok (some (Int64.ofInt result))
  else .error .overflow

def operate (op : Int → Int → Int) : Option Int64 → Option Int64 → Outcome
  | some left, some right => inRange (op left.toInt right.toInt)
  | _, _ => .ok none

def operateOne (op : Int → Int) : Option Int64 → Outcome
  | some value => inRange (op value.toInt)
  | none => .ok none

/-- An AND stops at a FALSE. -/
def allTrue : List Outcome → Except Overflow Truth
  | [] => .ok (some true)
  | operand :: operands => do
      let left := toTruth (← operand)
      if left = some false then return some false
      else return Kleene.and left (← allTrue operands)

/-- An OR stops at a TRUE. -/
def anyTrue : List Outcome → Except Overflow Truth
  | [] => .ok (some false)
  | operand :: operands => do
      let left := toTruth (← operand)
      if left = some true then return some true
      else return Kleene.or left (← anyTrue operands)

def firstValue : List Outcome → Outcome
  | [] => .ok none
  | arg :: args => do
      match ← arg with
      | none => firstValue args
      | some value => return some value

def allValues : List Outcome → Except Overflow (List (Option Int64))
  | [] => .ok []
  | arg :: args => do
      let value ← arg
      return value :: (← allValues args)

/-- The value of the first WHEN that is true. -/
def searchValue (otherwise : Option Outcome) : List Outcome → List Outcome → Outcome
  | test :: tests, value :: values => do
      if toTruth (← test) = some true then value else searchValue otherwise tests values
  | _, _ => otherwise.getD (.ok none)

/-- The value of the first WHEN that the subject is equal to. -/
def findValue (subject : Option Int64) (otherwise : Option Outcome) : List Outcome → List Outcome → Outcome
  | test :: tests, value :: values => do
      if CompareOp.eq.truth subject (← test) = some true then value else findValue subject otherwise tests values
  | _, _ => otherwise.getD (.ok none)

def negateIf (negated : Bool) (t : Truth) : Truth := if negated then Kleene.not t else t

/-- `NAME(args)` of the arguments' values. NULLIF's third argument is its own
copy of the first. -/
def FuncName.evaluate : FuncName → List Outcome → Outcome
  | .plus, [a, b] => do operate (· + ·) (← a) (← b)
  | .minus, [a, b] => do operate (· - ·) (← a) (← b)
  | .mul, [a, b] => do operate (· * ·) (← a) (← b)
  | .abs, [a] => do operateOne (fun value => value.natAbs) (← a)
  | .coalesce, args | .ifnull, args => firstValue args
  | .nullif, a :: b :: _ => do
      let left ← a
      let right ← b
      return if CompareOp.eq.truth left right = some true then none else left
  | .ifFunc, [test, x, y] => do if toTruth (← test) = some true then x else y
  | _, _ => .ok none

def FuncType.evaluate : FuncType → List Outcome → Outcome
  | .compare op _ _, [a, b] => do
      let left ← a
      let right ← b
      return ofTruth (op.truth left right)
  | .isNull negated, [a] => do return ofTruth (some ((← a).isNone ^^ negated))
  | .not, [a] => do return ofTruth (Kleene.not (toTruth (← a)))
  | .between negated _, [a, low, high] => do
      let value ← a
      let low ← low
      let high ← high
      return ofTruth (negateIf negated (Kleene.and (CompareOp.ge.truth value low) (CompareOp.le.truth value high)))
  | .inList negated _, a :: list => do
      let value ← a
      let values ← allValues list
      return ofTruth (negateIf negated (Kleene.any (values.map (CompareOp.eq.truth value))))
  | .neg, [a] => do operateOne (fun value => -value) (← a)
  | .caseSearched, args =>
      searchValue (if args.length % 2 = 1 then args.getLast? else none) (args.take (args.length / 2))
        ((args.drop (args.length / 2)).take (args.length / 2))
  | .caseSimple _, subject :: args => do
      findValue (← subject) (if args.length % 2 = 1 then args.getLast? else none) (args.take (args.length / 2))
        ((args.drop (args.length / 2)).take (args.length / 2))
  | .named name, args => name.evaluate args
  | _, _ => .ok none

def CondType.evaluate (type : CondType) (args : List Outcome) : Outcome :=
  ofTruth <$> if type = .and then allTrue args else anyTrue args

section Value

variable (row : Field → Option Int64)

mutual

/-- MariaDB's value of an integer expression on a row. -/
def Item.value : Item → Outcome
  | .field _ (some f) => .ok (row f)
  | .const _ (.int n) => .ok (some n)
  | .func _ _ type args => type.evaluate (outcomes args)
  | .cond _ type args => type.evaluate (outcomes args)
  | _ => .ok none

def outcomes : List Item → List Outcome
  | [] => []
  | it :: items => it.value :: outcomes items

end

theorem outcomes_eq (items : List Item) : outcomes row items = items.map (Item.value row) := by
  induction items with
  | nil => rfl
  | cons it items ih => rw [outcomes, ih, List.map_cons]

end Value

/-- A signed integer column. -/
def Field.isInteger (f : Field) : Bool :=
  match f.realType with
  | .tiny | .short | .int24 | .long | .longlong => !f.isUnsigned
  | _ => false

def FuncName.overIntegers : FuncName → Bool
  | .plus | .minus | .mul | .abs | .coalesce | .ifnull | .nullif | .ifFunc => true
  | .div | .charLength | .concat | .other => false

def FuncType.overIntegers : FuncType → Bool
  | .compare _ _ _ | .isNull _ | .not | .between _ _ | .inList _ _ | .neg | .caseSearched | .caseSimple _ => true
  | .named name => name.overIntegers
  | .like _ _ _ | .inOptimizer => false

mutual

/-- An expression over signed integer columns, as MariaDB prepares it: a
literal is unsigned only past 2^63 - 1, no function is a DOUBLE, and NULLIF's
third argument is its own copy of the first. -/
def Item.Integer : Item → Prop
  | .field _ (some f) => f.isInteger = true
  | .const attrs (.int value) => attrs.unsignedFlag = true → value < 0
  | .null _ => True
  | .func attrs variant type args =>
      type.overIntegers = true ∧ cls (.func attrs variant type args) ≠ .real ∧
        (type = .named .nullif → ∀ x y z, args = [x, y, z] → z = x) ∧ itemsInteger args
  | .cond _ _ args => itemsInteger args
  | _ => False

def itemsInteger : List Item → Prop
  | [] => True
  | it :: items => it.Integer ∧ itemsInteger items

end

/-- An argument on a row: whether it is a comparison or a test, its value, and
whether stoolap evaluates it without meeting a condition that is none. -/
structure Argument where
  test : Bool
  value : Outcome
  sound : Bool

def Outcome.isNull : Outcome → Bool
  | .ok none => true
  | _ => false

def Outcome.isTruth (holds : Bool) : Outcome → Bool
  | .ok v => toTruth v = some holds
  | .error _ => false

/-- As a condition, an argument is a test, or NULL on the row. -/
def Argument.condition (arg : Argument) : Bool := (arg.test || arg.value.isNull) && arg.sound

/-- The operands of an AND (`stop` is FALSE) or an OR up to where it stops. -/
def connectSound (stop : Bool) : List Argument → Bool
  | [] => true
  | arg :: args => arg.condition && (arg.value.isTruth stop || connectSound stop args)

def firstSound : List Argument → Bool
  | [] => true
  | arg :: args => arg.sound && (!arg.value.isNull || firstSound args)

def searchSound (otherwise : Option Argument) : List Argument → List Argument → Bool
  | test :: tests, value :: values =>
      test.condition && (if test.value.isTruth true then value.sound else searchSound otherwise tests values)
  | _, _ => otherwise.all Argument.sound

def Outcome.equals : Outcome → Outcome → Bool
  | .ok left, .ok right => CompareOp.eq.truth left right = some true
  | _, _ => false

def findSound (subject : Outcome) (otherwise : Option Argument) : List Argument → List Argument → Bool
  | test :: tests, value :: values =>
      test.sound && (if subject.equals test.value then value.sound else findSound subject otherwise tests values)
  | _, _ => otherwise.all Argument.sound

/-- Every condition that evaluating a function reaches is a comparison or a
test, or NULL. -/
def FuncType.sound : FuncType → List Argument → Bool
  | .not, [a] => a.condition
  | .caseSearched, args =>
      searchSound (if args.length % 2 = 1 then args.getLast? else none) (args.take (args.length / 2))
        ((args.drop (args.length / 2)).take (args.length / 2))
  | .caseSimple _, subject :: args =>
      subject.sound && findSound subject.value (if args.length % 2 = 1 then args.getLast? else none)
        (args.take (args.length / 2)) ((args.drop (args.length / 2)).take (args.length / 2))
  | .named .coalesce, args | .named .ifnull, args => firstSound args
  | .named .nullif, a :: b :: _ => a.sound && b.sound
  | .named .ifFunc, [test, x, y] => test.condition && (if test.value.isTruth true then x.sound else y.sound)
  | _, args => args.all Argument.sound

section Sound

variable (row : Field → Option Int64)

mutual

/-- Every condition that evaluating an expression on a row reaches is a
comparison or a test, or NULL there. -/
def Item.sound : Item → Bool
  | .func _ _ type args => type.sound (arguments args)
  | .cond _ type args => connectSound (type ≠ .and) (arguments args)
  | _ => true

def arguments : List Item → List Argument
  | [] => []
  | it :: items => ⟨it.isPredicate, it.value row, it.sound⟩ :: arguments items

end

def Item.argument (it : Item) : Argument := ⟨it.isPredicate, it.value row, it.sound row⟩

theorem arguments_eq (items : List Item) : arguments row items = items.map (Item.argument row) := by
  induction items with
  | nil => rfl
  | cons it items ih => rw [arguments, ih, List.map_cons, Item.argument]

end Sound

end StoolapMariadb.SqlGen
