import StoolapMariadb.Lib.StateExcept
import StoolapMariadb.SqlGen.Typing

namespace StoolapMariadb.SqlGen

/-! What stoolap compares in a generated statement, and what MariaDB compares in
the statement it was generated from. -/

open StateExcept
open StoolapMariadb.Types (Charset textIsUtf8)

/-- A place where stoolap compares values: two sides, a pattern, a key that rows
are sorted, grouped or kept apart by, a value looked for in the rows of a
query, or the rows of a set operation. -/
inductive Place where
  | pair (left right : Sql)
  | pattern (value pattern : Sql)
  | key (value : Sql)
  | member (value : Sql) (query : Query)
  | rows (query : Query)

def Arms.tests : Arms → List Sql
  | .done | .otherwise _ => []
  | .when test _ rest => test :: rest.tests

/-- What a function compares itself: NULLIF its two arguments. -/
def callPlaces : Function → List Sql → List Place
  | .nullif, [left, right] => [.pair left right]
  | _, _ => []

/-- MIN, MAX and any DISTINCT compare the values they are given. -/
def aggregatePlaces (aggregate : Aggregate) (distinct : Bool) (arg : Sql) : List Place :=
  if aggregate = .min || aggregate = .max || distinct then [.key arg] else []

def distinctPlaces (distinct : Bool) (list : List Output) : List Place :=
  if distinct then list.map fun output => .key output.value else []

mutual

/-- Every place of an expression that compares, its subqueries' included. -/
def Sql.places : Sql → List Place
  | .column _ _ | .null | .integer _ | .number _ | .text _ | .countAll => []
  | .paren operand | .isNull _ operand | .not operand | .neg operand | .cast operand _ => operand.places
  | .compare _ left right => .pair left right :: (left.places ++ right.places)
  | .arithmetic _ left right => left.places ++ right.places
  | .concat operands | .connect _ operands | .windowCall _ operands => allPlaces operands
  | .between _ value low high =>
      .pair value low :: .pair value high :: (value.places ++ (low.places ++ high.places))
  | .inList _ value list => list.map (Place.pair value) ++ (value.places ++ allPlaces list)
  | .like _ value pattern => .pattern value pattern :: (value.places ++ pattern.places)
  | .caseSearched arms => arms.places
  | .caseSimple subject arms => arms.tests.map (Place.pair subject) ++ (subject.places ++ arms.places)
  | .call function args => callPlaces function args ++ allPlaces args
  | .aggregate aggregate distinct arg => aggregatePlaces aggregate distinct arg ++ arg.places
  | .windowed function partition order _ => function.places ++ (keysPlaces partition ++ keysPlaces order)
  | .subquery query | .existsQuery query => query.places
  | .inQuery value query => .member value query :: (value.places ++ query.places)

def allPlaces : List Sql → List Place
  | [] => []
  | sql :: sqls => sql.places ++ allPlaces sqls

def optionalPlaces : Option Sql → List Place
  | none => []
  | some sql => sql.places

def Arms.places : Arms → List Place
  | .done => []
  | .otherwise value => value.places
  | .when test value rest => test.places ++ (value.places ++ rest.places)

def Key.places : Key → List Place
  | .mk value _ => .key value :: value.places

def keysPlaces : List Key → List Place
  | [] => []
  | key :: keys => key.places ++ keysPlaces keys

def Output.places : Output → List Place
  | .mk value _ => value.places

def outputsPlaces : List Output → List Place
  | [] => []
  | output :: outputs => output.places ++ outputsPlaces outputs

def listPlaces (distinct : Bool) : Option (List Output) → List Place
  | none => []
  | some list => distinctPlaces distinct list ++ outputsPlaces list

def Query.places : Query → List Place
  | .select distinct list source filters groupBy having orderBy _ =>
      listPlaces distinct list ++ (sourcePlaces source ++ (allPlaces filters ++
        (keysPlaces groupBy ++ (optionalPlaces having ++ keysPlaces orderBy))))
  | .legs first rest orderBy rows => .rows (.legs first rest orderBy rows) :: (first.places ++ legsPlaces rest)

def Leg.places : Leg → List Place
  | .mk _ _ query => query.places

def legsPlaces : List Leg → List Place
  | [] => []
  | leg :: legs => leg.places ++ legsPlaces legs

def Source.places : Source → List Place
  | .table _ _ => []
  | .derived query _ => query.places

def Joined.places : Joined → List Place
  | .mk _ source on => source.places ++ allPlaces on

def sourcePlaces : List Joined → List Place
  | [] => []
  | joined :: rest => joined.places ++ sourcePlaces rest

end

def Leg.dedups : Leg → Bool
  | .mk op all _ => op ≠ .union || !all

/-- A set operation that compares whole rows. -/
def Query.dedups : Query → Bool
  | .select _ _ _ _ _ _ _ _ => false
  | .legs _ rest _ _ => rest.any Leg.dedups

/-- A comparison MariaDB makes: of two items by the collation it settled on for
them, if the generator knows it, of an item with a pattern, of an item with
itself over the rows, of a value with the rows of a subquery, or of the rows of
a query expression. -/
inductive Compared where
  | pair (collation : Option Charset) (a b : Item)
  | pattern (collation : Option Charset) (a pattern : Item)
  | key (it : Item)
  | member (left : Item) (unit : SelectUnit)
  | rows (unit : SelectUnit)

/-- What a function compares of its arguments. Of NULLIF's the third is its own
copy of the first. -/
def FuncType.comparisons : FuncType → List Item → List Compared
  | .compare _ _ collation, [a, b] => [.pair collation a b]
  | .between _ collation, [a, low, high] => [.pair collation a low, .pair collation a high]
  | .inList _ collation, a :: list => list.map (Compared.pair collation a)
  | .like _ collation _, [a, pattern] => [.pattern collation a pattern]
  | .inOptimizer, [left, .subselect _ .inSubs _ unit] => [.member left unit]
  | .caseSimple collation, subject :: a => (a.take (a.length / 2)).map (Compared.pair collation subject)
  | .named .nullif, a :: b :: _ => [.pair none a b]
  | _, _ => []

def SumFunc.comparisons (func : SumFunc) (args : List Item) : List Compared :=
  if func = .min || func = .max || func = .countDistinct || func = .sumDistinct then args.map Compared.key else []

def SubsType.comparisons : SubsType → Option Item → SelectUnit → List Compared
  | .inSubs, some left, unit => [.member left unit]
  | _, _, _ => []

mutual

/-- Every comparison an item makes, those of its subqueries included. -/
def Item.comparisons : Item → List Compared
  | .field _ _ | .const _ _ | .null _ | .param _ | .other _ => []
  | .ref _ _ _ target => optionComparisons target
  | .func _ _ type args => type.comparisons args ++ itemsComparisons args
  | .cond _ _ args => itemsComparisons args
  | .sum _ func args => func.comparisons args ++ itemsComparisons args
  | .window _ func args partition order _ =>
      func.comparisons args ++ (itemsComparisons args ++ (ordersComparisons partition ++ ordersComparisons order))
  | .subselect _ type left unit => type.comparisons left unit ++ (optionComparisons left ++ unit.comparisons)

def optionComparisons : Option Item → List Compared
  | none => []
  | some it => it.comparisons

def itemsComparisons : List Item → List Compared
  | [] => []
  | it :: items => it.comparisons ++ itemsComparisons items

def ordersComparisons : List Order → List Compared
  | [] => []
  | .mk it _ :: keys => .key it :: (it.comparisons ++ ordersComparisons keys)

def Select.comparisons : Select → List Compared
  | .mk flags tables items filter groupList having orderList =>
      (if flags.distinct then items.map Compared.key else []) ++ (itemsComparisons items ++ (tablesComparisons tables ++
        (optionComparisons filter ++ (ordersComparisons groupList ++
          (optionComparisons having ++ ordersComparisons orderList)))))

def selectsComparisons : List Select → List Compared
  | [] => []
  | select :: selects => select.comparisons ++ selectsComparisons selects

def SelectUnit.comparisons : SelectUnit → List Compared
  | .mk selects recursive types fields order withTies rows =>
      .rows (.mk selects recursive types fields order withTies rows) :: selectsComparisons selects

def tablesComparisons : List TableList → List Compared
  | [] => []
  | .mk kind on _ _ :: tables => kind.comparisons ++ (optionComparisons on ++ tablesComparisons tables)

def TableKind.comparisons : TableKind → List Compared
  | .derived _ unit _ _ => unit.comparisons
  | .nested tables => tablesComparisons tables
  | .base _ _ | .unopened => []

end

def SelectUnit.types : SelectUnit → List Item
  | .mk _ _ types _ _ _ _ => types

def SelectUnit.order : SelectUnit → List LegsOrder
  | .mk _ _ _ _ order _ _ => order

def LegsOrder.item : LegsOrder → Item
  | .mk it _ _ => it

/-- A collation by which strings are equal and ordered as their bytes are: a
binary one that pads nothing. -/
def Bytewise (cs : Option Charset) : Prop :=
  textIsUtf8 cs = true ∧ ∃ c ∈ cs, c.binsort = true ∧ c.nopad = true

/-- The collations that decide a comparison: the one settled on, else the
operands' own. -/
def collationsOf (collation : Option Charset) (a b : Item) : List (Option Charset) :=
  if collation.isSome then [collation] else [a.attrs.collation, b.attrs.collation]

/-- MariaDB compares the two as numbers, as temporal values of one kind, or as
strings by their bytes. Anything compares to NULL. -/
inductive Comparable (collation : Option Charset) (a b : Item) : Prop where
  | null (one : a.isNull = true ∨ b.isNull = true)
  | numbers (left : (cls a).numeric = true) (right : (cls b).numeric = true)
  | temporal (same : cls a = cls b) (kind : (cls a).temporal = true)
  | strings (left : cls a = .str) (right : cls b = .str) (bytes : ∀ cs ∈ collationsOf collation a b, Bytewise cs)

/-- MariaDB orders an item's values as numbers or temporal values, or as strings
by their bytes. -/
inductive Orderable (it : Item) : Prop where
  | number (kind : (cls it).numeric = true)
  | temporal (kind : (cls it).temporal = true)
  | string (kind : cls it = .str) (bytes : Bytewise it.attrs.collation)

/-- A session that does not take every collation for a binary one. -/
def Distrusts (g : Gen) : Prop := g.trustBin = false

/-- What is written for the value of an item. -/
def Wrote (it : Item) (sql : Sql) : Prop := ∃ g last, Distrusts g ∧ expr it g = .ok (sql, last)

def WroteQuery (unit : SelectUnit) (query : Query) : Prop :=
  ∃ names g last, Distrusts g ∧ SelectUnit.write names unit g = .ok (query, last)

/-- What stoolap compares at a place is what MariaDB compares, and bytes decide
for both. A DATETIME or TIME is a packed integer to stoolap, also where it is
compared with a literal. A pattern matches without padding. -/
inductive Backed (told : List Compared) : Place → Prop where
  | pair {collation a b left right} (compared : .pair collation a b ∈ told) (leftOf : Wrote a left)
      (rightOf : Wrote b right) (safe : Comparable collation a b) : Backed told (.pair left right)
  | packedRight {collation a b handler left n} (compared : .pair collation a b ∈ told) (leftOf : Wrote a left)
      (kind : (cls a).temporal = true) (literal : temporalLiteral a b handler = some n) :
      Backed told (.pair left (.integer n))
  | packedLeft {collation a b handler right n} (compared : .pair collation a b ∈ told) (rightOf : Wrote b right)
      (kind : (cls b).temporal = true) (literal : temporalLiteral b a handler = some n) :
      Backed told (.pair (.integer n) right)
  | pattern {collation a b value pattern} (compared : .pattern collation a b ∈ told) (valueOf : Wrote a value)
      (binary : ∃ c ∈ collation, c.binsort = true) : Backed told (.pattern value pattern)
  | key {it value} (compared : .key it ∈ told) (valueOf : Wrote it value) (safe : Orderable it) :
      Backed told (.key value)
  | member {left unit value query} (compared : .member left unit ∈ told) (valueOf : Wrote left value)
      (queryOf : WroteQuery unit query)
      (safe : ∀ items ∈ unit.itemLists, ∃ it, items = [it] ∧ Comparable none left it) :
      Backed told (.member value query)
  | rows {unit query} (compared : .rows unit ∈ told) (queryOf : WroteQuery unit query)
      (distinct : query.dedups = true → ∀ t ∈ unit.types, Orderable t)
      (sorted : ∀ key ∈ unit.order, Orderable key.item) : Backed told (.rows query)

/-- All of these places are MariaDB's too. -/
def AllBacked (told : List Compared) (places : List Place) : Prop := ∀ place ∈ places, Backed told place

end StoolapMariadb.SqlGen
