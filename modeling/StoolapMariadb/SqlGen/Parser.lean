import StoolapMariadb.Lib.Parsing
import StoolapMariadb.SqlGen.Text

namespace StoolapMariadb.SqlGen

/-! A parser of the SQL that is generated, by the precedence of its operators:
OR, AND, NOT, comparisons and tests, sums, products, minus signs, OVER. -/

open Parsing
open Lexer (Symbol)

variable {α : Type}

def Arithmetic.level : Arithmetic → Nat
  | .add | .sub => 5
  | .mul | .div => 6

def Connective.level : Connective → Nat
  | .or => 1
  | .and => 2

def symbolComparison : Symbol → Option Comparison
  | .eq => some .eq
  | .ne => some .ne
  | .lt => some .lt
  | .le => some .le
  | .gt => some .gt
  | .ge => some .ge
  | _ => none

def symbolArithmetic : Symbol → Option Arithmetic
  | .plus => some .add
  | .minus => some .sub
  | .star => some .mul
  | .slash => some .div
  | _ => none

def symbolLevel (s : Symbol) : Nat :=
  match symbolComparison s, symbolArithmetic s with
  | some _, _ => 4
  | none, some op => op.level
  | none, none => if s = .concat then 5 else 0

/-- How tight the operator that follows binds, 0 where none does. -/
def operatorLevel : Option Tok → Nat
  | some (.symbol s) => symbolLevel s
  | some (.keyword .or_) => 1
  | some (.keyword .and_) => 2
  | some (.keyword .is_) | some (.keyword .not_) | some (.keyword .between_) | some (.keyword .in_)
  | some (.keyword .like_) => 4
  | some (.keyword .over_) => 8
  | _ => 0

/-- The name of a table, as it is or in quotes. -/
def Tok.ident : Tok → String
  | .word text | .name text => text
  | _ => ""

def parseIdent : Parser Tok String := do
  match ← next with
  | .word text | .name text => return text
  | _ => failure

def parseName : Parser Tok String := do
  match ← next with
  | .name text => return text
  | _ => failure

def parseNumber : Parser Tok Nat := do
  match ← next with
  | .number text =>
      if text.toList.all Char.isDigit then return Nat.ofDigitChars 10 text.toList 0 else failure
  | _ => failure

def parseType : Parser Tok CastType := do
  match ← next with
  | .keyword (.type t) => return t
  | _ => failure

/-- A direction, with the place of the NULLs. -/
def parseDirection : Parser Tok (Option Bool) := do
  match ← peek with
  | some (.keyword .asc_) =>
      expect (.keyword .asc_)
      expect (.keyword .nulls_)
      expect (.keyword .first_)
      return some false
  | some (.keyword .desc_) =>
      expect (.keyword .desc_)
      expect (.keyword .nulls_)
      expect (.keyword .last_)
      return some true
  | _ => return none

def parseKey (expr : Parser Tok Sql) : Parser Tok Key := do
  return .mk (← expr) (← parseDirection)

/-- Keys behind their keywords, none without these. -/
def parseKeys (first : Keyword) (key : Parser Tok α) (fuel : Nat) : Parser Tok (List α) := do
  let keys ← optionally (.keyword first) (do
    expect (.keyword .by_)
    separated (.symbol .comma) key fuel)
  return keys.getD []

def parseNameKey : Parser Tok (String × Bool) := do
  return (← parseName, (← parseDirection).getD false)

def parsePreceding : Parser Tok Bool := do
  match ← next with
  | .keyword .preceding_ => return true
  | .keyword .following_ => return false
  | _ => failure

def parseBound : Parser Tok FrameBound := do
  match ← peek with
  | some (.keyword .current_) =>
      expect (.keyword .current_)
      expect (.keyword .row_)
      return .currentRow
  | some (.keyword .unbounded_) =>
      expect (.keyword .unbounded_)
      return .unbounded (← parsePreceding)
  | _ => return .offset (← parseNumber) (← parsePreceding)

def parseFrame : Parser Tok (Option (FrameBound × FrameBound)) :=
  optionally (.keyword .rows_) (do
    expect (.keyword .between_)
    let top ← parseBound
    expect (.keyword .and_)
    return (top, ← parseBound))

def parseLimit : Parser Tok (Option Limit) :=
  optionally (.keyword .limit_) (do
    return ⟨← parseNumber, ← optionally (.keyword .offset_) parseNumber⟩)

def parseParens (inside : Parser Tok α) : Parser Tok α := do
  expect (.symbol .lparen)
  let value ← inside
  expect (.symbol .rparen)
  return value

/-- The arguments of a function in their parentheses. -/
def parseArgs (expr : Parser Tok Sql) (fuel : Nat) : Parser Tok (List Sql) :=
  parseParens (do
    if (← peek) = some (.symbol .rparen) then return [] else separated (.symbol .comma) expr fuel)

def parseAggregate (aggregate : Aggregate) (expr : Parser Tok Sql) : Parser Tok Sql :=
  parseParens (do
    match ← peek with
    | some (.symbol .star) =>
        expect (.symbol .star)
        if aggregate = .count then return .countAll else failure
    | some (.keyword .distinct_) =>
        expect (.keyword .distinct_)
        return .aggregate aggregate true (← expr)
    | _ => return .aggregate aggregate false (← expr))

def parseOver (function : Sql) (expr : Parser Tok Sql) (fuel : Nat) : Parser Tok Sql :=
  parseParens (do
    let partition ← parseKeys .partition_ (parseKey expr) fuel
    let order ← parseKeys .order_ (parseKey expr) fuel
    return .windowed function partition order (← parseFrame))

def parseOutput (expr : Parser Tok Sql) : Parser Tok Output := do
  return .mk (← expr) (← optionally (.keyword .as_) parseName)

def parseTable (query : Parser Tok Query) : Parser Tok Source := do
  match ← peek with
  | some (.symbol .lparen) =>
      let query ← parseParens query
      expect (.keyword .as_)
      return .derived query (← parseIdent)
  | _ =>
      let name ← parseName
      expect (.keyword .as_)
      return .table name (← parseIdent)

def joinFollows : Option Tok → Bool
  | some (.keyword .cross_) | some (.keyword .left_) | some (.keyword .join_) => true
  | _ => false

def parseJoin : Parser Tok JoinKind := do
  match ← next with
  | .keyword .cross_ =>
      expect (.keyword .join_)
      return .cross
  | .keyword .left_ =>
      expect (.keyword .join_)
      return .left
  | .keyword .join_ => return .inner
  | _ => failure

def parseJoined (expr : Parser Tok Sql) (query : Parser Tok Query) : Parser Tok Joined := do
  let join ← parseJoin
  let source ← parseTable query
  let on ← optionally (.keyword .on_) expr
  return .mk (some join) source on.toList

/-- A SELECT up to its HAVING. -/
def parseSelect (expr : Parser Tok Sql) (query : Parser Tok Query) (fuel : Nat) : Parser Tok Query := do
  expect (.keyword .select_)
  let distinct ← optionally (.keyword .distinct_) (pure ())
  let list ← separated (.symbol .comma) (parseOutput expr) fuel
  expect (.keyword .from_)
  let table ← parseTable query
  let joined ← many joinFollows (parseJoined expr query) fuel
  let filter ← optionally (.keyword .where_) expr
  let groupBy ← parseKeys .group_ (parseKey expr) fuel
  let having ← optionally (.keyword .having_) expr
  return .select distinct.isSome (some list) (.mk none table [] :: joined) filter.toList groupBy having [] none

def legFollows : Option Tok → Bool
  | some (.keyword .union_) | some (.keyword .intersect_) | some (.keyword .except_) => true
  | _ => false

def parseSetOp : Parser Tok SetOp := do
  match ← next with
  | .keyword .union_ => return .union
  | .keyword .intersect_ => return .intersect
  | .keyword .except_ => return .except
  | _ => failure

def parseLeg (select : Parser Tok Query) : Parser Tok Leg := do
  let op ← parseSetOp
  let all ← optionally (.keyword .all_) (pure ())
  return .mk op all.isSome (← select)

/-- A SELECT with its order and limit. -/
def Query.sorted (orderBy : List Key) (rows : Option Limit) : Query → Query
  | .select distinct list source filters groupBy having _ _ =>
      .select distinct list source filters groupBy having orderBy rows
  | .legs first rest names _ => .legs first rest names rows

def testFollows : Option Tok → Bool
  | some (.keyword .not_) | some (.keyword .between_) | some (.keyword .in_) | some (.keyword .like_) => true
  | _ => false

/-- BETWEEN, IN and LIKE, behind NOT where they are negated. -/
def parseTest (operand expr : Parser Tok Sql) (query : Parser Tok Query) (fuel : Nat) (left : Sql) :
    Parser Tok Sql := do
  let negated ← optionally (.keyword .not_) (pure ())
  match ← next with
  | .keyword .between_ =>
      let low ← operand
      expect (.keyword .and_)
      return .between negated.isSome left low (← operand)
  | .keyword .like_ => return .like negated.isSome left (← operand)
  | .keyword .in_ =>
      parseParens (do
        if (← peek) = some (.keyword .select_) then
          let found := .inQuery left (← query)
          return if negated.isSome then .not found else found
        else return .inList negated.isSome left (← separated (.symbol .comma) expr fuel))
  | _ => failure

/-- What follows IS. -/
def parseIs (operand : Parser Tok Sql) (left : Sql) : Parser Tok Sql := do
  let negated ← optionally (.keyword .not_) (pure ())
  match ← next with
  | .keyword .null_ => return .isNull negated.isSome left
  | .keyword .distinct_ =>
      expect (.keyword .from_)
      return .compare (if negated.isSome then .isNotDistinctFrom else .isDistinctFrom) left (← operand)
  | _ => failure

def parseCast (expr : Parser Tok Sql) : Parser Tok Sql :=
  parseParens (do
    let operand ← expr
    expect (.keyword .as_)
    return .cast operand (← parseType))

def armFollows : Option Tok → Bool
  | some (.keyword .when_) | some (.keyword .else_) | some (.keyword .end_) => true
  | _ => false

mutual

/-- An expression whose operators bind at least as tight as the level. -/
def parseExpr : Nat → Nat → Parser Tok Sql
  | 0, _ => failure
  | fuel + 1, level => do parseInfix fuel level (← parseOperand fuel)

def parseInfix : Nat → Nat → Sql → Parser Tok Sql
  | 0, _, _ => failure
  | fuel + 1, level, left => do
      if operatorLevel (← peek) < level then return left
      else parseInfix fuel level (← parseOperator fuel left)

/-- What follows an operand: an operator, and the operands behind it. -/
def parseOperator : Nat → Sql → Parser Tok Sql
  | 0, _ => failure
  | fuel + 1, left => do
      if testFollows (← peek) then parseTest (parseExpr fuel 5) (parseExpr fuel 1) (parseQuery fuel) fuel left
      else
        match ← next with
        | .keyword .or_ => return .connect .or [left, ← parseExpr fuel 2]
        | .keyword .and_ => return .connect .and [left, ← parseExpr fuel 3]
        | .keyword .is_ => parseIs (parseExpr fuel 5) left
        | .keyword .over_ => parseOver left (parseExpr fuel 1) fuel
        | .symbol s =>
            match symbolComparison s, symbolArithmetic s with
            | some op, _ => return .compare op left (← parseExpr fuel 5)
            | none, some op => return .arithmetic op left (← parseExpr fuel (op.level + 1))
            | none, none => if s = .concat then return .concat [left, ← parseExpr fuel 6] else failure
        | _ => failure

def parseOperand : Nat → Parser Tok Sql
  | 0 => failure
  | fuel + 1 => do
      match ← next with
      | .word text | .name text =>
          expect (.symbol .dot)
          return .column text (← parseName)
      | .number text => return .number text
      | .string bytes => return .text bytes
      | .keyword .null_ => return .null
      | .symbol .lparen =>
          if (← peek) = some (.keyword .select_) then
            let query ← parseQuery fuel
            expect (.symbol .rparen)
            return .subquery query
          else
            let inside ← parseExpr fuel 1
            expect (.symbol .rparen)
            return inside
      | .symbol .minus => return .neg (← parseExpr fuel 8)
      | .keyword .not_ => return .not (← parseExpr fuel 4)
      | .keyword .case_ =>
          if armFollows (← peek) then return .caseSearched (← parseArms fuel)
          else return .caseSimple (← parseExpr fuel 1) (← parseArms fuel)
      | .keyword .cast_ => parseCast (parseExpr fuel 1)
      | .keyword .exists_ => return .existsQuery (← parseParens (parseQuery fuel))
      | .keyword (.function f) => return .call f (← parseArgs (parseExpr fuel 1) fuel)
      | .keyword (.aggregate a) => parseAggregate a (parseExpr fuel 1)
      | .keyword (.window f) => return .windowCall f (← parseArgs (parseExpr fuel 1) fuel)
      | _ => failure

def parseArms : Nat → Parser Tok Arms
  | 0 => failure
  | fuel + 1 => do
      match ← next with
      | .keyword .end_ => return .done
      | .keyword .else_ =>
          let value ← parseExpr fuel 1
          expect (.keyword .end_)
          return .otherwise value
      | .keyword .when_ =>
          let test ← parseExpr fuel 1
          expect (.keyword .then_)
          return .when test (← parseExpr fuel 1) (← parseArms fuel)
      | _ => failure

/-- A query expression: a SELECT, or legs, with the order and limit of the
whole. -/
def parseQuery : Nat → Parser Tok Query
  | 0 => failure
  | fuel + 1 => do
      let first ← parseSelect (parseExpr fuel 1) (parseQuery fuel) fuel
      let legs ← many legFollows (parseLeg (parseSelect (parseExpr fuel 1) (parseQuery fuel) fuel)) fuel
      if legs.isEmpty then
        let orderBy ← parseKeys .order_ (parseKey (parseExpr fuel 1)) fuel
        return first.sorted orderBy (← parseLimit)
      else
        let names ← parseKeys .order_ parseNameKey fuel
        return .legs first legs names (← parseLimit)

end

section Calls

variable {rest left : List Tok} {level : Nat} {first value : Sql}

theorem reads_expr {middle : List Tok}
    (operand : Reads (fun fuel => parseOperand fuel) rest first middle)
    (more : Reads (fun fuel => parseInfix fuel level first) middle value left) :
    Reads (fun fuel => parseExpr fuel level) rest value left :=
  .call (fun _ => by rw [parseExpr]) (.bind operand more)

theorem infix_ends (ends : operatorLevel rest.head? < level) :
    Reads (fun fuel => parseInfix fuel level first) rest first rest :=
  .call (fun _ => by rw [parseInfix]) (.peek (.ifTrue ends .pure))

theorem infix_goes {second : Sql} {middle : List Tok} (tight : level ≤ operatorLevel rest.head?)
    (operator : Reads (fun fuel => parseOperator fuel first) rest second middle)
    (more : Reads (fun fuel => parseInfix fuel level second) middle value left) :
    Reads (fun fuel => parseInfix fuel level first) rest value left :=
  .call (fun _ => by rw [parseInfix]) (.peek (.ifFalse (Nat.not_lt.mpr tight) (.bind operator more)))

theorem is_reads (reads : Reads (fun fuel => parseIs (parseExpr fuel 5) first) rest value left) :
    Reads (fun fuel => parseOperator fuel first) (.keyword .is_ :: rest) value left :=
  .step (fun _ => by rw [parseOperator]; rfl) reads

theorem countAll_reads :
    Reads (fun fuel => parseOperand fuel)
      (.keyword (.aggregate .count) :: .symbol .lparen :: .symbol .star :: .symbol .rparen :: rest) .countAll rest :=
  .step (fun fuel => by rw [parseOperand]; rfl) .pure

end Calls

def parseSet (expr : Parser Tok Sql) : Parser Tok (String × Sql) := do
  let column ← parseName
  expect (.symbol .eq)
  return (column, ← expr)

def parseStatement (fuel : Nat) : Parser Tok Statement := do
  match ← next with
  | .keyword .update_ =>
      let table ← parseIdent
      expect (.keyword .set_)
      let sets ← separated (.symbol .comma) (parseSet (parseExpr fuel 1)) fuel
      return .update table sets (← optionally (.keyword .where_) (parseExpr fuel 1))
  | .keyword .delete_ =>
      expect (.keyword .from_)
      let table ← parseIdent
      return .delete table (← optionally (.keyword .where_) (parseExpr fuel 1))
  | _ => failure

/-- The count of a table's rows. -/
def parseCount (fuel : Nat) : Parser Tok (String × Option Sql) := do
  expect (.keyword .select_)
  expect (.keyword (.aggregate .count))
  parseParens (expect (.symbol .star))
  expect (.keyword .from_)
  let table ← parseIdent
  return (table, ← optionally (.keyword .where_) (parseExpr fuel 1))

end StoolapMariadb.SqlGen
