import StoolapMariadb.Lib.Lexer
import StoolapMariadb.Lib.Utf8
import StoolapMariadb.SqlGen.Modify

namespace StoolapMariadb.SqlGen

/-! The text of the generated SQL: the tokens and spaces it is written with. -/

open Lexer (Symbol)

inductive Keyword where
  | select_ | distinct_ | from_ | where_ | group_ | by_ | having_ | order_ | limit_ | offset_
  | union_ | intersect_ | except_ | all_ | as_ | left_ | join_ | cross_ | on_
  | and_ | or_ | not_ | is_ | null_ | between_ | in_ | like_
  | case_ | when_ | then_ | else_ | end_ | cast_ | exists_
  | asc_ | desc_ | nulls_ | first_ | last_
  | over_ | partition_ | rows_ | current_ | row_ | unbounded_ | preceding_ | following_
  | update_ | set_ | delete_
  | type (type : CastType)
  | function (function : Function)
  | aggregate (aggregate : Aggregate)
  | window (function : WindowFunction)
deriving DecidableEq

def CastType.text : CastType → String
  | .integer => "INTEGER"
  | .float => "FLOAT"

def Function.text : Function → String
  | .abs => "ABS"
  | .coalesce => "COALESCE"
  | .ifnull => "IFNULL"
  | .nullif => "NULLIF"
  | .length => "LENGTH"
  | .charLength => "CHAR_LENGTH"
  | .substr => "SUBSTR"
  | .replace => "REPLACE"

def Aggregate.text : Aggregate → String
  | .count => "COUNT"
  | .sum => "SUM"
  | .avg => "AVG"
  | .min => "MIN"
  | .max => "MAX"

def WindowFunction.text : WindowFunction → String
  | .rowNumber => "ROW_NUMBER"
  | .rank => "RANK"
  | .denseRank => "DENSE_RANK"
  | .lag => "LAG"
  | .lead => "LEAD"

def Keyword.text : Keyword → String
  | .select_ => "SELECT"
  | .distinct_ => "DISTINCT"
  | .from_ => "FROM"
  | .where_ => "WHERE"
  | .group_ => "GROUP"
  | .by_ => "BY"
  | .having_ => "HAVING"
  | .order_ => "ORDER"
  | .limit_ => "LIMIT"
  | .offset_ => "OFFSET"
  | .union_ => "UNION"
  | .intersect_ => "INTERSECT"
  | .except_ => "EXCEPT"
  | .all_ => "ALL"
  | .as_ => "AS"
  | .left_ => "LEFT"
  | .join_ => "JOIN"
  | .cross_ => "CROSS"
  | .on_ => "ON"
  | .and_ => "AND"
  | .or_ => "OR"
  | .not_ => "NOT"
  | .is_ => "IS"
  | .null_ => "NULL"
  | .between_ => "BETWEEN"
  | .in_ => "IN"
  | .like_ => "LIKE"
  | .case_ => "CASE"
  | .when_ => "WHEN"
  | .then_ => "THEN"
  | .else_ => "ELSE"
  | .end_ => "END"
  | .cast_ => "CAST"
  | .exists_ => "EXISTS"
  | .asc_ => "ASC"
  | .desc_ => "DESC"
  | .nulls_ => "NULLS"
  | .first_ => "FIRST"
  | .last_ => "LAST"
  | .over_ => "OVER"
  | .partition_ => "PARTITION"
  | .rows_ => "ROWS"
  | .current_ => "CURRENT"
  | .row_ => "ROW"
  | .unbounded_ => "UNBOUNDED"
  | .preceding_ => "PRECEDING"
  | .following_ => "FOLLOWING"
  | .update_ => "UPDATE"
  | .set_ => "SET"
  | .delete_ => "DELETE"
  | .type t => t.text
  | .function f => f.text
  | .aggregate a => a.text
  | .window w => w.text

def keywords : List Keyword :=
  [.select_, .distinct_, .from_, .where_, .group_, .by_, .having_, .order_, .limit_, .offset_, .union_, .intersect_,
   .except_, .all_, .as_, .left_, .join_, .cross_, .on_, .and_, .or_, .not_, .is_, .null_, .between_, .in_, .like_,
   .case_, .when_, .then_, .else_, .end_, .cast_, .exists_, .asc_, .desc_, .nulls_, .first_, .last_, .over_,
   .partition_, .rows_, .current_, .row_, .unbounded_, .preceding_, .following_, .update_, .set_, .delete_,
   .type .integer, .type .float,
   .function .abs, .function .coalesce, .function .ifnull, .function .nullif, .function .length,
   .function .charLength, .function .substr, .function .replace, .aggregate .count, .aggregate .sum,
   .aggregate .avg, .aggregate .min, .aggregate .max, .window .rowNumber, .window .rank, .window .denseRank,
   .window .lag, .window .lead]

/-- A token of the SQL: a word that is no keyword is an alias. -/
inductive Tok where
  | symbol (symbol : Symbol)
  | keyword (keyword : Keyword)
  | word (text : String)
  | name (text : String)
  | number (text : String)
  | string (bytes : List UInt8)
deriving DecidableEq

def Tok.lexed : Tok → Lexer.Token
  | .symbol sign => .symbol sign
  | .keyword k => .word (utf8 k.text)
  | .word text => .word (utf8 text)
  | .name text => .quoted .ident (utf8 text)
  | .number text => .number (utf8 text)
  | .string bytes => .quoted .string bytes

/-- What a token of the text is to the parser. -/
def Tok.ofLexed : Lexer.Token → Option Tok
  | .symbol sign => some (.symbol sign)
  | .word bytes =>
      match keywords.find? fun k => utf8 k.text = bytes with
      | some k => some (.keyword k)
      | none => (decodeUtf8 bytes).map Tok.word
  | .number bytes => (decodeUtf8 bytes).map Tok.number
  | .quoted .ident bytes => (decodeUtf8 bytes).map Tok.name
  | .quoted .string bytes => some (.string bytes)

/-- Tokens and, where nothing stands, spaces. -/
abbrev Pieces := List (Option Tok)

def space : Option Tok := none

def sign (s : Symbol) : Option Tok := some (.symbol s)

def keyword (k : Keyword) : Option Tok := some (.keyword k)

/-- A number with its sign. -/
def signed (text : String) : Pieces :=
  match text.toList with
  | '-' :: digits => [sign .minus, some (.number (String.ofList digits))]
  | _ => [some (.number text)]

/-- The name within its quotes. -/
def unquote : List Char → List Char
  | '"' :: '"' :: rest => '"' :: unquote rest
  | ['"'] => []
  | c :: rest => c :: unquote rest
  | [] => []

/-- A table's alias, or its quoted name. -/
def aliasTok (tableAlias : String) : Tok :=
  match tableAlias.toList with
  | '"' :: rest => .name (String.ofList (unquote rest))
  | _ => .word tableAlias

def Comparison.written : Comparison → Pieces
  | .eq => [space, sign .eq, space]
  | .ne => [space, sign .ne, space]
  | .lt => [space, sign .lt, space]
  | .le => [space, sign .le, space]
  | .gt => [space, sign .gt, space]
  | .ge => [space, sign .ge, space]
  | .isNotDistinctFrom =>
      [space, keyword .is_, space, keyword .not_, space, keyword .distinct_, space, keyword .from_, space]
  | .isDistinctFrom => [space, keyword .is_, space, keyword .distinct_, space, keyword .from_, space]

def Arithmetic.symbol : Arithmetic → Symbol
  | .add => .plus
  | .sub => .minus
  | .mul => .star
  | .div => .slash

def Connective.keyword : Connective → Keyword
  | .and => .and_
  | .or => .or_

/-- `NOT`, where the test is negated. -/
def notWritten (negated : Bool) : Pieces := if negated then [keyword .not_, space] else []

def FrameBound.written : FrameBound → Pieces
  | .currentRow => [keyword .current_, space, keyword .row_]
  | .unbounded preceding => [keyword .unbounded_, space, keyword (if preceding then .preceding_ else .following_)]
  | .offset rows preceding =>
      [some (.number (toString rows)), space, keyword (if preceding then .preceding_ else .following_)]

def frameWritten : Option (FrameBound × FrameBound) → Pieces
  | none => []
  | some (top, bottom) =>
      [keyword .rows_, space, keyword .between_, space] ++ top.written ++ [space, keyword .and_, space] ++ bottom.written

def directionWritten (descending : Bool) : Pieces :=
  if descending then [space, keyword .desc_, space, keyword .nulls_, space, keyword .last_]
  else [space, keyword .asc_, space, keyword .nulls_, space, keyword .first_]

def limitWritten : Option Limit → Pieces
  | none => []
  | some ⟨rows, offset⟩ =>
      [space, keyword .limit_, space, some (.number (toString rows))] ++
        match offset with
        | none => []
        | some offset => [space, keyword .offset_, space, some (.number (toString offset))]

/-- A part of a window's specification, behind a space unless it is the
first. -/
def partWritten (before part : Pieces) : Pieces :=
  if before.isEmpty then part else if part.isEmpty then before else before ++ space :: part

def SetOp.keyword : SetOp → Keyword
  | .union => .union_
  | .intersect => .intersect_
  | .except => .except_

def joinWritten : Option JoinKind → Pieces
  | none => []
  | some .cross => [space, keyword .cross_, space, keyword .join_, space]
  | some .inner => [space, keyword .join_, space]
  | some .left => [space, keyword .left_, space, keyword .join_, space]

/-- Parts behind commas. -/
def moreWritten (parts : List Pieces) : Pieces := parts.flatMap fun part => sign .comma :: space :: part

def commasWritten : List Pieces → Pieces
  | [] => []
  | part :: parts => part ++ moreWritten parts

/-- The order of legs, by the names of their columns. -/
def namesWritten (keys : List (String × Bool)) : Pieces :=
  if keys.isEmpty then []
  else [space, keyword .order_, space, keyword .by_, space] ++
    commasWritten (keys.map fun key => some (.name key.1) :: directionWritten key.2)

mutual

def Sql.written : Sql → Pieces
  | .column qualifier name => [some (aliasTok qualifier), sign .dot, some (.name name)]
  | .null => [keyword .null_]
  | .integer value => signed (toString value.toInt)
  | .number text => signed text
  | .text bytes => [some (.string bytes)]
  | .paren operand => sign .lparen :: (operand.written ++ [sign .rparen])
  | .compare op left right => left.written ++ (op.written ++ right.written)
  | .arithmetic op left right => left.written ++ (space :: sign op.symbol :: space :: right.written)
  | .concat operands => listWritten [space, sign .concat, space] operands
  | .isNull negated operand =>
      operand.written ++ (space :: keyword .is_ :: space :: (notWritten negated ++ [keyword .null_]))
  | .between negated value low high =>
      value.written ++ (space :: (notWritten negated ++ (keyword .between_ :: space ::
        (low.written ++ (space :: keyword .and_ :: space :: high.written)))))
  | .inList negated value list =>
      value.written ++ (space :: (notWritten negated ++ (keyword .in_ :: space :: sign .lparen ::
        (listWritten [sign .comma, space] list ++ [sign .rparen]))))
  | .like negated value pattern =>
      value.written ++ (space :: (notWritten negated ++ (keyword .like_ :: space :: pattern.written)))
  | .not operand => keyword .not_ :: space :: operand.written
  | .connect connective operands => listWritten [space, keyword connective.keyword, space] operands
  | .neg operand => sign .minus :: operand.written
  | .caseSearched arms => keyword .case_ :: arms.written
  | .caseSimple subject arms => keyword .case_ :: space :: (subject.written ++ arms.written)
  | .cast operand type =>
      keyword .cast_ :: sign .lparen ::
        (operand.written ++ [space, keyword .as_, space, keyword (.type type), sign .rparen])
  | .call function args =>
      keyword (.function function) :: sign .lparen :: (listWritten [sign .comma, space] args ++ [sign .rparen])
  | .countAll => [keyword (.aggregate .count), sign .lparen, sign .star, sign .rparen]
  | .aggregate aggregate distinct arg =>
      keyword (.aggregate aggregate) :: sign .lparen ::
        ((if distinct then [keyword .distinct_, space] else []) ++ (arg.written ++ [sign .rparen]))
  | .windowCall function args =>
      keyword (.window function) :: sign .lparen :: (listWritten [sign .comma, space] args ++ [sign .rparen])
  | .windowed function partition order frame =>
      function.written ++ (space :: keyword .over_ :: space :: sign .lparen ::
        (partWritten (partWritten (keysWritten [keyword .partition_, space, keyword .by_, space] partition)
          (keysWritten [keyword .order_, space, keyword .by_, space] order)) (frameWritten frame) ++ [sign .rparen]))
  | .subquery query => query.written
  | .existsQuery query => keyword .exists_ :: space :: sign .lparen :: (query.written ++ [sign .rparen])
  | .inQuery value query =>
      value.written ++ (space :: keyword .in_ :: space :: sign .lparen :: (query.written ++ [sign .rparen]))

/-- Operands with something between them. -/
def listWritten (between : Pieces) : List Sql → Pieces
  | [] => []
  | operand :: operands => operand.written ++ tailWritten between operands

def tailWritten (between : Pieces) : List Sql → Pieces
  | [] => []
  | operand :: operands => between ++ (operand.written ++ tailWritten between operands)

def Arms.written : Arms → Pieces
  | .done => [space, keyword .end_]
  | .otherwise value => space :: keyword .else_ :: space :: (value.written ++ [space, keyword .end_])
  | .when test value rest =>
      space :: keyword .when_ :: space ::
        (test.written ++ (space :: keyword .then_ :: space :: (value.written ++ rest.written)))

def Key.written : Key → Pieces
  | .mk value none => value.written
  | .mk value (some descending) => value.written ++ directionWritten descending

/-- A list of keys behind its keywords, nothing for none. -/
def keysWritten (head : Pieces) : List Key → Pieces
  | [] => []
  | key :: keys => head ++ (key.written ++ moreKeysWritten keys)

def moreKeysWritten : List Key → Pieces
  | [] => []
  | key :: keys => sign .comma :: space :: (key.written ++ moreKeysWritten keys)

def Output.written : Output → Pieces
  | .mk value none => value.written
  | .mk value (some name) => value.written ++ [space, keyword .as_, space, some (.name name)]

def outputsWritten : List Output → Pieces
  | [] => []
  | output :: outputs => output.written ++ moreOutputsWritten outputs

def moreOutputsWritten : List Output → Pieces
  | [] => []
  | output :: outputs => sign .comma :: space :: (output.written ++ moreOutputsWritten outputs)

def selectListWritten (distinct : Bool) : Option (List Output) → Pieces
  | none => [space, some (.number "1")]
  | some list => (if distinct then [space, keyword .distinct_] else []) ++ (space :: outputsWritten list)

/-- Conditions in parentheses behind a keyword. -/
def conditionsWritten (first : Keyword) : List Sql → Pieces
  | [] => []
  | condition :: conditions =>
      space :: keyword first :: space :: sign .lparen ::
        (condition.written ++ (sign .rparen :: moreConditionsWritten conditions))

def moreConditionsWritten : List Sql → Pieces
  | [] => []
  | condition :: conditions =>
      space :: keyword .and_ :: space :: sign .lparen ::
        (condition.written ++ (sign .rparen :: moreConditionsWritten conditions))

def havingWritten : Option Sql → Pieces
  | none => []
  | some condition => space :: keyword .having_ :: space :: condition.written

def Query.written : Query → Pieces
  | .select distinct list source filters groupBy having orderBy rows =>
      keyword .select_ :: (selectListWritten distinct list ++ (space :: keyword .from_ :: space ::
        (sourceWritten source ++ (conditionsWritten .where_ filters ++
          (keysWritten [space, keyword .group_, space, keyword .by_, space] groupBy ++ (havingWritten having ++
            (keysWritten [space, keyword .order_, space, keyword .by_, space] orderBy ++ limitWritten rows)))))))
  | .legs first rest orderBy rows =>
      first.written ++ (legsWritten rest ++ (namesWritten orderBy ++ limitWritten rows))

def Leg.written : Leg → Pieces
  | .mk op all query =>
      space :: keyword op.keyword :: space :: ((if all then [keyword .all_, space] else []) ++ query.written)

def legsWritten : List Leg → Pieces
  | [] => []
  | leg :: legs => leg.written ++ legsWritten legs

def Source.written : Source → Pieces
  | .table name tableAlias => [some (.name name), space, keyword .as_, space, some (aliasTok tableAlias)]
  | .derived query tableAlias =>
      sign .lparen :: (query.written ++ [sign .rparen, space, keyword .as_, space, some (aliasTok tableAlias)])

def Joined.written : Joined → Pieces
  | .mk join source on => joinWritten join ++ (source.written ++ conditionsWritten .on_ on)

def sourceWritten : List Joined → Pieces
  | [] => []
  | joined :: rest => joined.written ++ sourceWritten rest

end

def filterWritten : Option Sql → Pieces
  | none => []
  | some filter => space :: keyword .where_ :: space :: filter.written

def setWritten (column : String) (value : Sql) : Pieces :=
  some (.name column) :: space :: sign .eq :: space :: value.written

def Statement.written : Statement → Pieces
  | .update table sets filter =>
      keyword .update_ :: space :: some (aliasTok table) :: space :: keyword .set_ :: space ::
        (commasWritten (sets.map fun set => setWritten set.1 set.2) ++ filterWritten filter)
  | .delete table filter =>
      keyword .delete_ :: space :: keyword .from_ :: space :: some (aliasTok table) :: filterWritten filter

def ModifyCount.written (count : ModifyCount) : Pieces :=
  keyword .select_ :: space :: (Sql.written .countAll ++ (space :: keyword .from_ :: space ::
    some (aliasTok count.table) :: filterWritten count.filter))

/-- The pieces for the lexer, and the text they are. -/
def lexerPieces (pieces : Pieces) : List Lexer.Piece := pieces.map fun piece => piece.map Tok.lexed

def textOf (pieces : Pieces) : List UInt8 := Lexer.text (lexerPieces pieces)

/-- The tokens of a text. -/
def tokenize (text : List UInt8) : Option (List Tok) := (Lexer.lex text).bind fun tokens => tokens.mapM Tok.ofLexed

end StoolapMariadb.SqlGen
