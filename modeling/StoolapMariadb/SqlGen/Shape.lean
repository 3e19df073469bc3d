import StoolapMariadb.SqlGen.Parser

namespace StoolapMariadb.SqlGen

/-! What the written SQL means to a parser, and the shape by which its
parentheses say so. -/

/-- A number with its sign. -/
def signedMeant (text : String) : Sql :=
  match text.toList with
  | '-' :: digits => .neg (.number (String.ofList digits))
  | _ => .number text

/-- Operands of one operator, paired from the left. -/
def paired (pair : Sql → Sql → Sql) : List Sql → Sql
  | [] => .null
  | operand :: operands => operands.foldl pair operand

def conjoin (left right : Sql) : Sql := .connect .and [left, right]

/-- Conditions as the one they are. -/
def conjoined : List Sql → List Sql
  | [] => []
  | condition :: conditions => [conditions.foldl conjoin condition]

mutual

/-- The expression without its parentheses, a negative number as its digits
behind a minus sign, a chain of operands as pairs. -/
def Sql.meant : Sql → Sql
  | .column qualifier name => .column (aliasTok qualifier).ident name
  | .null => .null
  | .integer value => signedMeant (toString value.toInt)
  | .number digits => signedMeant digits
  | .text bytes => .text bytes
  | .paren operand => operand.meant
  | .compare op left right => .compare op left.meant right.meant
  | .arithmetic op left right => .arithmetic op left.meant right.meant
  | .concat operands => paired (fun left right => .concat [left, right]) (allMeant operands)
  | .isNull negated operand => .isNull negated operand.meant
  | .between negated value low high => .between negated value.meant low.meant high.meant
  | .inList negated value list => .inList negated value.meant (allMeant list)
  | .like negated value pattern => .like negated value.meant pattern.meant
  | .not operand => .not operand.meant
  | .connect connective operands => paired (fun left right => .connect connective [left, right]) (allMeant operands)
  | .neg operand => .neg operand.meant
  | .caseSearched arms => .caseSearched arms.meant
  | .caseSimple subject arms => .caseSimple subject.meant arms.meant
  | .cast operand type => .cast operand.meant type
  | .call function args => .call function (allMeant args)
  | .countAll => .countAll
  | .aggregate aggregate distinct arg => .aggregate aggregate distinct arg.meant
  | .windowCall function args => .windowCall function (allMeant args)
  | .windowed function partition order frame => .windowed function.meant (keysMeant partition) (keysMeant order) frame
  | .subquery query => .subquery query.meant
  | .existsQuery query => .existsQuery query.meant
  | .inQuery value query => .inQuery value.meant query.meant

def allMeant : List Sql → List Sql
  | [] => []
  | sql :: sqls => sql.meant :: allMeant sqls

def optionMeant : Option Sql → Option Sql
  | none => none
  | some sql => some sql.meant

def Arms.meant : Arms → Arms
  | .done => .done
  | .otherwise value => .otherwise value.meant
  | .when test value rest => .when test.meant value.meant rest.meant

def Key.meant : Key → Key
  | .mk value descending => .mk value.meant descending

def keysMeant : List Key → List Key
  | [] => []
  | key :: keys => key.meant :: keysMeant keys

def Output.meant : Output → Output
  | .mk value name => .mk value.meant name

def outputsMeant : List Output → List Output
  | [] => []
  | output :: outputs => output.meant :: outputsMeant outputs

def listMeant : Option (List Output) → List Output
  | none => [.mk (.number "1") none]
  | some list => outputsMeant list

def Query.meant : Query → Query
  | .select distinct list source filters groupBy having orderBy rows =>
      .select (list.isSome && distinct) (some (listMeant list)) (sourceMeant source) (conjoined (allMeant filters))
        (keysMeant groupBy) (optionMeant having) (keysMeant orderBy) rows
  | .legs first rest orderBy rows => .legs first.meant (legsMeant rest) orderBy rows

def Leg.meant : Leg → Leg
  | .mk op all query => .mk op all query.meant

def legsMeant : List Leg → List Leg
  | [] => []
  | leg :: legs => leg.meant :: legsMeant legs

def Source.meant : Source → Source
  | .table name tableAlias => .table name (aliasTok tableAlias).ident
  | .derived query tableAlias => .derived query.meant (aliasTok tableAlias).ident

def Joined.meant : Joined → Joined
  | .mk join source on => .mk join source.meant (conjoined (allMeant on))

def sourceMeant : List Joined → List Joined
  | [] => []
  | joined :: rest => joined.meant :: sourceMeant rest

end

def Statement.meant : Statement → Statement
  | .update table sets filter =>
      .update (aliasTok table).ident (sets.map fun set => (set.1, set.2.meant)) (filter.map Sql.meant)
  | .delete table filter => .delete (aliasTok table).ident (filter.map Sql.meant)

def ModifyCount.meant (count : ModifyCount) : String × Option Sql :=
  ((aliasTok count.table).ident, count.filter.map Sql.meant)

/-- The text begins with a minus sign. -/
def isSigned (text : String) : Bool := text.toList.head? = some '-'

/-- A number with a minus sign of its own. -/
def Sql.negative : Sql → Bool
  | .integer value => isSigned (toString value.toInt)
  | .number digits => isSigned digits
  | _ => false

/-- How tight the operator binds that an expression is written with; 9 is an
operand, and a bare query none. -/
def Sql.level : Sql → Nat
  | .connect connective _ => connective.level
  | .not _ => 3
  | .compare _ _ _ | .isNull _ _ | .between _ _ _ _ | .inList _ _ _ | .like _ _ _ | .inQuery _ _ => 4
  | .arithmetic op _ _ => op.level
  | .concat _ => 5
  | .neg _ => 7
  | .integer value => if isSigned (toString value.toInt) then 7 else 9
  | .number digits => if isSigned digits then 7 else 9
  | .windowed _ _ _ _ => 8
  | .subquery _ => 0
  | .column _ _ | .null | .text _ | .paren _ | .caseSearched _ | .caseSimple _ _ | .cast _ _ | .call _ _ | .countAll
  | .aggregate _ _ _ | .windowCall _ _ | .existsQuery _ => 9

/-- A token the lexer gives back: a number, and a word that is no keyword. -/
def Tok.Valid : Tok → Prop
  | .word text => (Lexer.Token.word (utf8 text)).Valid ∧ ∀ k ∈ keywords, utf8 k.text ≠ utf8 text
  | .number text => (Lexer.Token.number (utf8 text)).Valid
  | .symbol _ | .keyword _ | .name _ | .string _ => True

/-- The tokens of pieces. -/
def toks (pieces : Pieces) : List Tok := pieces.filterMap id

def NumberText (text : String) : Prop := ∀ token ∈ toks (signed text), token.Valid

def Query.isLeg : Query → Bool
  | .select _ _ _ _ _ _ orderBy rows => orderBy.isEmpty && rows.isNone
  | .legs _ _ _ _ => false

section Shaped

variable (may : Sql → Prop)

mutual

/-- Every operator has operands that bind tighter, and none is missing; `may`
holds of what a minus sign is written before. -/
def Sql.Shaped : Sql → Prop
  | .column qualifier _ => (aliasTok qualifier).Valid
  | .null | .integer _ | .text _ | .countAll => True
  | .number digits => NumberText digits
  | .paren operand => operand.Shaped
  | .compare _ left right => (5 ≤ left.level ∧ left.Shaped) ∧ 5 ≤ right.level ∧ right.Shaped
  | .arithmetic op left right => (op.level ≤ left.level ∧ left.Shaped) ∧ op.level + 1 ≤ right.level ∧ right.Shaped
  | .concat operands => operands ≠ [] ∧ AllShaped 6 operands
  | .isNull _ operand => 5 ≤ operand.level ∧ operand.Shaped
  | .between _ value low high =>
      (5 ≤ value.level ∧ value.Shaped) ∧ (5 ≤ low.level ∧ low.Shaped) ∧ 5 ≤ high.level ∧ high.Shaped
  | .inList _ value list => (5 ≤ value.level ∧ value.Shaped) ∧ list ≠ [] ∧ AllShaped 1 list
  | .like _ value pattern => (5 ≤ value.level ∧ value.Shaped) ∧ 5 ≤ pattern.level ∧ pattern.Shaped
  | .not operand => 4 ≤ operand.level ∧ operand.Shaped
  | .connect connective operands => operands ≠ [] ∧ AllShaped (connective.level + 1) operands
  | .neg operand => may operand ∧ 7 ≤ operand.level ∧ operand.Shaped
  | .caseSearched arms => arms.Shaped
  | .caseSimple subject arms => (1 ≤ subject.level ∧ subject.Shaped) ∧ arms.Shaped
  | .cast operand _ => 1 ≤ operand.level ∧ operand.Shaped
  | .call _ args | .windowCall _ args => AllShaped 1 args
  | .aggregate _ _ arg => 1 ≤ arg.level ∧ arg.Shaped
  | .windowed function partition order _ =>
      (8 ≤ function.level ∧ function.Shaped) ∧ KeysShaped partition ∧ KeysShaped order
  | .subquery query | .existsQuery query => query.Shaped
  | .inQuery value query => (5 ≤ value.level ∧ value.Shaped) ∧ query.Shaped

/-- Operands that bind at least as tight as the level. -/
def AllShaped (level : Nat) : List Sql → Prop
  | [] => True
  | sql :: sqls => (level ≤ sql.level ∧ sql.Shaped) ∧ AllShaped level sqls

def OptionShaped : Option Sql → Prop
  | none => True
  | some sql => 1 ≤ sql.level ∧ sql.Shaped

def Arms.Shaped : Arms → Prop
  | .done => True
  | .otherwise value => 1 ≤ value.level ∧ value.Shaped
  | .when test value rest => (1 ≤ test.level ∧ test.Shaped) ∧ (1 ≤ value.level ∧ value.Shaped) ∧ rest.Shaped

def Key.Shaped : Key → Prop
  | .mk value _ => 1 ≤ value.level ∧ value.Shaped

def KeysShaped : List Key → Prop
  | [] => True
  | key :: keys => key.Shaped ∧ KeysShaped keys

def Output.Shaped : Output → Prop
  | .mk value _ => 1 ≤ value.level ∧ value.Shaped

def OutputsShaped : List Output → Prop
  | [] => True
  | output :: outputs => output.Shaped ∧ OutputsShaped outputs

def ListShaped : Option (List Output) → Prop
  | none => True
  | some list => list ≠ [] ∧ OutputsShaped list

def Query.Shaped : Query → Prop
  | .select _ list source filters groupBy having orderBy _ =>
      ListShaped list ∧ SourceShaped source ∧ AllShaped 1 filters ∧ KeysShaped groupBy ∧ OptionShaped having ∧
        KeysShaped orderBy
  | .legs first rest _ _ => (first.isLeg = true ∧ first.Shaped) ∧ rest ≠ [] ∧ LegsShaped rest

def Leg.Shaped : Leg → Prop
  | .mk _ _ query => query.isLeg = true ∧ query.Shaped

def LegsShaped : List Leg → Prop
  | [] => True
  | leg :: legs => leg.Shaped ∧ LegsShaped legs

def Source.Shaped : Source → Prop
  | .table _ tableAlias => (aliasTok tableAlias).Valid
  | .derived query tableAlias => query.Shaped ∧ (aliasTok tableAlias).Valid

def Joined.Shaped : Joined → Prop
  | .mk join source on => join.isSome = true ∧ source.Shaped ∧ AllShaped 1 on

def JoinsShaped : List Joined → Prop
  | [] => True
  | joined :: rest => joined.Shaped ∧ JoinsShaped rest

/-- The first table is joined to none. -/
def SourceShaped : List Joined → Prop
  | [] => False
  | .mk join source on :: rest => (join = none ∧ on = [] ∧ source.Shaped) ∧ JoinsShaped rest

end

def SetsShaped (sets : List (String × Sql)) : Prop := ∀ set ∈ sets, 1 ≤ set.2.level ∧ set.2.Shaped may

def Statement.Shaped : Statement → Prop
  | .update table sets filter =>
      (aliasTok table).Valid ∧ sets ≠ [] ∧ SetsShaped may sets ∧ OptionShaped may filter
  | .delete table filter => (aliasTok table).Valid ∧ OptionShaped may filter

def ModifyCount.Shaped (count : ModifyCount) : Prop := (aliasTok count.table).Valid ∧ OptionShaped may count.filter

end Shaped

end StoolapMariadb.SqlGen
