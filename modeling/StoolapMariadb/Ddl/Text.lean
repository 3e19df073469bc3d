import StoolapMariadb.Lib.Spelling
import StoolapMariadb.Ddl.Create

namespace StoolapMariadb.Ddl

/-! The texts of `ddl.rs`, and a reader of them by SQL's own grammar. -/

open Spelling (doubled join word)
open Lexer (Token)
open Parsing

/-- A statement of `ddl.rs`. -/
inductive Statement where
  | createTable (statement : CreateTable)
  | createIndex (statement : CreateIndex)
  | dropTable (table : String)
  | renameTable (table newName : String)

def quote (name : String) : String := "\"" ++ doubled name ++ "\""

/-- The columns of a key. -/
def columnsSql (columns : List String) : String := "(" ++ (join ", " (columns.map quote) ++ ")")

def typeSql : DataType → String
  | .integer => " INTEGER"
  | .float => " FLOAT"
  | .text => " TEXT"
  | .boolean => " BOOLEAN"

def ColumnClause.sql (column : ColumnClause) : String :=
  quote column.name ++ (typeSql column.dataType ++ ((if column.notNull then " NOT NULL" else "") ++
    ((if column.primaryKey then " PRIMARY KEY" else "") ++ (if column.autoIncrement then " AUTO_INCREMENT" else ""))))

def KeyClause.sql : KeyClause → String
  | .primaryKey columns => ", PRIMARY KEY " ++ columnsSql columns
  | .unique columns => ", UNIQUE " ++ columnsSql columns

def actionSql (event : String) : Option String → String
  | none => ""
  | some action => " ON " ++ (event ++ (" " ++ action))

def parentColumnSql : Option String → String
  | none => ""
  | some column => " (" ++ (quote column ++ ")")

def ForeignKeyClause.sql (key : ForeignKeyClause) : String :=
  ", FOREIGN KEY (" ++ (quote key.column ++ (") REFERENCES " ++ (quote key.parent ++
    (parentColumnSql key.parentColumn ++ (actionSql "DELETE" key.onDelete ++ actionSql "UPDATE" key.onUpdate)))))

/-- One text after the other. -/
def concat : List String → String
  | [] => ""
  | text :: texts => text ++ concat texts

def CreateTable.sql (statement : CreateTable) : String :=
  "CREATE TABLE " ++ ((if statement.ifNotExists then "IF NOT EXISTS " else "") ++ (quote statement.table ++ (" (" ++
    (join ", " (statement.columns.map ColumnClause.sql) ++ (concat (statement.keyClauses.map KeyClause.sql) ++
      (concat (statement.foreignKeys.map ForeignKeyClause.sql) ++ ")"))))))

def CreateIndex.sql (statement : CreateIndex) : String :=
  "CREATE INDEX IF NOT EXISTS " ++ (quote statement.name ++ (" ON " ++ (quote statement.table ++
    (" " ++ columnsSql statement.columns))))

def Statement.sql : Statement → String
  | .createTable statement => statement.sql
  | .createIndex statement => statement.sql
  | .dropTable table => "DROP TABLE IF EXISTS " ++ quote table
  | .renameTable table newName => "ALTER TABLE " ++ (quote table ++ (" RENAME TO " ++ quote newName))

section Reader

/-- A name in quotes. -/
def parseName : Parser Token String := do
  match ← next with
  | .quoted .ident bytes =>
      match decodeUtf8 bytes with
      | some text => return text
      | none => failure
  | _ => failure

def comma : Token := .symbol .comma

def parseParens {α : Type} (inside : Parser Token α) : Parser Token α := do
  expect (.symbol .lparen)
  let value ← inside
  expect (.symbol .rparen)
  return value

def parseNames (fuel : Nat) : Parser Token (List String) := parseParens (separated comma parseName fuel)

def parseType : Parser Token DataType := do
  let token ← next
  if token = word "INTEGER" then return .integer
  else if token = word "FLOAT" then return .float
  else if token = word "TEXT" then return .text
  else if token = word "BOOLEAN" then return .boolean
  else failure

def parseColumn : Parser Token ColumnClause := do
  let name ← parseName
  let dataType ← parseType
  let notNull ← optionally (word "NOT") (expect (word "NULL"))
  let primaryKey ← optionally (word "PRIMARY") (expect (word "KEY"))
  let autoIncrement ← optionally (word "AUTO_INCREMENT") (return ())
  return {
    name, dataType
    notNull := notNull.isSome
    primaryKey := primaryKey.isSome
    autoIncrement := autoIncrement.isSome }

def parseAction : Parser Token String := do
  let token ← next
  if token = word "RESTRICT" then return "RESTRICT"
  else if token = word "CASCADE" then return "CASCADE"
  else if token = word "NO" then
    expect (word "ACTION")
    return "NO ACTION"
  else if token = word "SET" then
    let value ← next
    if value = word "NULL" then return "SET NULL"
    else if value = word "DEFAULT" then return "SET DEFAULT"
    else failure
  else failure

/-- What a key does on an event of its parent. -/
def parseEvent : Parser Token (Token × String) := do
  expect (word "ON")
  let event ← next
  return (event, ← parseAction)

def parseForeignKey (fuel : Nat) : Parser Token ForeignKeyClause := do
  expect (word "FOREIGN")
  expect (word "KEY")
  let column ← parseParens parseName
  expect (word "REFERENCES")
  let parent ← parseName
  let parentColumn ←
    if (← peek) = some (.symbol .lparen) then
      let column ← parseParens parseName
      pure (some column)
    else pure none
  let events ← many (fun token => token = some (word "ON")) parseEvent fuel
  return { column, parent, parentColumn,
           onDelete := events.lookup (word "DELETE"), onUpdate := events.lookup (word "UPDATE") }

/-- A part of a CREATE TABLE between its parentheses. -/
inductive Element where
  | column (clause : ColumnClause)
  | key (clause : KeyClause)
  | foreignKey (clause : ForeignKeyClause)

def parseElement (fuel : Nat) : Parser Token Element := do
  let token ← peek
  if token = some (word "PRIMARY") then
    expect (word "PRIMARY")
    expect (word "KEY")
    return .key (.primaryKey (← parseNames fuel))
  else if token = some (word "UNIQUE") then
    expect (word "UNIQUE")
    return .key (.unique (← parseNames fuel))
  else if token = some (word "FOREIGN") then return .foreignKey (← parseForeignKey fuel)
  else return .column (← parseColumn)

def Element.column? : Element → Option ColumnClause
  | .column clause => some clause
  | _ => none

def Element.key? : Element → Option KeyClause
  | .key clause => some clause
  | _ => none

def Element.foreignKey? : Element → Option ForeignKeyClause
  | .foreignKey clause => some clause
  | _ => none

def parseIfNotExists : Parser Token Bool := do
  let there ← optionally (word "IF") (do expect (word "NOT"); expect (word "EXISTS"))
  return there.isSome

def parseCreateTable (fuel : Nat) : Parser Token CreateTable := do
  let ifNotExists ← parseIfNotExists
  let table ← parseName
  let elements ← parseParens (separated comma (parseElement fuel) fuel)
  return { ifNotExists, table
           columns := elements.filterMap Element.column?
           keyClauses := elements.filterMap Element.key?
           foreignKeys := elements.filterMap Element.foreignKey? }

def parseCreateIndex (fuel : Nat) : Parser Token CreateIndex := do
  let _ ← parseIfNotExists
  let name ← parseName
  expect (word "ON")
  let table ← parseName
  let columns ← parseNames fuel
  return { name, table, columns }

def parseStatement (fuel : Nat) : Parser Token Statement := do
  let first ← next
  let second ← next
  if first = word "CREATE" ∧ second = word "TABLE" then return .createTable (← parseCreateTable fuel)
  else if first = word "CREATE" ∧ second = word "INDEX" then return .createIndex (← parseCreateIndex fuel)
  else if first = word "DROP" ∧ second = word "TABLE" then
    expect (word "IF")
    expect (word "EXISTS")
    return .dropTable (← parseName)
  else if first = word "ALTER" ∧ second = word "TABLE" then
    let table ← parseName
    expect (word "RENAME")
    expect (word "TO")
    return .renameTable table (← parseName)
  else failure

/-- The text is one statement and nothing else. -/
def ReadsAs (text : String) (statement : Statement) : Prop :=
  ∃ tokens, Lexer.lex (utf8 text) = some tokens ∧ Reads parseStatement tokens statement []

end Reader

end StoolapMariadb.Ddl
